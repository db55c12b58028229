import Parley.Cli.Invocation

/-! # Options spelled out

  Every option can be given with its value attached, whatever the value is: empty, beginning
  with a hyphen, or with more `=` in it. So whatever action is to be shown, there are
  arguments that say so (`read_arguments`).
-/

namespace Parley.Cli

/-! ## Section 1: Attached values -/

/-- The first `=` cuts a text. -/
theorem cutAtEquals_append {before : List Char} (h : '=' ∉ before) (behind : List Char) :
    cutAtEquals (before ++ '=' :: behind) = (before, some behind) := by
  induction before with
  | nil => rfl
  | cons c before ih =>
    have hc : c ≠ '=' := fun e => h (e ▸ List.mem_cons_self)
    have hrest := ih fun hmem => h (List.mem_cons_of_mem c hmem)
    rw [List.cons_append, cutAtEquals, hrest]
    exact hc

/-- An option with its value attached. -/
def attached (name value : String) : String := "--" ++ name ++ "=" ++ value

variable {form : Form} {g g' : Given}

/-- A reader without commands goes on behind a long option that it knows. -/
theorem read_long (hcommands : form.commands = []) {argument : String} {c : Char} {cs : List Char}
    (hchars : argument.toList = '-' :: '-' :: c :: cs) (hlong : form.readLong g (c :: cs) = .ok g')
    (place : Nat) (rest : List String) :
    form.read g place (argument :: rest) = form.read g' place rest := by
  rw [Form.read, if_neg (by simp [Form.isCommand, hcommands]), hchars]
  split
  · next heq => cases heq
  · next behind _ heq =>
    cases heq
    rw [hlong]
  · next letter behind hnot heq =>
    -- a second hyphen is no letter
    cases heq
    exact absurd rfl hnot
  · next hnot _ => exact absurd rfl (hnot (c :: cs))

/-- Where no option waits for a value, there is nothing to settle. -/
theorem settle_of_none (h : g.waiting = none) : g.settle = .ok g := by
  unfold Given.settle
  rw [h]

/-- It takes an attached value for the option of its name. -/
theorem read_attached (slot : Slot) (hcommands : form.commands = []) (hwaiting : g.waiting = none)
    (hslot : form.options.find? (fun s => s.name == slot.name) = some slot)
    (hname : '=' ∉ slot.name.toList) (harity : slot.arity ≠ .switch) {value : String}
    (hadd : g.add slot value = .ok g') (place : Nat) (rest : List String) :
    form.read g place (attached slot.name value :: rest) = form.read g' place rest := by
  have hchars : (attached slot.name value).toList =
      '-' :: '-' :: (slot.name.toList ++ '=' :: value.toList) := by
    unfold attached
    rw [String.toList_append, String.toList_append, String.toList_append, List.append_assoc,
      List.append_assoc]
    rfl
  have hlong : form.readLong g (slot.name.toList ++ '=' :: value.toList) = .ok g' := by
    unfold Form.readLong
    rw [cutAtEquals_append hname]
    dsimp only
    rw [String.ofList_toList, hslot]
    dsimp only
    split
    · next hswitch => exact absurd hswitch harity
    · rw [settle_of_none hwaiting, String.ofList_toList]
      exact hadd
  obtain ⟨c, cs, hcons⟩ := List.exists_cons_of_ne_nil
    (List.append_ne_nil_of_right_ne_nil slot.name.toList (List.cons_ne_nil '=' value.toList))
  rw [hcons] at hchars hlong
  exact read_long hcommands hchars hlong place rest

/-! ## Section 2: The options of `encode` -/

/-- The arguments that say what is to be shown. -/
def EncodeOptions.arguments (o : EncodeOptions) : List String :=
  "encode" :: attached "action" o.action :: attached "tracker" o.tracker ::
    (o.params.map (attached "param") ++ if o.json then ["--json"] else [])

/-- The values that they give. -/
def EncodeOptions.given (o : EncodeOptions) : Given :=
  { values := [("action", o.action), ("tracker", o.tracker)] ++ o.params.map ("param", ·) ++
      if o.json then [("json", "")] else [] }

/-- Parameters can be given as often as one likes. -/
theorem read_params (hwaiting : g.waiting = none) (params : List String) (place : Nat)
    (rest : List String) :
    (commandForm "encode").read g place (params.map (attached "param") ++ rest) =
      (commandForm "encode").read { g with values := g.values ++ params.map ("param", ·) } place
        rest := by
  induction params generalizing g with
  | nil =>
    rw [List.map_nil, List.map_nil, List.nil_append, List.append_nil]
  | cons param params ih =>
    have hadd : g.add { name := "param", arity := .repeated .text } param =
        .ok { g with values := g.values ++ [("param", param)] } := rfl
    rw [List.map_cons, List.cons_append,
      read_attached { name := "param", arity := .repeated .text } rfl hwaiting rfl
        (by decide) (by decide) hadd,
      ih (g := { g with values := g.values ++ [("param", param)] }) hwaiting, List.map_cons,
      List.append_assoc]
    rfl

/-- No parameter passes for anything else. -/
theorem lookup_params {name : String} (h : name ≠ "param") (params : List String) :
    (params.map ("param", ·)).lookup name = none := by
  rw [List.lookup_eq_none_iff]
  intro value hvalue
  obtain ⟨param, -, rfl⟩ := List.mem_map.1 hvalue
  exact bne_iff_ne.2 h

theorem read_json (hwaiting : g.waiting = none) (hnew : g.has "json" = false) (place : Nat) :
    (commandForm "encode").read g place ["--json"] =
      .ok ({ g with values := g.values ++ [("json", "")] }, none) := by
  have hadd : g.add { name := "json", arity := .switch } "" =
      .ok { g with values := g.values ++ [("json", "")] } := by
    unfold Given.add
    dsimp only
    rw [hnew]
    rfl
  have hlong : (commandForm "encode").readLong g ['j', 's', 'o', 'n'] =
      .ok { g with values := g.values ++ [("json", "")] } := by
    show (g.settle.bind fun g => g.add { name := "json", arity := .switch } "") = _
    rw [settle_of_none hwaiting]
    exact hadd
  rw [read_long rfl rfl hlong]
  show Except.map _ (Given.settle { g with values := g.values ++ [("json", "")] }) = _
  rw [settle_of_none (g := { g with values := g.values ++ [("json", "")] }) hwaiting]
  rfl

/-- The arguments are read as they were given. -/
theorem read_given (o : EncodeOptions) :
    (commandForm "encode").read {} 0 o.arguments.tail = .ok (o.given, none) := by
  have haction : ({} : Given).add { name := "action", arity := .single .text } o.action =
      .ok { values := [("action", o.action)] } := rfl
  have htracker : ({ values := [("action", o.action)] } : Given).add
      { name := "tracker", arity := .single .text } o.tracker =
        .ok { values := [("action", o.action), ("tracker", o.tracker)] } := rfl
  unfold EncodeOptions.arguments
  rw [List.tail_cons,
    read_attached { name := "action", arity := .single .text } rfl rfl rfl
      (by decide) (by decide) haction,
    read_attached { name := "tracker", arity := .single .text } rfl rfl rfl
      (by decide) (by decide) htracker,
    read_params rfl]
  unfold EncodeOptions.given
  cases o.json with
  | false =>
    rw [if_neg Bool.false_ne_true, if_neg Bool.false_ne_true, List.append_nil]
    rfl
  | true =>
    rw [if_pos rfl, if_pos rfl, read_json rfl]
    show (List.lookup "json" (_ ++ _)).isSome = false
    rw [List.lookup_append, lookup_params (by decide)]
    rfl

/-- **Whatever is to be shown can be said.** -/
theorem read_arguments (o : EncodeOptions) :
    Invocation.read o.arguments = .ok { config := none, command := .encode o } := by
  have hbefore : rootForm.read {} 0 o.arguments = .ok ({}, some ("encode", o.arguments.tail)) := by
    unfold EncodeOptions.arguments
    rw [Form.read, if_pos ⟨rfl, by decide⟩, List.tail_cons]
  have haction : o.given.get? "action" = some o.action := rfl
  have htracker : o.given.get? "tracker" = some o.tracker := rfl
  have hparams : o.given.all "param" = o.params := by
    unfold Given.all EncodeOptions.given
    cases o.json <;> simp [List.filter_map, Function.comp_def]
  have hlookup : ∀ name, name ≠ "action" → name ≠ "tracker" → name ≠ "param" →
      o.given.get? name = (if o.json then [("json", "")] else []).lookup name := by
    intro name haction htracker hparam
    unfold Given.get? EncodeOptions.given
    rw [List.lookup_append, List.lookup_append, lookup_params hparam, List.lookup_cons,
      List.lookup_cons, beq_eq_false_iff_ne.2 haction, beq_eq_false_iff_ne.2 htracker]
    rfl
  have hjson : o.given.has "json" = o.json := by
    unfold Given.has
    rw [hlookup "json" (by decide) (by decide) (by decide)]
    cases o.json <;> rfl
  have hconfig : o.given.get? configSlot.name = none := by
    rw [hlookup configSlot.name (by decide) (by decide) (by decide)]
    cases o.json <;> rfl
  have hcommand : commandOf "encode" o.given = .ok (.encode o) := by
    show (needed o.given "action").bind (fun action => .ok (Command.encode
      { action, params := o.given.all "param"
        tracker := (o.given.get? "tracker").getD defaultTracker
        json := o.given.has "json" })) = _
    unfold needed
    rw [haction, hparams, htracker, hjson]
    rfl
  unfold Invocation.read
  rw [hbefore]
  dsimp only
  rw [if_neg (by decide), read_given]
  simp only [bind, Except.bind, hcommand, hconfig]
  rfl

end Parley.Cli
