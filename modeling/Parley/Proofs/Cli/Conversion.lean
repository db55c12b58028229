import Parley.Cli.Execution
import Parley.Proofs.Cli.Spelling
import Parley.Proofs.Document.RoundTrip

/-! # The two forms of the program

  `encode` prints an action in one of two forms, and `decode` prints the other form of what it
  reads. Both readers come to the same primitive as the writer had: a document always, the wire
  form if nothing in it is misread. So what one form is converted to is the other form, byte for
  byte (`forms_convert`).
-/

namespace Parley

open Ascii

/-! ## Section 1: Parameters -/

namespace Cli

/-- What has an `=` is a parameter. -/
theorem isSome_param? {param : String} (h : '=' ∈ param.toList) : (param? param).isSome := by
  obtain ⟨before, behind, hsplit, hbefore⟩ := List.eq_append_cons_of_mem h
  unfold param?
  rw [hsplit, cutAtEquals_append hbefore]
  rfl

/-- Texts that are all parameters are taken apart one by one. -/
theorem params_eq_ok {texts : List String} (h : ∀ text ∈ texts, (param? text).isSome) :
    params texts = .ok (texts.filterMap param?) := by
  induction texts with
  | nil => rfl
  | cons text texts ih =>
    obtain ⟨p, hp⟩ := Option.isSome_iff_exists.1 (h text List.mem_cons_self)
    have hrest := ih fun other hmem => h other (List.mem_cons_of_mem text hmem)
    rw [params, hp, hrest, List.filterMap_cons, hp]
    rfl

/-- A value is a truth value, a 64-bit word or a text, and made as one. -/
theorem typed_paramLiteral (value : String) : (paramLiteral value).Typed := by
  unfold paramLiteral
  split
  · exact .bool true
  · split
    · exact .bool false
    · split
      · next n _ => exact .int64 n
      · exact .string value

/-- A value that is not kept as a text has no backslash. -/
theorem backslashSafe_paramLiteral {value : String} (h : (paramLiteral value).base ≠ .string) :
    Wire.BackslashSafe (Text.bytes (paramLiteral value).text) := by
  unfold paramLiteral at h ⊢
  split
  · decide
  · next htrue =>
    rw [if_neg htrue] at h
    split
    · decide
    · next hfalse =>
      rw [if_neg hfalse] at h
      cases hword : Text.int64? value with
      | some n => exact Text.backslashSafe_decimal _
      | none =>
        rw [hword] at h
        exact absurd rfl h

theorem value_of_param? {param name : String} {value : Literal}
    (h : param? param = some (name, value)) : ∃ text, value = paramLiteral text := by
  unfold param? at h
  split at h
  · cases h
  · exact ⟨_, (Prod.mk.inj (Option.some.inj h)).2.symm⟩

/-! ## Section 2: What is shown -/

/-- The action that options stand for. -/
def EncodeOptions.shown (o : EncodeOptions) : Action :=
  { info := { tracker := o.tracker }, action := o.action, params := o.params.filterMap param? }

/-- Options whose wire form is not misread: the tracker has no closing bracket, and all that is
    kept as a text is backslash-safe. -/
structure EncodeOptions.Plain (o : EncodeOptions) : Prop where
  tracker : closeBracket ∉ Text.bytes o.tracker
  action : Wire.BackslashSafe (Text.bytes o.action)
  params : ∀ param ∈ o.params, ∀ name value, param? param = some (name, value) →
    Wire.BackslashSafe (Text.bytes name) ∧
      (value.base = .string → Wire.BackslashSafe (Text.bytes value.text))

variable {o : EncodeOptions}

theorem actionPrimitive_eq_ok (haction : o.action ≠ "")
    (hparams : ∀ param ∈ o.params, (param? param).isSome) :
    actionPrimitive o = .ok o.shown.primitive := by
  have hprimitive : Primitive.ofDialect? (.action o.shown : Dialect Empty) =
      some o.shown.primitive := Action.ofDialect?_primitive haction
  unfold actionPrimitive
  rw [params_eq_ok hparams]
  unfold EncodeOptions.shown at hprimitive
  simp only [bind, Except.bind, hprimitive]
  rfl

/-- The values of an action that is shown are typed. -/
theorem EncodeOptions.typed_shown (o : EncodeOptions) :
    ∀ param ∈ o.shown.params, param.2.Typed := by
  rintro ⟨name, value⟩ hmem
  obtain ⟨param, -, hparam⟩ := List.mem_filterMap.1 hmem
  obtain ⟨text, rfl⟩ := value_of_param? hparam
  exact typed_paramLiteral text

theorem EncodeOptions.Plain.sendable (h : o.Plain) : o.shown.Sendable where
  tracker := h.tracker
  action := h.action
  params := by
    rintro ⟨name, value⟩ hmem
    obtain ⟨param, hparam, hsome⟩ := List.mem_filterMap.1 hmem
    obtain ⟨hname, htext⟩ := h.params param hparam name value hsome
    obtain ⟨text, rfl⟩ := value_of_param? hsome
    refine ⟨hname, ?_⟩
    by_cases hbase : (paramLiteral text).base = .string
    · exact htext hbase
    · exact backslashSafe_paramLiteral hbase

/-! ## Section 3: Reading what is shown -/

/-- Without a configuration, `decode` knows actions. -/
theorem create_default (tag : Uuid) : ∃ n : Nucleus Empty,
    Nucleus.create {} tag {} = .ok n ∧ n.codec.factory? Action.dialectName = some .action := by
  refine ⟨_, if_neg (by decide), ?_⟩
  have hother : Action.dialectName ≠ (Factory.chunk : Factory Empty).name := by decide
  show ((Registry.add _ .action).add .chunk).factory? Action.dialectName = some .action
  rw [Registry.factory?_add_ne _ hother]
  exact Registry.factory?_add _ .action

/-- An action that is bound again is the one that was shown. -/
theorem bind_shown {c : Codec Empty} (hfactory : c.factory? Action.dialectName = some .action)
    (o : EncodeOptions) :
    let r := c.bind { stuffs := o.shown.stuffs, owner := none } Action.dialectName o.tracker
    r.error = none ∧ r.primitive = o.shown.primitive := by
  refine ⟨(c.bind_keeps _ _ _).1, ?_⟩
  rw [Codec.bind_of_some hfactory, Factory.fill_action, Action.build_stuffs]
  rfl

/-- The wire form of an action ends in a bracket. -/
theorem trimEnd_wireLine (a : Action) :
    trimEnd (wireLine a.primitive) = Wire.serialize (a.primitive : Primitive Empty) := by
  obtain ⟨front, hfront⟩ : ∃ front, Wire.serialize (a.primitive : Primitive Empty) =
      front ++ [closeBracket] := by
    refine ⟨Wire.versionBlock ++ (a.stuffs.toList.flatMap Wire.stuffBlock ++
      openBracket :: (Text.bytes Action.dialectName ++ atSign :: Text.bytes a.info.tracker)), ?_⟩
    have hwire :=
      Wire.serialize_append (p := (a.primitive : Primitive Empty)) (d := .action a) rfl []
    rw [List.append_nil] at hwire
    rw [hwire]
    simp [Wire.dialectBlock, Action.primitive, Dialect.name, Dialect.tracker, Dialect.info]
  -- only the line feed behind the bracket is a blank
  unfold wireLine trimEnd
  rw [hfront, List.reverse_append, List.reverse_append, List.reverse_singleton,
    List.reverse_singleton, List.singleton_append, List.singleton_append,
    List.dropWhile_cons_of_pos (by decide), List.dropWhile_cons_of_neg (by decide),
    List.reverse_cons, List.reverse_reverse]

/-- `decode` reads the document of an action as that action. -/
theorem showOther_document {n : Nucleus Empty}
    (hfactory : n.codec.factory? Action.dialectName = some .action) (o : EncodeOptions) :
    showOther n true (documentLines o.shown.primitive) = .ok (wireLine o.shown.primitive) := by
  have hstands : ∀ stuff ∈ (o.shown.primitive : Primitive Empty).stuffs.toList,
      Document.Stands stuff.toLiteral := fun stuff hmem =>
    Document.stands_of_typed (Action.typed_stuffs o.typed_shown stuff hmem)
  have hread : n.codec.parse (Document.text (o.shown.primitive : Primitive Empty) ++ "\n") none =
      n.codec.bind { stuffs := o.shown.stuffs, owner := none } Action.dialectName o.tracker :=
    (n.codec.parse_text_line hstands none).trans (n.codec.readDocument_of_stands hstands none)
  obtain ⟨herror, hprimitive⟩ := bind_shown hfactory o
  unfold showOther documentLines line
  simp only [if_true, Text.ofBytes?_bytes, hread, herror, hprimitive]

/-- `decode` reads the wire form of an action as that action, if nothing in it is misread. -/
theorem showOther_wire {n : Nucleus Empty}
    (hfactory : n.codec.factory? Action.dialectName = some .action) (h : o.Plain) :
    showOther n false (wireLine o.shown.primitive) = .ok (documentLines o.shown.primitive) := by
  obtain ⟨htracker, hsafe⟩ := Action.sendable_iff.1 h.sendable
  have hread : n.codec.deserialize (Wire.serialize (o.shown.primitive : Primitive Empty)) none =
      n.codec.bind { stuffs := o.shown.stuffs, owner := none } Action.dialectName o.tracker :=
    n.codec.deserialize_serialize_bound (d := .action o.shown) rfl hsafe
      (by decide : closeBracket ∉ Text.bytes Action.dialectName)
      (by decide : '@' ∉ Action.dialectName.toList) htracker none
  obtain ⟨herror, hprimitive⟩ := bind_shown hfactory o
  unfold showOther
  simp only [Bool.false_eq_true, if_false, trimEnd_wireLine, hread, herror, hprimitive]

/-! ## Section 4: The program -/

/-- What the program does with some arguments and an input: how it ends, and the disk after it. -/
def outcome (arguments : List String) (input : Bytes) (sourceTag targetTag : Uuid) (d : Disk) :
    End × Disk :=
  match Invocation.read arguments with
  | .error refusal => (refusal.ending, d)
  | .ok i =>
    let (result, d) := i.run input sourceTag targetTag d
    (endOf result, d)

variable {input : Bytes} {sourceTag targetTag : Uuid} {d : Disk}

/-- `encode` prints the form that it is asked for. -/
theorem outcome_encode (haction : o.action ≠ "")
    (hparams : ∀ param ∈ o.params, (param? param).isSome) :
    outcome o.arguments input sourceTag targetTag d =
      ({ code := 0
         output :=
          if o.json then documentLines o.shown.primitive else wireLine o.shown.primitive }, d) := by
  unfold outcome
  rw [read_arguments]
  show (endOf (runEncode o), d) = _
  unfold runEncode
  rw [actionPrimitive_eq_ok haction hparams]
  rfl

/-- `decode` prints the other form of its input. -/
theorem outcome_decode {arguments : List String} {json : Bool}
    (hread : Invocation.read arguments = .ok { config := none, command := .decode json }) :
    ∃ n : Nucleus Empty, n.codec.factory? Action.dialectName = some .action ∧
      outcome arguments input sourceTag targetTag d = (endOf (showOther n json input), d) := by
  obtain ⟨n, hn, hfactory⟩ := create_default sourceTag
  refine ⟨n, hfactory, ?_⟩
  have hrun : runDecode none json input sourceTag d = (showOther n json input, d) := by
    unfold runDecode loadConfig
    dsimp only
    rw [hn]
  unfold outcome
  rw [hread]
  show (endOf (runDecode none json input sourceTag d).1, (runDecode none json input sourceTag d).2)
    = _
  rw [hrun]

/-- **The two forms are converted into each other.** Whatever the name of an action, its
    parameters and its tracker: `encode` prints a wire form and a document; `decode` prints that
    wire form for the document; and if nothing in the wire form is misread, it prints that
    document for the wire form. -/
theorem forms_convert (o : EncodeOptions) (haction : o.action ≠ "")
    (hparams : ∀ param ∈ o.params, '=' ∈ param.toList) (sourceTag targetTag : Uuid) (d : Disk) :
    ∃ wire document,
      outcome { o with json := false }.arguments [] sourceTag targetTag d =
        ({ code := 0, output := wire }, d) ∧
      outcome { o with json := true }.arguments [] sourceTag targetTag d =
        ({ code := 0, output := document }, d) ∧
      outcome ["decode", "--json"] document sourceTag targetTag d =
        ({ code := 0, output := wire }, d) ∧
      (o.Plain → outcome ["decode"] wire sourceTag targetTag d =
        ({ code := 0, output := document }, d)) := by
  have hall : ∀ param ∈ o.params, (param? param).isSome := fun param hmem =>
    isSome_param? (hparams param hmem)
  refine ⟨wireLine o.shown.primitive, documentLines o.shown.primitive, ?_, ?_, ?_, fun hplain => ?_⟩
  · exact outcome_encode (o := { o with json := false }) haction hall
  · exact outcome_encode (o := { o with json := true }) haction hall
  · have hread : Invocation.read ["decode", "--json"] =
        .ok { config := none, command := .decode true } := by decide
    obtain ⟨n, hfactory, houtcome⟩ := outcome_decode hread
    rw [houtcome, showOther_document hfactory]
    rfl
  · have hread : Invocation.read ["decode"] =
        .ok { config := none, command := .decode false } := by decide
    obtain ⟨n, hfactory, houtcome⟩ := outcome_decode hread
    rw [houtcome, showOther_wire hfactory hplain]
    rfl

/-- A parameter of each kind, one with structural bytes and a pair of backslashes. -/
def notice : EncodeOptions where
  action := "notify"
  params := ["ok=true", "n=+07", "text=a\\\\:b=c"]
  tracker := "t@1"

theorem forms_convert_notice :
    let tag : Uuid := ⟨List.replicate 16 0, rfl⟩
    notice.action ≠ "" ∧ (∀ param ∈ notice.params, '=' ∈ param.toList) ∧ notice.Plain ∧
    ∃ wire document,
      wire = Text.ascii ("[1.0]\x7bsub=ok:string\x7d\x7bsub=n:string\x7d\x7bsub=text:string\x7d" ++
        "\x7bpre=notify:string\x7d\x7bobj=true:bool\x7d\x7bobj=7:long\x7d" ++
        "\x7bobj=a\\\\\\:b\\=c:string\x7d[ActionDialect@t@1]\n") ∧
      outcome { notice with json := false }.arguments [] tag tag {} =
        ({ code := 0, output := wire }, {}) ∧
      outcome { notice with json := true }.arguments [] tag tag {} =
        ({ code := 0, output := document }, {}) ∧
      outcome ["decode", "--json"] document tag tag {} = ({ code := 0, output := wire }, {}) ∧
      outcome ["decode"] wire tag tag {} = ({ code := 0, output := document }, {}) := by
  intro tag
  have haction : notice.action ≠ "" := by decide
  have hparams : ∀ param ∈ notice.params, '=' ∈ param.toList := by decide +kernel
  have hplain : notice.Plain := by
    have hall : ∀ param ∈ notice.params, ∀ p ∈ param? param,
        Wire.BackslashSafe (Text.bytes p.1) ∧
          (p.2.base = .string → Wire.BackslashSafe (Text.bytes p.2.text)) := by
      decide +kernel
    exact ⟨by decide +kernel, by decide +kernel, fun param hmem name value h =>
      hall param hmem (name, value) h⟩
  obtain ⟨wire, document, hwire, hdocument, hback, hthere⟩ :=
    forms_convert notice haction hparams tag tag {}
  refine ⟨haction, hparams, hplain, wire, document, ?_, hwire, hdocument, hback, hthere hplain⟩
  have houtput := congrArg (fun found => found.1.output) hwire
  exact houtput.symm.trans (by decide +kernel)

end Cli

end Parley
