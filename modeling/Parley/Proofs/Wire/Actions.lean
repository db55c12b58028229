import Parley.Proofs.Wire.Bound

/-! # Actions, there and back

  An action is sent as stuffs of three roles: its name, the names of its parameters and
  their values. The reader pairs names with values again by position. So an action that is
  sent to a strict reader that knows actions comes back saying the same **exactly when**
  its tracker has no closing bracket and all its texts are backslash-safe
  (`action_survives_iff`).

  That nothing else comes back the same, not even by accident, has two reasons:

  - A text that is not safe leaves another text at its place in its role
    (`scan_stuffBlocks_of_not_safe`), and pairing by position shows every such place
    (`text_of_build`).
  - A header ends at its first closing bracket, so no tracker that was read has one
    (`tracker_closed_of_scan`).
-/

namespace Parley

open Ascii

/-! ## Section 1: An action as stuffs -/

namespace Action

/-- The stuffs of an action. -/
def stuffs (a : Action) : Stuffs :=
  { predicates := #[.ofString a.action]
    subjects := (a.params.map fun p => .ofString p.1).toArray
    objectives := (a.params.map fun p => p.2).toArray }

theorem translate?_of_action {a : Action} (h : a.action ≠ "") : a.translate? = some a.stuffs := by
  unfold translate?
  rw [if_neg h]
  rfl

/-- An action without a name has no stuffs to send. -/
theorem translate?_eq_some_iff {a : Action} {s : Stuffs} :
    a.translate? = some s ↔ a.action ≠ "" ∧ s = a.stuffs := by
  constructor
  · intro h
    unfold translate? at h
    split at h
    · cases h
    · next haction => exact ⟨haction, (Option.some.inj h).symm⟩
  · rintro ⟨haction, rfl⟩
    exact translate?_of_action haction

theorem same_iff {a b : Action} :
    a.same b = true ↔
      a.info.tracker = b.info.tracker ∧ a.action = b.action ∧ a.params = b.params := by
  simp [same, and_assoc]

/-- An action is filled from its own stuffs. -/
theorem build_stuffs (a fresh : Action) :
    fresh.build a.stuffs = { fresh with action := a.action, params := a.params } := by
  have hpairs : (a.params.map fun p => p.1).zip (a.params.map fun p => p.2) = a.params := by
    rw [List.zip_map']
    exact List.map_id a.params
  simpa [build, stuffs, Stuffs.of, Literal.ofString, Function.comp_def] using hpairs

/-- **Pairing loses nothing**: stuffs that an action is filled from have, at every place
    where it has a stuff of its own, the text of that. -/
theorem text_of_build {a fresh : Action} {s : Stuffs} (haction : (fresh.build s).action = a.action)
    (hparams : (fresh.build s).params = a.params) {kind : Kind} {i : Nat} {sent got : Literal}
    (hsent : (a.stuffs.of kind)[i]? = some sent) (hgot : (s.of kind)[i]? = some got) :
    got.text = sent.text := by
  -- a parameter is a name and a value that stand at the same place
  have hpair : ∀ param, a.params[i]? = some param →
      ((s.of .subject).map Literal.text)[i]? = some param.1 ∧
        (s.of .objective)[i]? = some param.2 := by
    intro param hparam
    rw [← hparams] at hparam
    exact List.getElem?_zip_eq_some.1 hparam
  -- the roles that an action has stuffs in
  cases kind with
  | subject =>
    simp only [stuffs, Stuffs.of, List.getElem?_map, Option.map_eq_some_iff] at hsent
    obtain ⟨param, hparam, rfl⟩ := hsent
    have hname := (hpair param hparam).1
    rw [List.getElem?_map, hgot] at hname
    exact Option.some.inj hname
  | objective =>
    simp only [stuffs, Stuffs.of, List.getElem?_map, Option.map_eq_some_iff] at hsent
    obtain ⟨param, hparam, rfl⟩ := hsent
    have hvalue := (hpair param hparam).2
    rw [hgot] at hvalue
    exact congrArg Literal.text (Option.some.inj hvalue)
  | predicate =>
    obtain ⟨rfl, rfl⟩ : i = 0 ∧ Literal.ofString a.action = sent := by
      simpa [stuffs, Stuffs.of, List.getElem?_singleton] using hsent
    have hfirst : (fresh.build s).action = got.text := by
      unfold build
      rw [List.head?_eq_getElem?, hgot]
      rfl
    rw [← hfirst, haction]
    rfl
  | attributive => cases hsent
  | adverbial => cases hsent
  | complement => cases hsent

/-- An action that a strict reader can be sent: its header ends where it should, and all its
    texts are read as they are. -/
structure Sendable (a : Action) : Prop where
  tracker : closeBracket ∉ Text.bytes a.info.tracker
  action : Wire.BackslashSafe (Text.bytes a.action)
  params : ∀ param ∈ a.params,
    Wire.BackslashSafe (Text.bytes param.1) ∧ Wire.BackslashSafe (Text.bytes param.2.text)

/-- The texts of an action are the texts of its stuffs. -/
theorem sendable_iff {a : Action} :
    a.Sendable ↔ closeBracket ∉ Text.bytes a.info.tracker ∧
      ∀ stuff ∈ a.stuffs.toList, Wire.BackslashSafe (Text.bytes stuff.text) := by
  constructor
  · intro h
    refine ⟨h.tracker, ?_⟩
    rintro ⟨l, kind⟩ hmem
    rw [Stuffs.mem_toList] at hmem
    cases kind with
    | subject =>
      obtain ⟨param, hparam, rfl⟩ := List.mem_map.1 hmem
      exact (h.params param hparam).1
    | objective =>
      obtain ⟨param, hparam, rfl⟩ := List.mem_map.1 hmem
      exact (h.params param hparam).2
    | predicate =>
      obtain rfl := List.mem_singleton.1 hmem
      exact h.action
    | attributive => cases hmem
    | adverbial => cases hmem
    | complement => cases hmem
  · rintro ⟨htracker, hstuffs⟩
    refine ⟨htracker, ?_, ?_⟩
    · exact hstuffs (.predicate (.ofString a.action))
        (Stuffs.mem_toList.2 (List.mem_singleton.2 rfl))
    · intro param hparam
      constructor
      · exact hstuffs (.subject (.ofString param.1))
          (Stuffs.mem_toList.2 (List.mem_map.2 ⟨param, hparam, rfl⟩))
      · exact hstuffs (.objective param.2)
          (Stuffs.mem_toList.2 (List.mem_map.2 ⟨param, hparam, rfl⟩))

end Action

/-! ## Section 2: Binding actions -/

variable {κ : Type} [Content κ]

/-- The factory for actions fills an action with the tracker and the owner. -/
theorem Factory.fill_action (tracker : String) (p : Primitive κ) :
    (Factory.action : Factory κ).fill tracker p =
      .action (Action.build { info := { tracker, owner := p.owner } } p.stuffs) := by
  unfold fill
  cases p.owner <;> rfl

/-- No other factory fills an action. -/
theorem Factory.eq_action {f : Factory κ} {tracker : String} {p : Primitive κ} {a : Action}
    (h : f.fill tracker p = .action a) : f = .action := by
  unfold fill at h
  cases f with
  | action => rfl
  | chunk => cases hp : p.owner <;> rw [hp] at h <;> cases h
  | custom f => cases hp : p.owner <;> rw [hp] at h <;> cases h

/-! ## Section 3: What comes back -/

/-- The primitive of an action. -/
def Action.primitive (a : Action) : Primitive κ :=
  { stuffs := a.stuffs, owner := a.info.owner, dialect := some (.action a) }

/-- A reading that has brought an action from a peer. -/
structure Received.Brings (r : Received κ) (a : Action) (peer : Option String) : Prop where
  error : r.error = none
  owner : r.primitive.owner = peer
  dialect : ∃ b, r.primitive.dialect = some (.action b) ∧ a.same b = true ∧ b.info.owner = peer

namespace Codec

/-- An action that came out of a reading was filled at the end of a scan, with the tracker in
    its header and the stuffs that it had committed. -/
theorem eq_build_of_deserialize (c : Codec κ) {bs : Bytes} (hne : bs ≠ [])
    {peer : Option String} {b : Action}
    (h : (c.deserialize bs peer).primitive.dialect = some (.action b)) :
    ∃ header s rest, Wire.scan c.mode .start {} bs = .finished header s rest ∧
      b = Action.build { info := { tracker := (Wire.headerParts header).2, owner := peer } } s := by
  obtain ⟨f, header, s, rest, hscan, hfill⟩ := c.eq_fill_of_deserialize hne h
  refine ⟨header, s, rest, hscan, ?_⟩
  obtain rfl := Factory.eq_action hfill.symm
  rw [Factory.fill_action] at hfill
  exact Dialect.action.inj hfill

variable {c : Codec κ} {a : Action} {peer : Option String}

theorem brings_of_sendable (hfactory : c.factory? Action.dialectName = some .action)
    (h : a.Sendable) (peer : Option String) :
    (c.deserialize (Wire.serialize (a.primitive : Primitive κ)) peer).Brings a peer := by
  obtain ⟨htracker, hsafe⟩ := Action.sendable_iff.1 h
  have hread : c.deserialize (Wire.serialize (a.primitive : Primitive κ)) peer =
      c.bind { stuffs := a.stuffs, owner := peer } Action.dialectName a.info.tracker :=
    c.deserialize_serialize_bound (d := .action a) rfl hsafe
      (by decide : closeBracket ∉ Text.bytes Action.dialectName)
      (by decide : '@' ∉ Action.dialectName.toList) htracker peer
  obtain ⟨herror, -, howner⟩ := c.bind_keeps
    { stuffs := a.stuffs, owner := peer } Action.dialectName a.info.tracker
  rw [hread]
  refine ⟨herror, howner,
    Action.build { info := { tracker := a.info.tracker, owner := peer } } a.stuffs, ?_, ?_, rfl⟩
  · rw [bind_of_some hfactory, Factory.fill_action]
    rfl
  · rw [Action.build_stuffs]
    exact Action.same_iff.2 ⟨rfl, rfl, rfl⟩

theorem sendable_of_brings (hmode : c.mode = .strict)
    (h : (c.deserialize (Wire.serialize (a.primitive : Primitive κ)) peer).Brings a peer) :
    a.Sendable := by
  obtain ⟨b, hdialect, hsame, -⟩ := h.dialect
  obtain ⟨htracker, haction, hparams⟩ := Action.same_iff.1 hsame
  obtain ⟨header, s, rest, hscan, rfl⟩ :=
    c.eq_build_of_deserialize (Wire.serialize_ne_nil _) hdialect
  have hwire : Wire.serialize (a.primitive : Primitive κ) ++ [] =
      Wire.versionBlock ++ (a.stuffs.toList.flatMap Wire.stuffBlock ++
        (Wire.dialectBlock Action.dialectName a.info.tracker ++ [])) :=
    Wire.serialize_append (p := a.primitive) (d := .action a) rfl []
  rw [List.append_nil] at hwire
  rw [hmode] at hscan
  have hread := hscan
  rw [hwire, Wire.scan_versionBlock] at hscan
  have hall : Stuffs.commitAll {} a.stuffs.toList = a.stuffs := Stuffs.ofList_toList a.stuffs
  have hsafe : ∀ stuff ∈ a.stuffs.toList, Wire.BackslashSafe (Text.bytes stuff.text) := by
    -- otherwise some text came back as another one, and pairing would show it
    by_contra hnot
    obtain ⟨kind, i, sent, got, hsent, hgot, htext⟩ :=
      Wire.scan_stuffBlocks_of_not_safe {} _ false hnot _ (by rw [hscan]; rfl)
    rw [hall] at hsent
    rw [hscan] at hgot
    exact htext (Action.text_of_build haction.symm hparams.symm hsent hgot)
  refine Action.sendable_iff.2 ⟨?_, hsafe⟩
  rw [htracker]
  exact Wire.tracker_closed_of_scan (p := a.primitive) (d := .action a) rfl hsafe hread

/-- **Actions survive the wire exactly when they can be sent.** An action that has a name, sent
    to a strict reader that knows actions, comes back saying the same and owned by the given
    peer if and only if its tracker has no closing bracket and its name, the names of its
    parameters and their values are all backslash-safe. -/
theorem action_survives_iff (c : Codec κ) (hmode : c.mode = .strict)
    (hfactory : c.factory? Action.dialectName = some .action) {a : Action} (haction : a.action ≠ "")
    (peer : Option String) :
    ∃ p : Primitive κ, Primitive.ofDialect? (.action a) = some p ∧
      ((c.deserialize (Wire.serialize p) peer).Brings a peer ↔ a.Sendable) := by
  refine ⟨a.primitive, ?_, sendable_of_brings hmode, fun h => brings_of_sendable hfactory h peer⟩
  show a.translate?.map _ = _
  rw [Action.translate?_of_action haction]
  rfl

/-- An action with structural bytes and pairs of backslashes, and two parameters of one name. -/
def escaping : Action where
  info := { tracker := "t@1" }
  action := "do:\x7b"
  params := [("x", .ofString "\\\\="), ("x", .ofString "\\n")]

/-- The same action, but the first value has lost a backslash. -/
def lopsided : Action :=
  { escaping with params := [("x", .ofString "\\="), ("x", .ofString "\\n")] }

theorem action_survives_iff_escaping :
    ofActions.mode = .strict ∧ ofActions.factory? Action.dialectName = some .action ∧
      (escaping.action ≠ "" ∧
        ∃ p : Primitive Empty, Primitive.ofDialect? (.action escaping) = some p ∧
          (ofActions.deserialize (Wire.serialize p) (some "peer")).Brings escaping (some "peer")) ∧
      (lopsided.action ≠ "" ∧
        ∃ p : Primitive Empty, Primitive.ofDialect? (.action lopsided) = some p ∧
          ¬ (ofActions.deserialize (Wire.serialize p) none).Brings lopsided none) := by
  have hfactory : ofActions.factory? Action.dialectName = some .action :=
    Registry.factory?_add {} .action
  have hescaping : escaping.action ≠ "" := by decide
  have hlopsided : lopsided.action ≠ "" := by decide
  have hsendable : escaping.Sendable :=
    ⟨by decide +kernel, by decide +kernel, by decide +kernel⟩
  have hunsafe : ¬ lopsided.Sendable := by
    intro h
    exact absurd (h.params ("x", .ofString "\\=") List.mem_cons_self).2 (by decide +kernel)
  obtain ⟨p, hp, hiff⟩ := action_survives_iff ofActions rfl hfactory hescaping (some "peer")
  obtain ⟨q, hq, hiff'⟩ := action_survives_iff ofActions rfl hfactory hlopsided none
  exact ⟨rfl, hfactory, ⟨hescaping, p, hp, hiff.2 hsendable⟩,
    ⟨hlopsided, q, hq, fun h => hunsafe (hiff'.1 h)⟩⟩

end Codec

end Parley
