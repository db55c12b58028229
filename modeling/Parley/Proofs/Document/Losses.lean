import Parley.Proofs.Document.RoundTrip
import Parley.Proofs.Number.Places
import Parley.Proofs.Wire.Losses

/-! # Lost stuffs

  Names are texts and always come back from a document; a value may be lost to one (XML, and
  what its reader refuses). On the wire any stuff may be lost to a lenient reader. Either way an
  action is built again from **names and values that are paired by position**, so it has the
  parameters that were sent if the losses are aligned, and, where names and values are distinct,
  only then (`lost_stuffs_shift`).
-/

namespace Parley

/-! ## Section 1: Values in a document -/

/-- Literals that come back from a document as they were or not at all: typed ones, JSON values
    of integers as deep as a reader takes them, numbers with four places, and XML. -/
inductive Literal.Made : Literal → Prop where
  /-- A typed literal. -/
  | typed {l : Literal} (h : l.Typed) : Made l
  /-- A JSON value. -/
  | json {v : Json} (h : v.Whole Json.maxDepth) : Made (.ofJson v)
  /-- A 32-bit number. -/
  | single (x : Single) : Made (.ofSingle x)
  /-- A 64-bit number. -/
  | double (x : Double) : Made (.ofDouble x)
  /-- XML text. -/
  | xml (s : String) : Made (.ofXml s)

namespace Document

theorem comeback?_ofJson {v : Json} (h : v.Whole Json.maxDepth) :
    comeback? (.ofJson v) = some (.ofJson v) := by
  have hvalue : value? (.ofJson v) = some v := by
    show some ((Json.read? v.compact).getD _) = some v
    rw [h.read?_compact (Nat.le_refl _)]
    rfl
  unfold comeback?
  rw [hvalue]
  rfl

/-- What four places are written as: a number if they are read as one, and their text if not. -/
theorem value?_fixed {d : Datum} (hfits : Format.double.Fits d) {base : Base}
    (hbase : base = .float ∨ base = .double) :
    ∃ x : Double, x.fixed = d.fixed ∧ x.isFinite = d.isFinite ∧
      value? { text := d.fixed, base } = some ((Json.ofDouble? x).getD (.string d.fixed)) := by
  obtain ⟨x, hread, hfinite, hfixed⟩ := Datum.read?_fixed hfits
  refine ⟨x, hfixed, ?_, ?_⟩
  · rw [← hfinite]
    rfl
  · have hdouble : Literal.asDouble? { text := d.fixed, base } = some x := hread
    unfold value?
    rcases hbase with rfl | rfl <;> dsimp only <;> rw [hdouble, Option.bind_some]

/-- **Four places come back as they were**; what is no number is refused. -/
theorem comeback?_fixed {d : Datum} (hfits : Format.double.Fits d) {base : Base}
    (hbase : base = .float ∨ base = .double) :
    comeback? { text := d.fixed, base } =
      if d.isFinite then some { text := d.fixed, base } else none := by
  obtain ⟨x, hfixed, hfinite, hvalue⟩ := value?_fixed hfits hbase
  have hcanonical (v : Json) : canonical? base v = v.asDouble?.map Double.fixed := by
    rcases hbase with rfl | rfl <;> rfl
  have hnumber : ((Json.ofDouble? x).getD (.string d.fixed)).asDouble? =
      if x.isFinite then some x else none := by
    unfold Json.ofDouble?
    split <;> rfl
  unfold comeback?
  rw [hvalue, Option.bind_some, hcanonical, hnumber, hfinite]
  split
  · show (some { text := x.fixed, base } : Option Literal) = some { text := d.fixed, base }
    rw [hfixed]
  · rfl

theorem comeback?_ofSingle (x : Single) : comeback? (.ofSingle x) =
    if x.datum.isFinite then some (.ofSingle x) else none :=
  comeback?_fixed x.fits_datum (.inl rfl)

theorem comeback?_ofDouble (x : Double) : comeback? (.ofDouble x) =
    if x.datum.isFinite then some (.ofDouble x) else none :=
  comeback?_fixed x.fits_datum (.inr rfl)

/-- **What is made comes back as it was or not at all.** -/
theorem comeback?_of_made {l : Literal} (h : l.Made) :
    comeback? l = some l ∨ comeback? l = none := by
  cases h with
  | typed h => exact .inl (comeback?_of_stands (stands_of_typed h))
  | json h => exact .inl (comeback?_ofJson h)
  | single x =>
    rw [comeback?_ofSingle]
    split
    · exact .inl rfl
    · exact .inr rfl
  | double x =>
    rw [comeback?_ofDouble]
    split
    · exact .inl rfl
    · exact .inr rfl
  | xml s => exact .inr rfl

end Document

open Document

namespace Action

/-! ## Section 2: An action in a document -/

/-- The action with each value as it comes back from a document. A value that does not come back
    stays as it is. -/
def echoed (a : Action) : Action :=
  { a with params := a.params.map fun param => (param.1, (comeback? param.2).getD param.2) }

/-- What a document leaves of the parameters. -/
def documentRemnants (a : Action) : List Remnant :=
  a.params.map fun param =>
    { name := param.1, value := (comeback? param.2).getD param.2
      named := true, valued := (comeback? param.2).isSome }

theorem origin_documentRemnants (a : Action) :
    Remnant.origin a.documentRemnants = a.echoed.params := by
  unfold Remnant.origin documentRemnants echoed
  rw [List.map_map]
  rfl

/-- Values that are made come back as they were or not at all. -/
theorem echoed_of_made {a : Action} (h : ∀ param ∈ a.params, param.2.Made) : a.echoed = a := by
  have hown : ∀ param ∈ a.params, (param.1, (comeback? param.2).getD param.2) = param := by
    intro param hparam
    rcases comeback?_of_made (h param hparam) with hback | hlost
    · rw [hback]
      rfl
    · rw [hlost]
      rfl
  have hparams : (a.params.map fun param => (param.1, (comeback? param.2).getD param.2))
      = a.params := (List.map_congr_left hown).trans (List.map_id a.params)
  unfold echoed
  rw [hparams]

/-- All names are left, being texts. -/
theorem names_documentRemnants (a : Action) :
    ((a.stuffs.of .subject).filterMap comeback?).map Literal.text
      = Remnant.names a.documentRemnants := by
  have hsubjects : a.stuffs.of .subject = a.params.map fun param => .ofString param.1 := rfl
  have hcomeback : (fun param : String × Literal => comeback? (.ofString param.1))
      = some ∘ fun param => .ofString param.1 := rfl
  have hnamed : a.documentRemnants.filter Remnant.named = a.documentRemnants := by
    apply List.filter_eq_self.2
    intro r hr
    obtain ⟨param, -, rfl⟩ := List.mem_map.1 hr
    rfl
  unfold Remnant.names
  rw [hnamed, hsubjects, List.filterMap_map]
  show (a.params.filterMap fun param => comeback? (.ofString param.1)).map Literal.text = _
  rw [hcomeback, List.filterMap_eq_map]
  unfold documentRemnants
  rw [List.map_map, List.map_map]
  rfl

/-- The values that are left are those that come back. -/
theorem values_documentRemnants (a : Action) :
    (a.stuffs.of .objective).filterMap comeback? = Remnant.values a.documentRemnants := by
  have hobjectives : a.stuffs.of .objective = a.params.map fun param => param.2 := rfl
  rw [hobjectives]
  unfold documentRemnants
  induction a.params with
  | nil => rfl
  | cons param params ih =>
    rw [List.map_cons, List.map_cons, Remnant.values_cons]
    cases hvalue : comeback? param.2 with
    | none =>
      rw [List.filterMap_cons_none hvalue, ih]
      rfl
    | some l =>
      rw [List.filterMap_cons_some hvalue, ih]
      rfl

/-- **What comes back of the stuffs is paired by position.** -/
theorem params_build_comeback (a fresh : Action) :
    (fresh.build (Stuffs.ofRoles fun kind => (a.stuffs.of kind).filterMap comeback?)).params
      = Remnant.paired a.documentRemnants := by
  unfold build Remnant.paired
  simp only [Stuffs.of_ofRoles, names_documentRemnants, values_documentRemnants]

end Action

/-- The echoes of stuffs, role by role. -/
theorem Document.ofList_echoes (s : Stuffs) : Stuffs.ofList (s.toList.filterMap echo?) =
    Stuffs.ofRoles fun kind => (s.of kind).filterMap comeback? := by
  have hroles : s.toList.filterMap echo? = Kind.all.flatMap fun kind =>
      ((s.of kind).filterMap comeback?).map (Stuff.ofLiteral kind) := by
    have hrole (kind : Kind) : ((s.of kind).map (Stuff.ofLiteral kind)).filterMap echo?
        = ((s.of kind).filterMap comeback?).map (Stuff.ofLiteral kind) := by
      rw [List.filterMap_map, List.map_filterMap]
      rfl
    unfold Stuffs.toList
    rw [List.filterMap_flatMap]
    simp only [hrole]
  rw [hroles]
  exact Stuffs.ofList_roles _

/-! ## Section 3: What losses do to an action -/

/-- A reading that has built an action again from what losses have left of its parameters: by
    position. They are parameters of the action that was sent if the losses are aligned, and
    only then where names and values are distinct. -/
structure Received.Rebuilds {κ : Type} (r : Received κ) (left : List Remnant)
    (sent : List (String × Literal)) : Prop where
  error : r.error = none
  dialect : ∃ b, r.primitive.dialect = some (.action b) ∧
    b.params = (Remnant.names left).zip (Remnant.values left) ∧
    (Remnant.Aligned left → b.params.Sublist sent) ∧
    ((sent.map Prod.fst).Nodup → (sent.map Prod.snd).Nodup →
      (∀ pair ∈ b.params, pair ∈ sent) → Remnant.Aligned left)

namespace Codec

variable {κ : Type} [Content κ] {c : Codec κ}

/-- An action that is bound to what is left. -/
theorem rebuilds_bind (hfactory : c.factory? Action.dialectName = some .action) {s : Stuffs}
    (peer : Option String) (tracker : String) {left : List Remnant}
    (h : ∀ fresh : Action, (fresh.build s).params = Remnant.paired left) :
    (c.bind { stuffs := s, owner := peer } Action.dialectName tracker).Rebuilds left
      (Remnant.origin left) := by
  obtain ⟨herror, -, -⟩ := c.bind_keeps { stuffs := s, owner := peer } Action.dialectName tracker
  refine ⟨herror, Action.build { info := { tracker, owner := peer } } s, ?_, h _, ?_, ?_⟩
  · rw [bind_of_some hfactory, Factory.fill_action]
    rfl
  · intro haligned
    rw [h, Remnant.paired_of_aligned haligned]
    exact Remnant.whole_sublist left
  · intro hnames hvalues hpairs
    rw [h] at hpairs
    unfold Remnant.origin at hnames hvalues
    rw [List.map_map] at hnames hvalues
    exact Remnant.aligned_of_paired hnames hvalues hpairs

/-- **Lost stuffs shift the pairing of what is left.** An action is sent and loses stuffs: on
    the wire, to damaged tags and a lenient reader; or in a document, which leaves out what has
    no value and what its reader refuses. Built again, it has the names that are left, paired by
    position with the values that are left. So its parameters are, in order, parameters of the
    action that was sent if the losses are aligned; and where no name and no value occurs twice,
    some pair is none of them if they are not. Values that are made come back from a document as
    they were or not at all. -/
theorem lost_stuffs_shift (c : Codec κ)
    (hfactory : c.factory? Action.dialectName = some .action) {a : Action} (haction : a.action ≠ "")
    (peer : Option String) :
    ∃ p : Primitive κ, Primitive.ofDialect? (.action a) = some p ∧
      (∀ damage : Damage, damage.Unknown → c.mode = .lenient →
        (∀ stuff ∈ p.stuffs.toList, Wire.BackslashSafe (Text.bytes stuff.text)) →
        (c.deserialize (Wire.damaged damage p) peer).Rebuilds (a.remnants damage) a.params) ∧
      (c.mode = .lenient → (c.readDocument { owner := peer } (ofPrimitive p)).error = none) ∧
      ((c.readDocument { owner := peer } (ofPrimitive p)).error = none →
        (c.readDocument { owner := peer } (ofPrimitive p)).Rebuilds a.documentRemnants
          a.echoed.params) ∧
      ((∀ param ∈ a.params, param.2.Made) → a.echoed = a) := by
  have hread := readDocument_ofPrimitive c (a.primitive : Primitive κ) peer
  rw [ofList_echoes] at hread
  refine ⟨a.primitive, Action.ofDialect?_primitive haction, ?_, ?_, ?_, Action.echoed_of_made⟩
  · intro damage hunknown hmode hsafe
    obtain ⟨tracker, hread⟩ := deserialize_damaged hmode hunknown hsafe peer
    have hbuilt := rebuilds_bind hfactory peer tracker fun fresh =>
      a.params_build_left fresh damage
    rw [hread]
    rwa [Action.origin_remnants] at hbuilt
  · intro hmode
    rcases hread with hread | ⟨hstrict, -, -⟩
    · rw [hread]
      exact (c.bind_keeps _ _ _).1
    · rw [hmode] at hstrict
      cases hstrict
  · intro herror
    rcases hread with hread | ⟨-, hfault, -⟩
    · rw [hread, ← Action.origin_documentRemnants]
      exact rebuilds_bind hfactory peer a.info.tracker fun fresh => a.params_build_comeback fresh
    · exact absurd herror hfault

/-- A lenient codec that knows actions. -/
def lenientActions : Codec Empty := { registry := some (Registry.add {} .action) }

/-- Damage to both stuffs of the second parameter. -/
def secondLost : Damage := fun kind i =>
  if i = 1 ∧ kind ≠ .predicate then some (Text.ascii "nope") else none

/-- An action whose last value is XML. -/
def threefold : Action where
  info := { tracker := "t]" }
  action := "go"
  params := [("a", .ofString "1"), ("b", .ofBool true), ("c", .ofXml "<x/>")]

theorem lost_stuffs_shift_threefold :
    lenientActions.factory? Action.dialectName = some .action ∧ threefold.action ≠ "" ∧
      ∃ p : Primitive Empty, Primitive.ofDialect? (.action threefold) = some p ∧
        secondLost.Unknown ∧ lenientActions.mode = .lenient ∧
        (∀ stuff ∈ p.stuffs.toList, Wire.BackslashSafe (Text.bytes stuff.text)) ∧
        (∃ b, (lenientActions.deserialize (Wire.damaged secondLost p) none).primitive.dialect =
            some (.action b) ∧
          b.params = [("a", .ofString "1"), ("c", .ofXml "<x/>")]) ∧
        (∃ b, (lenientActions.readDocument {} (ofPrimitive p)).primitive.dialect =
            some (.action b) ∧
          b.params.Sublist threefold.params) := by
  have hfactory : lenientActions.factory? Action.dialectName = some .action :=
    Registry.factory?_add {} .action
  have haction : threefold.action ≠ "" := by decide
  have hunknown : secondLost.Unknown := by
    intro kind i tag htag
    unfold secondLost at htag
    split at htag
    · obtain rfl := Option.some.inj htag
      decide +kernel
    · cases htag
  obtain ⟨p, hp, hwire, hlenient, hdocument, htyped⟩ :=
    lost_stuffs_shift lenientActions hfactory haction none
  have hprimitive : Primitive.ofDialect? (.action threefold : Dialect Empty)
      = some threefold.primitive := Action.ofDialect?_primitive haction
  obtain rfl : p = threefold.primitive := Option.some.inj (hp.symm.trans hprimitive)
  have hsafe : ∀ stuff ∈ threefold.stuffs.toList, Wire.BackslashSafe (Text.bytes stuff.text) := by
    decide +kernel
  have haligned : Remnant.Aligned threefold.documentRemnants := by decide +kernel
  have hechoed : threefold.echoed = threefold := by
    apply htyped
    simp only [threefold, List.forall_mem_cons, List.not_mem_nil, false_imp_iff, implies_true,
      and_true]
    exact ⟨.typed (.string _), .typed (.bool _), .xml _⟩
  obtain ⟨b, hb, hparams, -, -⟩ := (hwire secondLost hunknown rfl hsafe).dialect
  obtain ⟨b', hb', -, hsublist, -⟩ := (hdocument (hlenient rfl)).dialect
  rw [hechoed] at hsublist
  exact ⟨hfactory, haction, _, hprimitive, hunknown, rfl, hsafe, ⟨b, hb, hparams⟩,
    ⟨b', hb', hsublist haligned⟩⟩

/-- An action whose first value is XML. -/
def xmlFirst : Action where
  info := { tracker := "t" }
  action := "go"
  params := [("a", .ofXml "<x/>"), ("b", .ofString "2")]

/-- Damage to the first value. -/
def firstValueLost : Damage := fun kind i =>
  if i = 0 ∧ kind = .objective then some (Text.ascii "nope") else none

/-- **A lost value gives its name another one**: in a document, and on the wire. -/
theorem lost_value_mispairs : xmlFirst.action ≠ "" ∧
    ∃ p : Primitive Empty, Primitive.ofDialect? (.action xmlFirst) = some p ∧
      (∃ b, (lenientActions.readDocument {} (ofPrimitive p)).primitive.dialect =
          some (.action b) ∧
        b.params = [("a", .ofString "2")] ∧ ¬ b.params.Sublist xmlFirst.params) ∧
      (∃ b, (lenientActions.deserialize (Wire.damaged firstValueLost p) none).primitive.dialect =
          some (.action b) ∧
        b.params = [("a", .ofString "2")] ∧ ¬ b.params.Sublist xmlFirst.params) := by
  have hrebuilt : ∀ b : Action, b.params = [("a", .ofString "2")] →
      ¬ b.params.Sublist xmlFirst.params := by
    intro b hb
    rw [hb]
    decide
  refine ⟨by decide, xmlFirst.primitive, Action.ofDialect?_primitive (by decide),
    ⟨{ xmlFirst with params := [("a", .ofString "2")] }, ?_, rfl, hrebuilt _ rfl⟩,
    ⟨{ xmlFirst with params := [("a", .ofString "2")] }, ?_, rfl, hrebuilt _ rfl⟩⟩
  · decide +kernel
  · decide +kernel

end Codec

end Parley
