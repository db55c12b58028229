import Mathlib.Data.List.Nodup
import Parley.Proofs.Json.Quoted
import Parley.Proofs.Wire.Actions

/-! # Actions that have lost stuffs

  The names and the values of an action travel as two lists, and are paired by position when
  the action is built again. A stuff that is lost on the way is lost from one of the lists
  alone: what stood behind it moves up by one place, and **the other list does not**.

  So the parameters that come out are the names that are left, paired with the values that are
  left (`paired`). They are parameters of the action that was sent if the losses are *aligned*:
  behind a parameter that has lost its name alone no name is left, and behind one that has lost
  its value alone no value is left (`paired_of_aligned`). Where names and values are distinct
  there is no other way (`aligned_of_paired`).

  On the wire a stuff is lost to a lenient reader when the tag of its base is damaged.
-/

namespace Parley

open Ascii

/-! ## Section 1: Names and values that are left -/

/-- A parameter of an action, and which of its two stuffs are left. -/
structure Remnant where
  /-- The name it had. -/
  name : String
  /-- The value it had. -/
  value : Literal
  /-- Whether the name is left. -/
  named : Bool
  /-- Whether the value is left. -/
  valued : Bool
deriving DecidableEq, Repr

namespace Remnant

/-- The parameters as they were. -/
def origin (rs : List Remnant) : List (String × Literal) := rs.map fun r => (r.name, r.value)

/-- The names that are left. -/
def names (rs : List Remnant) : List String := (rs.filter named).map name

/-- The values that are left. -/
def values (rs : List Remnant) : List Literal := (rs.filter valued).map value

/-- What is left, paired by position. -/
def paired (rs : List Remnant) : List (String × Literal) := (names rs).zip (values rs)

/-- The parameters of which both are left. -/
def whole (rs : List Remnant) : List (String × Literal) :=
  origin (rs.filter fun r => r.named && r.valued)

/-- Behind a parameter that has lost its name alone no name is left, and behind one that has
    lost its value alone no value is left. -/
def Aligned (rs : List Remnant) : Prop :=
  rs.Pairwise fun before behind =>
    (before.named = false → before.valued = true → behind.named = false) ∧
      (before.named = true → before.valued = false → behind.valued = false)

instance (rs : List Remnant) : Decidable (Aligned rs) := inferInstanceAs (Decidable (rs.Pairwise _))

theorem whole_sublist (rs : List Remnant) : (whole rs).Sublist (origin rs) :=
  List.filter_sublist.map _

theorem names_cons (r : Remnant) (rs : List Remnant) :
    names (r :: rs) = if r.named = true then r.name :: names rs else names rs := by
  unfold names
  rw [List.filter_cons]
  split <;> rfl

theorem values_cons (r : Remnant) (rs : List Remnant) :
    values (r :: rs) = if r.valued = true then r.value :: values rs else values rs := by
  unfold values
  rw [List.filter_cons]
  split <;> rfl

theorem names_eq_nil_iff {rs : List Remnant} :
    names rs = [] ↔ ∀ r ∈ rs, r.named = false := by
  simp [names, List.filter_eq_nil_iff]

theorem values_eq_nil_iff {rs : List Remnant} :
    values rs = [] ↔ ∀ r ∈ rs, r.valued = false := by
  simp [values, List.filter_eq_nil_iff]

/-- Where no name is left, or no value, no parameter is whole. -/
theorem whole_eq_nil {rs : List Remnant}
    (h : (∀ r ∈ rs, r.named = false) ∨ ∀ r ∈ rs, r.valued = false) : whole rs = [] := by
  have hnone : (rs.filter fun r => r.named && r.valued) = [] := by
    apply List.filter_eq_nil_iff.2
    intro r hr
    rcases h with h | h
    · simp [h r hr]
    · simp [h r hr]
  unfold whole
  rw [hnone]
  rfl

/-- **Aligned losses leave whole parameters**, in their order. -/
theorem paired_of_aligned {rs : List Remnant} (h : Aligned rs) : paired rs = whole rs := by
  induction rs with
  | nil => rfl
  | cons r rs ih =>
    obtain ⟨hbehind, hrest⟩ := List.pairwise_cons.1 h
    have hrs : (names rs).zip (values rs) = whole rs := ih hrest
    unfold paired
    rw [names_cons, values_cons]
    by_cases hnamed : r.named = true
    · by_cases hvalued : r.valued = true
      · rw [if_pos hnamed, if_pos hvalued, List.zip_cons_cons, hrs]
        simp [whole, origin, hnamed, hvalued]
      · -- no value is left behind a value that is lost
        rw [Bool.not_eq_true] at hvalued
        have hlost : ∀ r' ∈ rs, r'.valued = false := fun r' hr' => (hbehind r' hr').2 hnamed hvalued
        rw [values_eq_nil_iff.2 hlost, whole_eq_nil (.inr (List.forall_mem_cons.2 ⟨hvalued, hlost⟩))]
        simp [hvalued]
    · rw [Bool.not_eq_true] at hnamed
      by_cases hvalued : r.valued = true
      · have hlost : ∀ r' ∈ rs, r'.named = false := fun r' hr' => (hbehind r' hr').1 hnamed hvalued
        rw [names_eq_nil_iff.2 hlost, whole_eq_nil (.inl (List.forall_mem_cons.2 ⟨hnamed, hlost⟩))]
        simp [hnamed]
      · rw [Bool.not_eq_true] at hvalued
        rw [hnamed, hvalued]
        simpa [whole, hnamed] using hrs

theorem name_mem_of_mem_paired {rs : List Remnant} {pair : String × Literal}
    (h : pair ∈ paired rs) : pair.1 ∈ rs.map name :=
  (List.filter_sublist.map name).subset (List.of_mem_zip h).1

/-- Where no name is left, or no value, the losses are aligned. -/
theorem aligned_of_lost {rs : List Remnant}
    (h : (∀ r ∈ rs, r.named = false) ∨ ∀ r ∈ rs, r.valued = false) : Aligned rs := by
  apply List.pairwise_of_forall_mem_list
  intro before hbefore behind hbehind
  rcases h with h | h
  · refine ⟨fun _ _ => h behind hbehind, fun hnamed => ?_⟩
    rw [h before hbefore] at hnamed
    cases hnamed
  · refine ⟨fun _ hvalued => ?_, fun _ _ => h behind hbehind⟩
    rw [h before hbefore] at hvalued
    cases hvalued

section

variable {r : Remnant} {rs : List Remnant} (hname : r.name ∉ rs.map name)
  (hvalue : r.value ∉ rs.map value)

include hname hvalue

/-- A name with the value of another parameter is no parameter. -/
theorem name_not_mem_origin {v : Literal} (hv : v ∈ rs.map value) :
    (r.name, v) ∉ origin (r :: rs) := by
  intro hmem
  rcases List.mem_cons.1 hmem with heq | hmem
  · exact hvalue ((Prod.mk.inj heq).2 ▸ hv)
  · obtain ⟨r', hr', heq⟩ := List.mem_map.1 hmem
    exact hname ((Prod.mk.inj heq).1 ▸ List.mem_map_of_mem hr')

theorem value_not_mem_origin {n : String} (hn : n ∈ rs.map name) :
    (n, r.value) ∉ origin (r :: rs) := by
  intro hmem
  rcases List.mem_cons.1 hmem with heq | hmem
  · exact hname ((Prod.mk.inj heq).1 ▸ hn)
  · obtain ⟨r', hr', heq⟩ := List.mem_map.1 hmem
    exact hvalue ((Prod.mk.inj heq).2 ▸ List.mem_map_of_mem hr')

end

/-- **Whole parameters are left by aligned losses alone**, if no name occurs twice and no
    value does. -/
theorem aligned_of_paired {rs : List Remnant} (hnames : (rs.map name).Nodup)
    (hvalues : (rs.map value).Nodup) (h : ∀ pair ∈ paired rs, pair ∈ origin rs) : Aligned rs := by
  induction rs with
  | nil => exact List.Pairwise.nil
  | cons r rs ih =>
    obtain ⟨hname, hnames⟩ := List.nodup_cons.1 hnames
    obtain ⟨hvalue, hvalues⟩ := List.nodup_cons.1 hvalues
    -- a pair that is made behind the first parameter is not the first parameter
    have hbehind : (∀ pair ∈ paired rs, pair ∈ paired (r :: rs)) → Aligned rs := by
      intro hsub
      apply ih hnames hvalues
      intro pair hpair
      rcases List.mem_cons.1 (h pair (hsub pair hpair)) with rfl | hmem
      · exact absurd (name_mem_of_mem_paired hpair) hname
      · exact hmem
    apply List.pairwise_cons.2
    unfold paired at hbehind h
    rw [names_cons, values_cons] at hbehind h
    by_cases hnamed : r.named = true
    · by_cases hvalued : r.valued = true
      · rw [if_pos hnamed, if_pos hvalued] at hbehind
        refine ⟨fun r' _ => ⟨fun hlost => ?_, fun _ hlost => ?_⟩,
          hbehind fun pair hpair => List.mem_cons_of_mem _ hpair⟩
        · rw [hnamed] at hlost
          cases hlost
        · rw [hvalued] at hlost
          cases hlost
      · -- the name would be paired with the next value that is left
        rw [if_pos hnamed, if_neg hvalued] at h
        have hlost : values rs = [] := by
          cases hleft : values rs with
          | nil => rfl
          | cons v vs =>
            rw [hleft] at h
            have hv : v ∈ rs.map value :=
              (List.filter_sublist.map value).subset (hleft ▸ List.mem_cons_self)
            exact absurd (h _ List.mem_cons_self) (name_not_mem_origin hname hvalue hv)
        have hall := values_eq_nil_iff.1 hlost
        refine ⟨fun r' hr' => ⟨fun hnot => ?_, fun _ _ => hall r' hr'⟩, aligned_of_lost (.inr hall)⟩
        rw [hnamed] at hnot
        cases hnot
    · by_cases hvalued : r.valued = true
      · rw [if_neg hnamed, if_pos hvalued] at h
        have hlost : names rs = [] := by
          cases hleft : names rs with
          | nil => rfl
          | cons n ns =>
            rw [hleft] at h
            have hn : n ∈ rs.map name :=
              (List.filter_sublist.map name).subset (hleft ▸ List.mem_cons_self)
            exact absurd (h _ List.mem_cons_self) (value_not_mem_origin hname hvalue hn)
        have hall := names_eq_nil_iff.1 hlost
        exact ⟨fun r' hr' => ⟨fun _ _ => hall r' hr', fun h => absurd h hnamed⟩,
          aligned_of_lost (.inl hall)⟩
      · rw [if_neg hnamed, if_neg hvalued] at hbehind
        exact ⟨fun r' _ => ⟨fun _ h => absurd h hvalued, fun h => absurd h hnamed⟩,
          hbehind fun pair hpair => hpair⟩

end Remnant

/-! ## Section 2: Stuffs by role -/

namespace Stuffs

/-- The stuffs that have given lists in the roles. -/
def ofRoles (roles : Kind → List Literal) : Stuffs where
  subjects := (roles .subject).toArray
  predicates := (roles .predicate).toArray
  objectives := (roles .objective).toArray
  attributives := (roles .attributive).toArray
  adverbials := (roles .adverbial).toArray
  complements := (roles .complement).toArray

@[simp] theorem of_ofRoles (roles : Kind → List Literal) (kind : Kind) :
    (ofRoles roles).of kind = roles kind := by
  cases kind <;> rfl

/-- Stuffs that are given role by role are the stuffs of these roles. -/
theorem ofList_roles (roles : Kind → List Literal) :
    ofList (Kind.all.flatMap fun kind => (roles kind).map (Stuff.ofLiteral kind))
      = ofRoles roles := by
  have hlist : (ofRoles roles).toList
      = Kind.all.flatMap fun kind => (roles kind).map (Stuff.ofLiteral kind) := by
    unfold toList
    simp only [of_ofRoles]
  rw [← hlist, ofList_toList]

end Stuffs

/-! ## Section 3: Damage on the wire -/

/-- Damage to the stuffs of a primitive: at some places of the roles, other bytes have taken
    the place of the tag of the base. -/
abbrev Damage := Kind → Nat → Option Bytes

/-- The bytes name no base. -/
def Damage.Unknown (damage : Damage) : Prop :=
  ∀ kind i tag, damage kind i = some tag → Base.ofTag? tag = none ∧ closeBrace ∉ tag

/-- The stuffs in the order in which they are sent, with the damage to each. -/
def Damage.marked (damage : Damage) (s : Stuffs) : List (Stuff × Option Bytes) :=
  Kind.all.flatMap fun kind =>
    (s.of kind).zipIdx.map fun place => (Stuff.ofLiteral kind place.1, damage kind place.2)

/-- The literals of a role that are not damaged. -/
def Damage.left (damage : Damage) (s : Stuffs) (kind : Kind) : List Literal :=
  ((s.of kind).zipIdx.filter fun place => (damage kind place.2).isNone).map Prod.fst

/-- The stuffs that are not damaged are those that are left in the roles. -/
theorem Damage.filter_marked (damage : Damage) (s : Stuffs) :
    ((damage.marked s).filter fun m => m.2.isNone).map Prod.fst
      = Kind.all.flatMap fun kind => (damage.left s kind).map (Stuff.ofLiteral kind) := by
  unfold marked left
  simp only [List.filter_flatMap, List.map_flatMap, List.filter_map, List.map_map,
    Function.comp_def]

/-- A mark names a stuff that was sent, and damage that was done. -/
theorem Damage.of_mem_marked {damage : Damage} {s : Stuffs} {m : Stuff × Option Bytes}
    (h : m ∈ damage.marked s) : m.1 ∈ s.toList ∧ ∃ kind i, m.2 = damage kind i := by
  obtain ⟨kind, hkind, hplace⟩ := List.mem_flatMap.1 h
  obtain ⟨place, hmem, rfl⟩ := List.mem_map.1 hplace
  exact ⟨List.mem_flatMap.2 ⟨kind, hkind, List.mem_map_of_mem (List.fst_mem_of_mem_zipIdx hmem)⟩,
    kind, place.2, rfl⟩

namespace Wire

/-- A stuff on the wire, and what has become of the tag of its base. -/
def damagedBlock (m : Stuff × Option Bytes) : Bytes :=
  openBrace :: Text.bytes m.1.kind.tag ++ equals :: escape (Text.bytes m.1.text) ++
    colon :: m.2.getD (Text.bytes m.1.base.tag) ++ [closeBrace]

/-- A primitive on the wire whose stuffs have been damaged. -/
def damaged {κ : Type} (damage : Damage) (p : Primitive κ) : Bytes :=
  versionBlock ++ (damage.marked p.stuffs).flatMap damagedBlock ++
    match p.dialect with
    | none => []
    | some d => dialectBlock d.name d.tracker

/-- Without damage it is the primitive as it is sent. -/
theorem damaged_none {κ : Type} (p : Primitive κ) :
    damaged (fun _ _ => none) p = serialize p := by
  have hmarked : Damage.marked (fun _ _ => none) p.stuffs
      = p.stuffs.toList.map fun stuff => (stuff, none) := by
    have hrole (kind : Kind) : (p.stuffs.of kind).zipIdx.map
          (fun place => (Stuff.ofLiteral kind place.1, (none : Option Bytes)))
        = ((p.stuffs.of kind).map (Stuff.ofLiteral kind)).map fun stuff => (stuff, none) := by
      conv_rhs => rw [← List.zipIdx_map_fst 0 (p.stuffs.of kind)]
      rw [List.map_map, List.map_map]
      rfl
    unfold Damage.marked Stuffs.toList
    simp only [hrole, List.map_flatMap]
  unfold damaged serialize
  rw [hmarked, List.flatMap_map]
  rfl

/-- A damaged stuff is left out by a lenient reader. -/
theorem scan_damagedBlock (s : Stuffs) (version : Array UInt8) (afterStuff : Bool)
    {tag : Bytes} (hunknown : Base.ofTag? tag = none) (hclosed : closeBrace ∉ tag) {stuff : Stuff}
    (h : BackslashSafe (Text.bytes stuff.text)) (rest : Bytes) :
    scan .lenient ⟨.between afterStuff, version⟩ s (damagedBlock (stuff, some tag) ++ rest) =
      scan .lenient ⟨.between true, version⟩ s rest := by
  have hopen : scan .lenient ⟨.between afterStuff, version⟩ s
        (damagedBlock (stuff, some tag) ++ rest) =
      scan .lenient ⟨.tag #[], version⟩ s (Text.bytes stuff.kind.tag ++ equals ::
        (escape (Text.bytes stuff.text) ++ colon :: (tag ++ closeBrace :: rest))) := by
    simp [damagedBlock, scan, Automaton.feed]
  have hread := (unescapeUpTo_escape false (Text.bytes stuff.text)
    (tag ++ closeBrace :: rest) _).2 ⟨(backslashSafe_iff _).1 h, rfl⟩
  rw [hopen, scan_tag .lenient s version #[] stuff.kind.equals_not_mem_tag,
    scan_value_some .lenient s version #[] _ hread,
    scan_base .lenient s version #[] _ _ hclosed]
  simp [RawStuff.accept, RawStuff.salvage?, RawStuff.tags, hunknown]

/-- **Stuffs that are not damaged are committed**, and the others are passed over. -/
theorem scan_damagedBlocks (s : Stuffs) (version : Array UInt8) (afterStuff : Bool)
    {marked : List (Stuff × Option Bytes)}
    (hsafe : ∀ m ∈ marked, BackslashSafe (Text.bytes m.1.text))
    (hunknown : ∀ m ∈ marked, ∀ tag, m.2 = some tag →
      Base.ofTag? tag = none ∧ closeBrace ∉ tag) (rest : Bytes) :
    scan .lenient ⟨.between afterStuff, version⟩ s (marked.flatMap damagedBlock ++ rest) =
      scan .lenient ⟨.between (afterStuff || !marked.isEmpty), version⟩
        (s.commitAll ((marked.filter fun m => m.2.isNone).map Prod.fst)) rest := by
  induction marked generalizing s afterStuff with
  | nil => simp [Stuffs.commitAll]
  | cons m marked ih =>
    obtain ⟨stuff, damage⟩ := m
    have hstuff := hsafe (stuff, damage) List.mem_cons_self
    have hrest (s : Stuffs) := ih s true (fun m hmem => hsafe m (List.mem_cons_of_mem _ hmem))
      fun m hmem => hunknown m (List.mem_cons_of_mem _ hmem)
    rw [List.flatMap_cons, List.append_assoc]
    cases damage with
    | none =>
      have hblock : damagedBlock (stuff, none) = stuffBlock stuff := rfl
      rw [hblock, scan_stuffBlock .lenient s version afterStuff hstuff, hrest]
      simp [Stuffs.commitAll]
    | some tag =>
      obtain ⟨htag, hclosed⟩ := hunknown (stuff, some tag) List.mem_cons_self tag rfl
      rw [scan_damagedBlock s version afterStuff htag hclosed hstuff, hrest]
      simp

end Wire

/-! ## Section 4: The header, whatever the tracker -/

namespace Text

/-- An ASCII byte of a text is one of its characters. -/
theorem exists_char_of_mem_utf8 {b : UInt8} (hb : b < 0x80) {cs : List Char}
    (h : b ∈ utf8 cs) : ∃ c ∈ cs, c.toNat = b.toNat := by
  obtain ⟨c, hc, hbyte⟩ := List.mem_flatMap.1 h
  refine ⟨c, hc, ?_⟩
  by_cases hascii : c.toNat < 0x80
  · rw [utf8EncodeChar_of_lt hascii] at hbyte
    rw [List.eq_of_mem_singleton hbyte, UInt8.toNat_ofNat_of_lt' (Nat.lt_trans hascii (by decide))]
  · have hbeyond := utf8EncodeChar_beyond (Nat.le_of_not_lt hascii) b hbyte
    exact absurd hb (UInt8.not_lt.2 hbeyond)

end Text

namespace Wire

/-- A dialect block ends a reading with the name that was sent. The tracker is cut at its first
    closing bracket. -/
theorem scan_dialectBlock_named (mode : Mode) (s : Stuffs) (version : Array UInt8)
    (afterStuff : Bool) {name : String} (hname : closeBracket ∉ Text.bytes name)
    (tracker : String) : ∃ tracker' rest,
      scan mode ⟨.between afterStuff, version⟩ s (dialectBlock name tracker) =
        .finished (Text.bytes name ++ atSign :: Text.bytes tracker') s rest := by
  obtain ⟨before, behind, hsplit, hopen⟩ : ∃ before behind,
      Text.bytes tracker ++ [closeBracket] = Text.utf8 before ++ closeBracket :: behind ∧
        ']' ∉ before := by
    rw [Text.bytes_eq_utf8]
    by_cases hmem : ']' ∈ tracker.toList
    · obtain ⟨before, behind, hlist, hbefore⟩ := List.eq_append_cons_of_mem hmem
      refine ⟨before, Text.utf8 behind ++ [closeBracket], ?_, hbefore⟩
      rw [hlist, Text.utf8_append, List.append_assoc]
      rfl
    · exact ⟨tracker.toList, [], rfl, hmem⟩
  have hclosed : closeBracket ∉ Text.utf8 before := by
    intro hmem
    obtain ⟨c, hc, hbyte⟩ := Text.exists_char_of_mem_utf8 (by decide) hmem
    have hbracket : c = ']' := Char.toNat_inj.1 hbyte
    exact hopen (hbracket ▸ hc)
  have hblock := scan_dialectBlock_header mode s version afterStuff name tracker []
  have hbytes : (Text.bytes name ++ atSign :: Text.bytes tracker) ++ [closeBracket]
      = (Text.bytes name ++ atSign :: Text.bytes (String.ofList before)) ++
        closeBracket :: behind := by
    rw [Text.bytes_eq_utf8 (String.ofList before), String.toList_ofList, List.append_assoc,
      List.append_assoc, List.cons_append, List.cons_append, hsplit]
  have hheader : closeBracket ∉
      Text.bytes name ++ atSign :: Text.bytes (String.ofList before) := by
    rw [Text.bytes_eq_utf8 (String.ofList before), String.toList_ofList]
    simp [hname, hclosed, show ¬ closeBracket = atSign by decide]
  refine ⟨String.ofList before, behind, ?_⟩
  rw [List.append_nil] at hblock
  rw [hblock, hbytes, scan_header mode s version #[] afterStuff hheader]
  rfl

end Wire

/-! ## Section 5: An action that is damaged -/

namespace Action

/-- What damage on the wire leaves of the parameters. -/
def remnants (a : Action) (damage : Damage) : List Remnant :=
  a.params.zipIdx.map fun place =>
    { name := place.1.1, value := place.1.2
      named := (damage .subject place.2).isNone, valued := (damage .objective place.2).isNone }

theorem origin_remnants (a : Action) (damage : Damage) :
    Remnant.origin (a.remnants damage) = a.params := by
  unfold Remnant.origin remnants
  rw [List.map_map]
  exact List.zipIdx_map_fst 0 a.params

theorem names_remnants (a : Action) (damage : Damage) :
    (damage.left a.stuffs .subject).map Literal.text = Remnant.names (a.remnants damage) := by
  have hsubjects : a.stuffs.of .subject = a.params.map fun param => .ofString param.1 := rfl
  unfold Damage.left Remnant.names remnants
  rw [hsubjects, List.zipIdx_map, List.filter_map, List.filter_map, List.map_map, List.map_map,
    List.map_map]
  rfl

theorem values_remnants (a : Action) (damage : Damage) :
    damage.left a.stuffs .objective = Remnant.values (a.remnants damage) := by
  have hobjectives : a.stuffs.of .objective = a.params.map fun param => param.2 := rfl
  unfold Damage.left Remnant.values remnants
  rw [hobjectives, List.zipIdx_map, List.filter_map, List.filter_map, List.map_map, List.map_map]
  rfl

/-- **What is left of the stuffs is paired by position.** -/
theorem params_build_left (a fresh : Action) (damage : Damage) :
    (fresh.build (Stuffs.ofRoles (damage.left a.stuffs))).params
      = Remnant.paired (a.remnants damage) := by
  unfold build Remnant.paired
  simp only [Stuffs.of_ofRoles, names_remnants, values_remnants]

end Action

/-- What a lenient reader makes of an action that was damaged: the stuffs that are left, and a
    dialect of the name of actions. -/
theorem Codec.deserialize_damaged {κ : Type} [Content κ] {c : Codec κ} (hmode : c.mode = .lenient)
    {damage : Damage} (hunknown : damage.Unknown) {a : Action}
    (hsafe : ∀ stuff ∈ a.stuffs.toList, Wire.BackslashSafe (Text.bytes stuff.text))
    (peer : Option String) : ∃ tracker,
      c.deserialize (Wire.damaged damage (a.primitive : Primitive κ)) peer =
        c.bind { stuffs := Stuffs.ofRoles (damage.left a.stuffs), owner := peer }
          Action.dialectName tracker := by
  have hmarked : ∀ m ∈ damage.marked a.stuffs, Wire.BackslashSafe (Text.bytes m.1.text) :=
    fun m hmem => hsafe m.1 (Damage.of_mem_marked hmem).1
  have htags : ∀ m ∈ damage.marked a.stuffs, ∀ tag, m.2 = some tag →
      Base.ofTag? tag = none ∧ closeBrace ∉ tag := by
    intro m hmem tag htag
    obtain ⟨-, kind, i, hdamage⟩ := Damage.of_mem_marked hmem
    exact hunknown kind i tag (hdamage ▸ htag)
  have hleft : Stuffs.commitAll {} (((damage.marked a.stuffs).filter fun m => m.2.isNone).map
      Prod.fst) = Stuffs.ofRoles (damage.left a.stuffs) := by
    rw [Damage.filter_marked]
    exact Stuffs.ofList_roles _
  obtain ⟨tracker, rest, hheader⟩ := Wire.scan_dialectBlock_named .lenient
    (Stuffs.ofRoles (damage.left a.stuffs)) (Text.bytes Wire.protocolVersion).toArray
    (false || !(damage.marked a.stuffs).isEmpty)
    (by decide : closeBracket ∉ Text.bytes Action.dialectName) a.info.tracker
  have hwire : Wire.damaged damage (a.primitive : Primitive κ) = Wire.versionBlock ++
      ((damage.marked a.stuffs).flatMap Wire.damagedBlock ++
        Wire.dialectBlock Action.dialectName a.info.tracker) := List.append_assoc ..
  have hne : Wire.damaged damage (a.primitive : Primitive κ) ≠ [] := by
    rw [hwire]
    exact List.cons_ne_nil _ _
  refine ⟨tracker, ?_⟩
  rw [deserialize_eq c hne, hwire, hmode, Wire.scan_versionBlock,
    Wire.scan_damagedBlocks {} _ false hmarked htags, hleft, hheader]
  dsimp only
  unfold conclude
  dsimp only
  rw [Wire.headerParts_eq (by decide : '@' ∉ Action.dialectName.toList)]

end Parley
