import Parley.Proofs.Wire.Scan

/-! # The wire form, there and back

  A primitive without a dialect, sent and read back strictly, comes back with the
  stuffs it had **exactly when all its values are safe**
  (`deserialize_serialize_iff`).

  One direction puts the blocks of `Scan` together. For the other, look at the
  first stuff whose value is not safe: what is committed in its place has the same
  role and stands at the same place among the stuffs of that role, but has another
  text (`scan_stuffBlocks_of_not_safe`), since stuffs that have been committed are
  never taken back (`prefix_of_scan`).
-/

namespace Parley

open Ascii

namespace Stuffs

/-! ## The lists of many commits -/

/-- Commits add to each role the literals meant for it, in their order. -/
theorem of_commitAll (s : Stuffs) (stuffs : List Stuff) (kind : Kind) :
    (s.commitAll stuffs).of kind =
      s.of kind ++ (stuffs.filter fun x => x.kind = kind).map Stuff.toLiteral := by
  induction stuffs generalizing s with
  | nil => simp [commitAll]
  | cons stuff stuffs ih =>
    rw [show s.commitAll (stuff :: stuffs) = (s.commit stuff).commitAll stuffs from rfl, ih,
      of_commit]
    by_cases h : stuff.kind = kind <;> simp [h]

/-- The stuffs of a kind are the literals of this role. -/
theorem filter_toList (s : Stuffs) (kind : Kind) :
    (s.toList.filter fun x => x.kind = kind) = (s.of kind).map (Stuff.ofLiteral kind) := by
  have hrole : ∀ k : Kind, ((s.of k).map (Stuff.ofLiteral k)).filter (fun x => x.kind = kind) =
      if k = kind then (s.of k).map (Stuff.ofLiteral k) else [] := by
    intro k
    by_cases h : k = kind
    · rw [if_pos h]
      exact List.filter_eq_self.2 (by simp [Stuff.ofLiteral, h])
    · rw [if_neg h]
      exact List.filter_eq_nil_iff.2 (by simp [Stuff.ofLiteral, h])
  rw [toList, List.filter_flatMap]
  simp only [hrole]
  cases kind <;> simp [Kind.all]

/-- Committing all stuffs of a primitive in the order in which they are sent makes
    the same stuffs again. -/
theorem ofList_toList (s : Stuffs) : ofList s.toList = s := by
  apply ext_of
  intro kind
  have hempty : empty.of kind = [] := by cases kind <;> rfl
  rw [ofList, of_commitAll, hempty, List.nil_append, filter_toList, List.map_map]
  exact List.map_id _

/-- The stuffs are the literals of each role. -/
theorem mem_toList {s : Stuffs} {stuff : Stuff} :
    stuff ∈ s.toList ↔ stuff.toLiteral ∈ s.of stuff.kind := by
  have hall : stuff.kind ∈ Kind.all := by cases stuff.kind <;> decide
  constructor
  · intro h
    obtain ⟨kind, -, hkind⟩ := List.mem_flatMap.1 h
    obtain ⟨l, hl, rfl⟩ := List.mem_map.1 hkind
    exact hl
  · intro h
    exact List.mem_flatMap.2 ⟨stuff.kind, hall, List.mem_map.2 ⟨stuff.toLiteral, h, rfl⟩⟩

/-- The stuffs of a list are its members. -/
theorem mem_of_mem_ofList {stuffs : List Stuff} {stuff : Stuff}
    (h : stuff ∈ (ofList stuffs).toList) : stuff ∈ stuffs := by
  rw [mem_toList, ofList, of_commitAll] at h
  have hempty : empty.of stuff.kind = [] := by cases stuff.kind <;> rfl
  rw [hempty, List.nil_append] at h
  obtain ⟨member, hmember, hsame⟩ := List.mem_map.1 h
  obtain ⟨hmem, hkind⟩ := List.mem_filter.1 hmember
  have heq : member = stuff := by
    cases member
    cases stuff
    cases hsame
    cases of_decide_eq_true hkind
    rfl
  exact heq ▸ hmem

end Stuffs

namespace Wire

/-! ## What a reading leaves -/

/-- The stuffs where a stretch of bytes has led. -/
def Progress.stuffs : Progress → Stuffs
  | .running _ s => s
  | .finished _ s _ => s
  | .failed _ s => s

/-- Whether nothing is left open where a stretch of bytes has led, and nothing has
    gone wrong. -/
def Progress.settled : Progress → Bool
  | .running a _ => a.atBoundary
  | .finished .. => true
  | .failed .. => false

/-- **Stuffs are never taken back**: whatever is read on, those of a role stay the
    first ones of that role. -/
theorem prefix_of_scan (mode : Mode) (a : Automaton) (s : Stuffs) (bs : Bytes) (kind : Kind) :
    s.of kind <+: (scan mode a s bs).stuffs.of kind := by
  induction bs generalizing a s with
  | nil => exact List.prefix_rfl
  | cons b bs ih =>
    unfold scan
    split
    · exact ih _ s
    · exact List.prefix_rfl
    · split
      · exact List.prefix_rfl
      · exact ih _ s
      · next stuff _ =>
        refine List.IsPrefix.trans ?_ (ih _ (s.commit stuff))
        rw [Stuffs.of_commit]
        split
        · exact List.prefix_append ..
        · exact List.prefix_rfl

/-- A stuff that is judged to be in order says what came off the wire. -/
theorem judge_eq_ok {raw : RawStuff} {stuff : Stuff} (h : raw.judge = .ok stuff) :
    Kind.ofTag? raw.tag = some stuff.kind ∧ Text.bytes stuff.text = raw.value := by
  unfold RawStuff.judge at h
  split at h
  · cases h
  · next kind base htags =>
    split at h
    · cases h
    · next text htext =>
      cases h
      refine ⟨?_, Text.bytes_of_ofBytes? htext⟩
      unfold RawStuff.tags at htags
      split at htags
      · cases htags
      · next hkind =>
        split at htags
        · cases htags
        · cases htags
          exact hkind

/-- **A stuff whose value is not safe**, read strictly: if the reading settles after
    all, it committed another text in the role of the stuff. -/
theorem scan_stuffBlock_of_not_safe (s : Stuffs) (version : Array UInt8) (afterStuff : Bool)
    {stuff : Stuff} (h : ¬ BackslashSafe (Text.bytes stuff.text)) (rest : Bytes)
    (hsettled : (scan .strict ⟨.between afterStuff, version⟩ s
      (stuffBlock stuff ++ rest)).settled = true) :
    ∃ other : Stuff, other.kind = stuff.kind ∧ other.text ≠ stuff.text ∧
      ∃ rest', scan .strict ⟨.between afterStuff, version⟩ s (stuffBlock stuff ++ rest) =
        scan .strict ⟨.between true, version⟩ (s.commit other) rest' := by
  rw [scan_stuffBlock_value] at hsettled ⊢
  cases hread : unescapeUpTo false (escape (Text.bytes stuff.text) ++
      colon :: (Text.bytes stuff.base.tag ++ closeBrace :: rest)) with
  | none =>
    -- the value swallows everything
    obtain ⟨read, pending, hscan⟩ := scan_value_none .strict s version #[]
      ((Text.bytes stuff.kind.tag).take 3) hread
    rw [hscan] at hsettled
    cases hsettled
  | some r =>
    obtain ⟨w, tail⟩ := r
    have hw : w ≠ Text.bytes stuff.text := by
      rintro rfl
      exact h ((backslashSafe_iff _).2 ((unescapeUpTo_escape false _ _ _).1 hread).1)
    rw [scan_value_some .strict s version #[] _ hread] at hsettled ⊢
    by_cases hclose : closeBrace ∈ tail
    · obtain ⟨base, rest', rfl, hbase⟩ := List.eq_append_cons_of_mem hclose
      rw [scan_base .strict s version #[] _ _ hbase] at hsettled ⊢
      simp only [RawStuff.accept] at hsettled ⊢
      cases hjudge : RawStuff.judge
          { tag := (Text.bytes stuff.kind.tag).take 3, value := (#[] : Array UInt8).toList ++ w
            base := (#[] : Array UInt8).toList ++ base } with
      | error e =>
        rw [hjudge] at hsettled
        cases hsettled
      | ok other =>
        obtain ⟨hkind, htext⟩ := judge_eq_ok hjudge
        refine ⟨other, ?_, ?_, rest', rfl⟩
        · rw [Kind.ofTag?_tag] at hkind
          exact (Option.some.inj hkind).symm
        · intro e
          rw [e] at htext
          exact hw htext.symm
    · -- the tag of the base swallows everything
      obtain ⟨read, hscan⟩ := scan_base_open .strict s version #[]
        ((Text.bytes stuff.kind.tag).take 3) ((#[] : Array UInt8).toList ++ w) hclose
      rw [hscan] at hsettled
      cases hsettled

/-- **Blocks whose values are not all safe**, read strictly: if the reading settles after
    all, some literal has another text now, at its place in its role. -/
theorem scan_stuffBlocks_of_not_safe (s : Stuffs) (version : Array UInt8) (afterStuff : Bool)
    {stuffs : List Stuff} (h : ¬ ∀ stuff ∈ stuffs, BackslashSafe (Text.bytes stuff.text))
    (rest : Bytes)
    (hsettled : (scan .strict ⟨.between afterStuff, version⟩ s
      (stuffs.flatMap stuffBlock ++ rest)).settled = true) :
    ∃ (kind : Kind) (i : Nat) (sent got : Literal),
      ((s.commitAll stuffs).of kind)[i]? = some sent ∧
      ((scan .strict ⟨.between afterStuff, version⟩ s
        (stuffs.flatMap stuffBlock ++ rest)).stuffs.of kind)[i]? = some got ∧
      got.text ≠ sent.text := by
  -- up to the first stuff that is not safe, what was sent is committed
  induction stuffs generalizing s afterStuff with
  | nil => exact absurd (List.forall_mem_nil _) h
  | cons stuff stuffs ih =>
    rw [List.flatMap_cons, List.append_assoc] at hsettled ⊢
    by_cases hsafe : BackslashSafe (Text.bytes stuff.text)
    · rw [scan_stuffBlock .strict s version afterStuff hsafe] at hsettled ⊢
      refine ih (s.commit stuff) true ?_ hsettled
      intro hall
      exact h (List.forall_mem_cons.2 ⟨hsafe, hall⟩)
    · -- here it is: what is committed in its place is never taken back
      obtain ⟨other, hkind, hother, rest', hscan⟩ :=
        scan_stuffBlock_of_not_safe s version afterStuff hsafe _ hsettled
      have hkept := prefix_of_scan .strict ⟨.between true, version⟩ (s.commit other) rest'
        stuff.kind
      rw [Stuffs.of_commit, if_pos hkind] at hkept
      refine ⟨stuff.kind, (s.of stuff.kind).length, stuff.toLiteral, other.toLiteral, ?_, ?_,
        hother⟩
      · rw [Stuffs.of_commitAll]
        simp
      · rw [hscan, List.prefix_iff_getElem?.1 hkept _ (by simp)]
        simp

/-- **Blocks read strictly**: the reading settles on the stuffs that were sent
    exactly when all their values are safe. -/
theorem scan_stuffBlocks_iff (s : Stuffs) (version : Array UInt8) (afterStuff : Bool)
    (stuffs : List Stuff) :
    ((scan .strict ⟨.between afterStuff, version⟩ s (stuffs.flatMap stuffBlock)).settled = true ∧
      (scan .strict ⟨.between afterStuff, version⟩ s (stuffs.flatMap stuffBlock)).stuffs =
        s.commitAll stuffs) ↔
      ∀ stuff ∈ stuffs, BackslashSafe (Text.bytes stuff.text) := by
  rw [← List.append_nil (stuffs.flatMap stuffBlock)]
  constructor
  · rintro ⟨hsettled, hstuffs⟩
    by_contra hnot
    obtain ⟨kind, i, sent, got, hsent, hgot, htext⟩ :=
      scan_stuffBlocks_of_not_safe s version afterStuff hnot [] hsettled
    rw [hstuffs, hsent] at hgot
    exact htext (congrArg Literal.text (Option.some.inj hgot).symm)
  · intro h
    rw [scan_stuffBlocks .strict s version afterStuff h []]
    exact ⟨rfl, rfl⟩

/-- The wire form begins with the version. -/
theorem serialize_ne_nil {κ : Type} (p : Primitive κ) : serialize p ≠ [] := by
  unfold serialize
  split <;> exact List.cons_ne_nil _ _

end Wire

/-! ## Reading from bytes -/

/-- The stuffs that a reading hands back, if it succeeds. -/
def Received.stuffs? {κ : Type} (r : Received κ) : Option Stuffs :=
  if r.error = none then some r.primitive.stuffs else none

namespace Codec

variable {κ : Type} [Content κ]

/-- Reading bytes that are there at once is one scan of them. -/
theorem deserialize_eq (c : Codec κ) {bs : Bytes} (h : bs ≠ []) (owner : Option String) :
    c.deserialize bs owner =
      match Wire.scan c.mode .start {} bs with
      | .running a s => c.conclude { stuffs := s, owner } (Wire.ending c.mode a)
      | .finished header s _ => c.conclude { stuffs := s, owner } (.ok (some header))
      | .failed e s => c.conclude { stuffs := s, owner } (.error e) := by
  cases bs with
  | nil => exact absurd rfl h
  | cons b bs =>
    simp only [deserialize, read, Wire.Source.ofBytes, Wire.read, Wire.readOn]
    cases Wire.scan c.mode .start {} (b :: bs) <;> rfl

/-- The codec that stops at the first fault and resolves no dialects. -/
def strict : Codec κ := { mode := .strict }

/-- The strict codec accepts bytes that a scan settles on, and hands back the stuffs
    of the scan. -/
theorem stuffs?_strict_eq_some_iff {bs : Bytes} (h : bs ≠ []) (owner : Option String)
    (stuffs : Stuffs) :
    ((strict : Codec κ).deserialize bs owner).stuffs? = some stuffs ↔
      (Wire.scan .strict .start {} bs).settled = true ∧
        (Wire.scan .strict .start {} bs).stuffs = stuffs := by
  rw [deserialize_eq _ h, show (strict : Codec κ).mode = .strict from rfl]
  cases Wire.scan .strict .start {} bs with
  | running a s =>
    cases hb : a.atBoundary <;>
      simp [Wire.ending, hb, conclude, Received.stuffs?, Wire.Progress.settled,
        Wire.Progress.stuffs]
  | finished header s rest =>
    simp [conclude, bind, strict, Received.stuffs?, Wire.Progress.settled, Wire.Progress.stuffs]
  | failed e s => simp [conclude, Received.stuffs?, Wire.Progress.settled]

/-- **The wire round trip, characterised.** A primitive without a dialect that is
    sent and read back strictly, without a registry, comes back the same exactly
    when the text of every stuff is backslash-safe. -/
theorem deserialize_serialize_iff (p : Primitive κ) (h : p.dialect = none)
    (owner : Option String) :
    ((strict : Codec κ).deserialize (Wire.serialize p) owner).stuffs? = some p.stuffs ↔
      ∀ stuff ∈ p.stuffs.toList, Wire.BackslashSafe (Text.bytes stuff.text) := by
  have hwire : Wire.serialize p = Wire.versionBlock ++ p.stuffs.toList.flatMap Wire.stuffBlock := by
    simp [Wire.serialize, h]
  have hne : Wire.serialize p ≠ [] := by simp [hwire, Wire.versionBlock]
  have hall : Stuffs.commitAll {} p.stuffs.toList = p.stuffs := Stuffs.ofList_toList p.stuffs
  have hblocks := Wire.scan_stuffBlocks_iff {} (Text.bytes Wire.protocolVersion).toArray false
    p.stuffs.toList
  rw [hall] at hblocks
  rw [stuffs?_strict_eq_some_iff hne, hwire, Wire.scan_versionBlock]
  exact hblocks

/-- A primitive with a run of two backslashes before a brace, which is safe, and of
    three before the end, which is not. -/
def mixedRuns : Primitive Empty :=
  { stuffs := .ofList [.subject (.ofString "\\\\\x7b"), .objective (.ofString "c\\\\\\")] }

theorem deserialize_serialize_iff_mixedRuns :
    mixedRuns.dialect = none ∧
      ((strict : Codec Empty).deserialize (Wire.serialize mixedRuns) none).stuffs? ≠
        some mixedRuns.stuffs := by
  have hunsafe : ¬ ∀ stuff ∈ mixedRuns.stuffs.toList,
      Wire.BackslashSafe (Text.bytes stuff.text) := by
    decide +kernel
  exact ⟨rfl, fun h => hunsafe ((deserialize_serialize_iff mixedRuns rfl none).1 h)⟩

end Codec

end Parley
