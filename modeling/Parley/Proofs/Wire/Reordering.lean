import Parley.Proofs.Wire.Refills
import Parley.Proofs.Wire.Truncation

/-! # Stuffs in another order

  A primitive keeps one list for each kind, so the order in which stuffs of **different kinds**
  stand on the wire is lost in reading, and the order among stuffs of the same kind is kept.

  * A whole stuff leads from between blocks to between blocks (`scan_whole`): what it was and
    whether it could be read leaves no trace but the stuff that is committed.
  * Commits of different kinds commute, so two wires that differ in the order of kinds alone
    are read the same (`Reordered.commitAll`), and sent on they are the same bytes, with the
    stuffs sorted by kind (`order_of_kinds_is_lost`).
-/

namespace Parley

open Ascii

/-! ## Section 1: Sorted by kind -/

/-- The place of a kind on the wire: `sub`, `pre`, `obj`, `att`, `adv`, `com`. -/
def Kind.rank : Kind → Nat
  | .subject => 0
  | .predicate => 1
  | .objective => 2
  | .attributive => 3
  | .adverbial => 4
  | .complement => 5

/-- The same stuffs by the places of their kinds, those of a kind in the order they had. -/
structure StablySorted (stuffs sorted : List Stuff) : Prop where
  perm : sorted.Perm stuffs
  ascending : sorted.Pairwise fun a b => a.kind.rank ≤ b.kind.rank
  stable : ∀ kind : Kind,
    (sorted.filter fun x => x.kind = kind) = stuffs.filter fun x => x.kind = kind

namespace Stuffs

/-- Kind after kind, the places ascend. -/
theorem ascending_toList (s : Stuffs) :
    s.toList.Pairwise fun a b => a.kind.rank ≤ b.kind.rank := by
  have hkinds : Kind.all.Pairwise fun a b => a.rank ≤ b.rank := by decide
  rw [toList, List.pairwise_flatMap]
  constructor
  · intro kind _
    rw [List.pairwise_map]
    exact List.pairwise_of_forall fun _ _ => Nat.le_refl _
  · refine hkinds.imp fun hle x hx y hy => ?_
    obtain ⟨l, -, rfl⟩ := List.mem_map.1 hx
    obtain ⟨l', -, rfl⟩ := List.mem_map.1 hy
    exact hle

/-- **Committed stuffs go out sorted**, behind those of their kind that were there. -/
theorem stablySorted_commitAll (s : Stuffs) (stuffs : List Stuff) :
    StablySorted (s.toList ++ stuffs) (s.commitAll stuffs).toList := by
  have hstable (kind : Kind) : ((s.commitAll stuffs).toList.filter fun x => x.kind = kind) =
      (s.toList ++ stuffs).filter fun x => x.kind = kind := by
    rw [filter_toList, of_commitAll, List.map_append, List.filter_append, filter_toList,
      List.map_map]
    congr 1
    refine (List.map_congr_left fun x hx => ?_).trans (List.map_id _)
    rw [← of_decide_eq_true (List.mem_filter.1 hx).2]
    rfl
  refine ⟨?_, ascending_toList _, hstable⟩
  -- a stuff occurs as often as it does among those of its kind
  rw [List.perm_iff_count]
  intro x
  have hcount (l : List Stuff) : l.count x = (l.filter fun y => y.kind = x.kind).count x :=
    (List.count_filter (by simp)).symm
  rw [hcount, hstable, ← hcount]

end Stuffs

namespace Wire

/-! ## Section 2: Whole stuffs -/

/-- A whole stuff on the wire, whatever its tags name and whatever its value is: the bytes up to
    the signs that end them, and the value that is spelled by them. -/
structure WholeStuff where
  tag : Bytes
  spelled : Bytes
  value : Bytes
  base : Bytes
  tag_ends : equals ∉ tag
  spells : Spells spelled value
  base_ends : closeBrace ∉ base
deriving DecidableEq

namespace WholeStuff

/-- The bytes from the opening brace to the closing one. -/
def bytes (x : WholeStuff) : Bytes :=
  openBrace :: (x.tag ++ equals :: (x.spelled ++ colon :: (x.base ++ [closeBrace])))

/-- What comes off the wire. -/
def raw (x : WholeStuff) : RawStuff := { tag := x.tag.take 3, value := x.value, base := x.base }

/-- The kind that the tag names, if it names one. -/
def kind? (x : WholeStuff) : Option Kind := Kind.ofTag? x.tag

/-- What a lenient reader makes of it, if its tags are known. -/
def said? (x : WholeStuff) : Option Stuff := x.raw.salvage?

/-- The stuff that is made of it has the kind that its tag names. -/
theorem kind?_of_said? {x : WholeStuff} {stuff : Stuff} (h : x.said? = some stuff) :
    x.kind? = some stuff.kind := by
  have hcut : Kind.ofTag? (x.tag.take 3) = Kind.ofTag? x.tag := by
    unfold Kind.ofTag?
    rw [List.take_take, Nat.min_self]
  unfold said? RawStuff.salvage? RawStuff.tags at h
  unfold kind?
  rw [← hcut]
  show Kind.ofTag? x.raw.tag = _
  cases hkind : Kind.ofTag? x.raw.tag with
  | none =>
    rw [hkind] at h
    cases h
  | some kind =>
    rw [hkind] at h
    dsimp only at h
    cases hbase : Base.ofTag? x.raw.base with
    | none =>
      rw [hbase] at h
      cases h
    | some base =>
      rw [hbase] at h
      cases h
      rfl

/-- A stuff that says something is read as that by a lenient reader, too. -/
theorem accept_of_says {x : WholeStuff} (h : ∃ stuff, x.raw.Says stuff) (mode : Mode) :
    x.raw.accept mode = .ok x.said? := by
  obtain ⟨stuff, hsaid⟩ := h
  have hlenient : Except.ok x.said? = Except.ok (some stuff) := hsaid.accept .lenient
  rw [hsaid.accept mode, ← hlenient]

end WholeStuff

/-- A spelling is unescaped up to the colon behind it. -/
theorem unescapeUpTo_spelled {spelled value : Bytes} (h : Spells spelled value) (rest : Bytes) :
    unescapeUpTo false (spelled ++ colon :: rest) = some (value, rest) := by
  induction h with
  | nil => simp [unescapeUpTo, show ¬ colon = backslash by decide]
  | structural hb more ih => simp [unescapeUpTo, hb, ih]
  | both hb more ih => simp [unescapeUpTo, hb, ih]
  | plain hb hc more ih => simp [unescapeUpTo, hb, hc, ih]

/-- **A whole stuff** is read from between blocks to between blocks. -/
theorem scan_whole (mode : Mode) (s : Stuffs) (version : Array UInt8) (after : Bool)
    (x : WholeStuff) (rest : Bytes) :
    scan mode ⟨.between after, version⟩ s (x.bytes ++ rest) =
      match x.raw.accept mode with
      | .error e => .failed e s
      | .ok none => scan mode ⟨.between true, version⟩ s rest
      | .ok (some stuff) => scan mode ⟨.between true, version⟩ (s.commit stuff) rest := by
  have hopen : scan mode ⟨.between after, version⟩ s (x.bytes ++ rest) =
      scan mode ⟨.tag #[], version⟩ s
        (x.tag ++ equals :: (x.spelled ++ colon :: (x.base ++ closeBrace :: rest))) := by
    simp [WholeStuff.bytes, scan, Automaton.feed]
  have hvalue := unescapeUpTo_spelled x.spells (x.base ++ closeBrace :: rest)
  rw [hopen, scan_tag mode s version #[] x.tag_ends,
    scan_value_some mode s version #[] _ hvalue, scan_base mode s version #[] _ _ x.base_ends]
  rfl

variable {mode : Mode} {xs ys : List WholeStuff}

/-- Stuffs of which none ends the reading are committed one after the other. -/
theorem scan_wholes (h : ∀ x ∈ xs, x.raw.accept mode = .ok x.said?) (s : Stuffs)
    (version : Array UInt8) (after : Bool) (rest : Bytes) :
    scan mode ⟨.between after, version⟩ s (xs.flatMap WholeStuff.bytes ++ rest) =
      scan mode ⟨.between (after || !xs.isEmpty), version⟩
        (s.commitAll (xs.filterMap WholeStuff.said?)) rest := by
  induction xs generalizing s after with
  | nil => simp [Stuffs.commitAll]
  | cons x xs ih =>
    have hrest (s : Stuffs) := ih (fun y hy => h y (List.mem_cons_of_mem x hy)) s true
    rw [List.flatMap_cons, List.append_assoc, scan_whole, h x List.mem_cons_self]
    cases hsaid : x.said? with
    | none =>
      rw [List.filterMap_cons_none hsaid]
      simpa using hrest s
    | some stuff =>
      rw [List.filterMap_cons_some hsaid]
      simpa [Stuffs.commitAll] using hrest (s.commit stuff)

/-- A strict reading fails if one of the stuffs says nothing. -/
theorem scan_wholes_of_fault (h : ¬ ∀ x ∈ xs, ∃ stuff, x.raw.Says stuff) (s : Stuffs)
    (version : Array UInt8) (after : Bool) (rest : Bytes) :
    ∃ e s', scan .strict ⟨.between after, version⟩ s (xs.flatMap WholeStuff.bytes ++ rest) =
      .failed e s' := by
  induction xs generalizing s after with
  | nil => exact absurd (List.forall_mem_nil _) h
  | cons x xs ih =>
    rw [List.flatMap_cons, List.append_assoc, scan_whole]
    rcases x.raw.says_or_fault with ⟨stuff, hsaid⟩ | ⟨e, hfault⟩
    · rw [hsaid.accept .strict]
      refine ih (fun hall => h ?_) (s.commit stuff) true
      exact List.forall_mem_cons.2 ⟨⟨stuff, hsaid⟩, hall⟩
    · rw [hfault.accept]
      exact ⟨e, s, rfl⟩

/-! ## Section 3: Another order of kinds -/

/-- The same whole stuffs in another order, in which those of a kind stand as they did. Where a
    stuff stands whose tag names no kind does not matter. -/
structure Reordered (xs ys : List WholeStuff) : Prop where
  perm : ys.Perm xs
  order : ∀ kind, (ys.filter fun x => x.kind? = some kind) = xs.filter fun x => x.kind? = some kind

/-- What is read of a kind comes from the stuffs of this kind. -/
theorem filter_filterMap_said? (xs : List WholeStuff) (kind : Kind) :
    ((xs.filterMap WholeStuff.said?).filter fun s => s.kind = kind) =
      (xs.filter fun x => x.kind? = some kind).filterMap WholeStuff.said? := by
  rw [List.filter_filterMap, List.filterMap_filter]
  refine congrArg (fun f => xs.filterMap f) (funext fun x => ?_)
  cases hsaid : x.said? with
  | none =>
    split <;> rfl
  | some stuff =>
    rw [WholeStuff.kind?_of_said? hsaid]
    simp [Option.filter]

/-- **Commits of different kinds commute.** -/
theorem Reordered.commitAll (h : Reordered xs ys) (s : Stuffs) :
    s.commitAll (ys.filterMap WholeStuff.said?) = s.commitAll (xs.filterMap WholeStuff.said?) := by
  apply Stuffs.ext_of
  intro kind
  rw [Stuffs.of_commitAll, Stuffs.of_commitAll, filter_filterMap_said?, filter_filterMap_said?,
    h.order]

/-- What stands around the stuffs: the version and, if there is one, the header of a dialect. -/
structure Envelope where
  version : Bytes
  header : Option Bytes
  version_ends : closeBracket ∉ version
  header_ends : ∀ h ∈ header, closeBracket ∉ h

namespace Envelope

/-- Stuffs on the wire, between the version block and the dialect block. -/
def wire (env : Envelope) (xs : List WholeStuff) : Bytes :=
  openBracket :: (env.version ++
    closeBracket :: (xs.flatMap WholeStuff.bytes ++ headerBlock env.header))

theorem scan_wire (mode : Mode) (s : Stuffs) (env : Envelope) (xs : List WholeStuff) :
    scan mode .start s (env.wire xs) =
      scan mode ⟨.between false, env.version.toArray⟩ s
        (xs.flatMap WholeStuff.bytes ++ headerBlock env.header) := by
  have hversion : Automaton.run .start 0 (openBracket :: env.version) =
      (⟨.version, env.version.toArray⟩, []) := run_version List.not_mem_nil env.version_ends
  unfold wire
  rw [← List.cons_append, scan_append, scan_of_run hversion]
  rfl

/-- Behind the stuffs the reading ends well, with the header if there is one. -/
theorem scan_headerBlock (mode : Mode) (s : Stuffs) (version : Array UInt8) (after : Bool)
    (env : Envelope) :
    (scan mode ⟨.between after, version⟩ s (headerBlock env.header)).outcome mode =
        .ok env.header ∧
      (scan mode ⟨.between after, version⟩ s (headerBlock env.header)).stuffs = s := by
  cases hheader : env.header with
  | none =>
    refine ⟨?_, rfl⟩
    show ending mode _ = _
    simp [ending, Automaton.atBoundary]
  | some header =>
    have hopen : scan mode ⟨.between after, version⟩ s (headerBlock (some header)) =
        scan mode ⟨.header after #[], version⟩ s (header ++ closeBracket :: []) := by
      simp [headerBlock, scan, Automaton.feed, show ¬ openBracket = openBrace by decide]
    rw [hopen, scan_header mode s version #[] after (env.header_ends header hheader)]
    exact ⟨rfl, rfl⟩

end Envelope

end Wire

/-! ## Section 4: Reading -/

namespace Codec

open Wire (WholeStuff Envelope Reordered)

variable {κ : Type} [Content κ] {env : Envelope} {xs ys : List WholeStuff} {source : Wire.Source}

/-- A read from a steady source comes to what the scan of all its bytes does. -/
theorem read_of_steady (c : Codec κ) (p : Primitive κ) (hsteady : source.Steady) :
    (c.read p source).1 =
      c.conclude { p with stuffs := (Wire.scan c.mode .start p.stuffs source.unread).stuffs }
        ((Wire.scan c.mode .start p.stuffs source.unread).outcome c.mode) := by
  have hfollows := Wire.readOn_of_steady c.mode .start p.stuffs hsteady
  show c.conclude { p with stuffs := _ } _ = _
  unfold Wire.read
  rw [hfollows.outcome, hfollows.stuffs]

/-- Whole stuffs none of which ends the reading are committed, and the header is resolved. -/
theorem read_wire (c : Codec κ) (p : Primitive κ) (hsteady : source.Steady)
    (hunread : source.unread = env.wire xs) (h : ∀ x ∈ xs, x.raw.accept c.mode = .ok x.said?) :
    (c.read p source).1 =
      c.conclude { p with stuffs := p.stuffs.commitAll (xs.filterMap WholeStuff.said?) }
        (.ok env.header) := by
  rw [c.read_of_steady p hsteady, hunread, env.scan_wire, Wire.scan_wholes h]
  obtain ⟨houtcome, hstuffs⟩ := env.scan_headerBlock c.mode
    (p.stuffs.commitAll (xs.filterMap WholeStuff.said?)) env.version.toArray
    (false || !xs.isEmpty)
  rw [houtcome, hstuffs]

/-- A strict reading accepts whole stuffs exactly if each of them says something. -/
theorem read_strict_iff (c : Codec κ) (p : Primitive κ) (hsteady : source.Steady)
    (hunread : source.unread = env.wire xs) :
    ((c.inMode .strict).read p source).1.error = none ↔
      ∀ x ∈ xs, ∃ stuff, x.raw.Says stuff := by
  constructor
  · intro hnone
    by_contra hfault
    obtain ⟨e, s, hscan⟩ := Wire.scan_wholes_of_fault hfault p.stuffs env.version.toArray false
      (Wire.headerBlock env.header)
    have hread := (c.inMode .strict).read_of_steady p hsteady
    rw [hunread, env.scan_wire] at hread
    rw [hread, show (c.inMode .strict).mode = .strict from rfl, hscan] at hnone
    cases hnone
  · intro hsaid
    rw [(c.inMode .strict).read_wire p hsteady hunread fun x hx =>
      WholeStuff.accept_of_says (hsaid x hx) .strict]
    exact error_conclude_ok _ _ _

/-- **The order of different kinds is lost.** Two wires have the same version, the same dialect
    block or none, and the same whole stuffs, in two orders in which those of each kind stand
    alike. Read in lenient mode, from any sources and with any registry, they come to the same:
    the same primitive with the same dialect built from it, the same registry and fragments,
    the same hooks. Sent on, this is the same bytes, the stuffs sorted by kind behind those that
    were there. A strict reading accepts both or rejects both. -/
theorem order_of_kinds_is_lost (c : Codec κ) (p : Primitive κ) (hreordered : Reordered xs ys)
    {source' : Wire.Source} (hsteady : source.Steady) (hsteady' : source'.Steady)
    (hunread : source.unread = env.wire xs) (hunread' : source'.unread = env.wire ys) :
    let lenient := ((c.inMode .lenient).read p source).1
    let lenient' := ((c.inMode .lenient).read p source').1
    let strict := ((c.inMode .strict).read p source).1
    let strict' := ((c.inMode .strict).read p source').1
    lenient.error = none ∧ lenient' = lenient ∧
    (∃ sorted, StablySorted (p.stuffs.toList ++ xs.filterMap WholeStuff.said?) sorted ∧
      Wire.serialize lenient.primitive =
        Wire.versionBlock ++ (sorted.flatMap Wire.stuffBlock ++
          Wire.headerBlock (Wire.header? lenient.primitive)) ∧
      Wire.serialize lenient'.primitive = Wire.serialize lenient.primitive) ∧
    (strict'.error = none ↔ strict.error = none) ∧
    (strict.error = none → strict' = strict) := by
  intro lenient lenient' strict strict'
  have hsame := hreordered.commitAll p.stuffs
  have hmem (x : WholeStuff) : x ∈ ys ↔ x ∈ xs := hreordered.perm.mem_iff
  have hread : lenient = (c.inMode .lenient).conclude
      { p with stuffs := p.stuffs.commitAll (xs.filterMap WholeStuff.said?) } (.ok env.header) :=
    (c.inMode .lenient).read_wire p hsteady hunread fun _ _ => rfl
  have hread' : lenient' = lenient := by
    rw [hread, ← hsame]
    exact (c.inMode .lenient).read_wire p hsteady' hunread' fun _ _ => rfl
  have hstrict : strict.error = none ↔ ∀ x ∈ xs, ∃ stuff, x.raw.Says stuff :=
    c.read_strict_iff p hsteady hunread
  have hstrict' : strict'.error = none ↔ ∀ x ∈ xs, ∃ stuff, x.raw.Says stuff := by
    rw [show strict'.error = none ↔ _ from c.read_strict_iff p hsteady' hunread']
    exact forall_congr' fun x => by rw [hmem]
  refine ⟨?_, hread', ⟨lenient.primitive.stuffs.toList, ?_, Wire.serialize_eq _, by rw [hread']⟩,
    hstrict'.trans hstrict.symm, fun haccepted => ?_⟩
  · rw [hread]
    exact error_conclude_ok _ _ _
  · rw [hread, ((c.inMode .lenient).conclude_keeps _ _).1]
    exact p.stuffs.stablySorted_commitAll _
  · have hsaid := hstrict.1 haccepted
    have haccepts := (c.inMode .strict).read_wire p hsteady hunread fun x hx =>
      WholeStuff.accept_of_says (hsaid x hx) .strict
    have haccepts' := (c.inMode .strict).read_wire p hsteady' hunread' fun x hx =>
      WholeStuff.accept_of_says (hsaid x ((hmem x).1 hx)) .strict
    rw [hsame] at haccepts'
    exact haccepts'.trans haccepts.symm

/-- The header of an action. -/
def actionEnvelope : Envelope where
  version := Text.ascii "1.0"
  header := some (Text.ascii "ActionDialect@t")
  version_ends := by decide
  header_ends := by decide

/-- A value with a colon in it. -/
def colonValue : WholeStuff where
  tag := Text.ascii "obj"
  spelled := Text.ascii "1\\:2"
  value := Text.ascii "1:2"
  base := Text.ascii "string"
  tag_ends := by decide
  spells := .plain (by decide) (by decide) (.structural (by decide)
    (.plain (by decide) (by decide) .nil))
  base_ends := by decide

/-- A name behind a tag that is cut, and with a base that is not known. -/
def lostName : WholeStuff where
  tag := Text.ascii "subject"
  spelled := Text.ascii "a"
  value := Text.ascii "a"
  base := Text.ascii "nope"
  tag_ends := by decide
  spells := .plain (by decide) (by decide) .nil
  base_ends := by decide

/-- A name. -/
def keptName : WholeStuff := { lostName with base := Text.ascii "string", base_ends := by decide }

/-- An action. -/
def going : WholeStuff := { keptName with tag := Text.ascii "pre", tag_ends := by decide }

theorem order_of_kinds_is_lost_jumbled :
    let xs := [lostName, keptName, going, colonValue]
    let ys := [colonValue, lostName, going, keptName]
    let source := Wire.Source.ofBytes (actionEnvelope.wire xs)
    let source' := Wire.Source.ofBytes (actionEnvelope.wire ys)
    let lenient := ((ofActions.inMode .lenient).read {} source).1
    let lenient' := ((ofActions.inMode .lenient).read {} source').1
    let strict' := ((ofActions.inMode .strict).read {} source').1
    Reordered xs ys ∧ source.Steady ∧ source'.Steady ∧
      source.unread = actionEnvelope.wire xs ∧ source'.unread = actionEnvelope.wire ys ∧
      lenient' = lenient ∧ lenient.primitive.dialect.isSome = true ∧
      Wire.serialize lenient'.primitive = Text.ascii
        "[1.0]\x7bsub=a:string\x7d\x7bpre=a:string\x7d\x7bobj=1\\:2:string\x7d[ActionDialect@t]" ∧
      strict'.error ≠ none := by
  intro xs ys source source' lenient lenient' strict'
  have hreordered : Reordered xs ys := by
    refine ⟨by decide, fun kind => ?_⟩
    cases kind <;> decide
  have hsteady (bs : Bytes) (hbs : bs ≠ []) : (Wire.Source.ofBytes bs).Steady := by
    intro refill hmem
    exact .inr ⟨bs, hbs, List.mem_singleton.1 hmem⟩
  have hxs : source.Steady := hsteady _ (List.cons_ne_nil _ _)
  have hys : source'.Steady := hsteady _ (List.cons_ne_nil _ _)
  have hunread : source.unread = actionEnvelope.wire xs := List.append_nil _
  have hunread' : source'.unread = actionEnvelope.wire ys := List.append_nil _
  obtain ⟨-, hsame, -, -, -⟩ :=
    order_of_kinds_is_lost ofActions {} hreordered hxs hys hunread hunread'
  exact ⟨hreordered, hxs, hys, hunread, hunread', hsame, by decide +kernel, by decide +kernel,
    by decide +kernel⟩

end Codec

end Parley
