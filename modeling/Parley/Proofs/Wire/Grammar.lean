import Parley.Wire.Automaton

/-! # The grammar of the wire form

  What bytes say, found by cutting them up and without any machine:

  * everything up to the first opening bracket is skipped, and the version is what
    stands up to the first closing bracket;
  * then, again and again, everything up to the next opening brace or bracket is
    skipped. Behind a bracket stands a header, up to the first closing bracket.
    Behind a brace stand a tag, up to the first equals sign, a value, up to the
    first colon that no backslash has taken, and a base, up to the first closing
    brace;
  * the bytes may end inside any of these, and that **piece** is left open.

  `Reads` is this grammar, and `run_reads_exactly` says that the automaton reads by it,
  byte for byte. One half of the work is that any bytes have a reading, by cutting
  off one block after the other; the other half is that the automaton, fed what
  `Reads` has cut, closes the pieces where `Reads` closes them. So there is no second
  reading.
-/

namespace Parley.Wire

open Ascii

/-! ## Section 1: The grammar -/

/-- How a value is spelled: the bytes in front of the colon that ends it, and the
    value they stand for. -/
inductive Spells : Bytes → Bytes → Prop where
  | nil : Spells [] []
  | structural {b : UInt8} {w v : Bytes} (h : isStructural b = true) (more : Spells w v) :
      Spells (backslash :: b :: w) (b :: v)
  | both {b : UInt8} {w v : Bytes} (h : isStructural b = false) (more : Spells w v) :
      Spells (backslash :: b :: w) (backslash :: b :: v)
  | plain {b : UInt8} {w v : Bytes} (hb : b ≠ backslash) (hc : b ≠ colon) (more : Spells w v) :
      Spells (b :: w) (b :: v)

/-- What the bytes end in the middle of. Between blocks nothing is open. -/
inductive Piece where
  | unbegun
  | version
  | between (afterStuff : Bool)
  | header (afterStuff : Bool)
  | tag
  | value
  | base
deriving DecidableEq, Repr

namespace Piece

/-- The state that a piece gives its name to. An open header has none of its own. -/
def name : Piece → String
  | .unbegun => "unknown"
  | .version => "version"
  | .between afterStuff => if afterStuff then "dialect" else "stuff"
  | .header afterStuff => if afterStuff then "dialect" else "stuff"
  | .tag => "type"
  | .value => "value"
  | .base => "literal"

/-- The version is finished, and no stuff or header is open. -/
def closed : Piece → Bool
  | .between _ => true
  | _ => false

end Piece

/-- The bytes that begin a block. -/
def Begins (b : UInt8) : Prop := b = openBrace ∨ b = openBracket

instance (b : UInt8) : Decidable (Begins b) := inferInstanceAs (Decidable (_ ∨ _))

/-- The bytes behind an opening brace where the stuff is left open. A value may be left
    open behind a backslash. -/
inductive OpenStuff : Bytes → Piece → Prop where
  | tag {tag : Bytes} (htag : equals ∉ tag) : OpenStuff tag .tag
  | value {tag spelled value last : Bytes} (htag : equals ∉ tag) (hvalue : Spells spelled value)
      (hlast : last = [] ∨ last = [backslash]) :
      OpenStuff (tag ++ equals :: (spelled ++ last)) .value
  | base {tag spelled value base : Bytes} (htag : equals ∉ tag) (hvalue : Spells spelled value)
      (hbase : closeBrace ∉ base) : OpenStuff (tag ++ equals :: (spelled ++ colon :: base)) .base

/-- The bytes behind the version, which begin at an offset: their events and the piece
    they leave open. A `body` is a block without the byte that closes it. -/
inductive Blocks : Nat → Bool → Bytes → List (Nat × Event) → Piece → Prop where
  | idle {n : Nat} {after : Bool} {skipped : Bytes} (hskip : ∀ b ∈ skipped, ¬ Begins b) :
      Blocks n after skipped [] (.between after)
  | stuff {n : Nat} {after : Bool} {skipped tag spelled value base body rest : Bytes}
      {events : List (Nat × Event)} {piece : Piece}
      (hskip : ∀ b ∈ skipped, ¬ Begins b) (htag : equals ∉ tag) (hvalue : Spells spelled value)
      (hbase : closeBrace ∉ base)
      (hbody : body = skipped ++ openBrace :: (tag ++ equals :: (spelled ++ colon :: base)))
      (more : Blocks (n + body.length + 1) true rest events piece) :
      Blocks n after (body ++ closeBrace :: rest)
        ((n + body.length, .stuff { tag := tag.take 3, value, base }) :: events) piece
  | header {n : Nat} {after : Bool} {skipped header body rest : Bytes}
      {events : List (Nat × Event)} {piece : Piece}
      (hskip : ∀ b ∈ skipped, ¬ Begins b) (hheader : closeBracket ∉ header)
      (hbody : body = skipped ++ openBracket :: header)
      (more : Blocks (n + body.length + 1) after rest events piece) :
      Blocks n after (body ++ closeBracket :: rest)
        ((n + body.length, .dialect header) :: events) piece
  | openStuff {n : Nat} {after : Bool} {skipped rest : Bytes} {piece : Piece}
      (hskip : ∀ b ∈ skipped, ¬ Begins b) (hopen : OpenStuff rest piece) :
      Blocks n after (skipped ++ openBrace :: rest) [] piece
  | openHeader {n : Nat} {after : Bool} {skipped header : Bytes}
      (hskip : ∀ b ∈ skipped, ¬ Begins b) (hheader : closeBracket ∉ header) :
      Blocks n after (skipped ++ openBracket :: header) [] (.header after)

/-- What bytes say. -/
structure Outline where
  version : Bytes
  events : List (Nat × Event)
  piece : Piece
deriving DecidableEq, Repr

/-- The bytes of a whole stream and what they say. -/
inductive Reads : Bytes → Outline → Prop where
  | unbegun {w : Bytes} (h : openBracket ∉ w) : Reads w ⟨[], [], .unbegun⟩
  | version {skipped version : Bytes} (hskip : openBracket ∉ skipped)
      (hversion : closeBracket ∉ version) :
      Reads (skipped ++ openBracket :: version) ⟨version, [], .version⟩
  | blocks {skipped version body rest : Bytes} {events : List (Nat × Event)} {piece : Piece}
      (hskip : openBracket ∉ skipped) (hversion : closeBracket ∉ version)
      (hbody : body = skipped ++ openBracket :: version)
      (more : Blocks (body.length + 1) false rest events piece) :
      Reads (body ++ closeBracket :: rest) ⟨version, events, piece⟩

/-! ## Section 2: Any bytes have a reading -/

/-- A value is spelled up to the end, up to a last backslash or up to a colon. -/
theorem exists_spells : ∀ bs : Bytes,
    ∃ spelled value rest, bs = spelled ++ rest ∧ Spells spelled value ∧
      (rest = [] ∨ rest = [backslash] ∨ ∃ behind, rest = colon :: behind)
  | [] => ⟨[], [], [], rfl, .nil, .inl rfl⟩
  | b :: bs => by
    by_cases hb : b = backslash
    · subst hb
      match bs with
      | [] => exact ⟨[], [], [backslash], rfl, .nil, .inr (.inl rfl)⟩
      | c :: bs =>
        -- the backslash takes the byte behind it along
        obtain ⟨spelled, value, rest, rfl, hvalue, hrest⟩ := exists_spells bs
        cases hc : isStructural c with
        | true => exact ⟨_, _, rest, rfl, .structural hc hvalue, hrest⟩
        | false => exact ⟨_, _, rest, rfl, .both hc hvalue, hrest⟩
    · by_cases hc : b = colon
      · exact ⟨[], [], b :: bs, rfl, .nil, .inr (.inr ⟨bs, by rw [hc]⟩)⟩
      · obtain ⟨spelled, value, rest, rfl, hvalue, hrest⟩ := exists_spells bs
        exact ⟨_, _, rest, rfl, .plain hb hc hvalue, hrest⟩

/-- The bytes behind an opening brace are a whole stuff and what follows it, or they
    leave the stuff open. -/
theorem stuff_or_open (bs : Bytes) :
    (∃ tag spelled value base rest, equals ∉ tag ∧ Spells spelled value ∧ closeBrace ∉ base ∧
      bs = tag ++ equals :: (spelled ++ colon :: base) ++ closeBrace :: rest) ∨
      ∃ piece, OpenStuff bs piece := by
  by_cases hequals : equals ∈ bs
  · obtain ⟨tag, afterTag, rfl, htag⟩ := List.eq_append_cons_of_mem hequals
    obtain ⟨spelled, value, last, rfl, hvalue, hend | hend | ⟨afterValue, rfl⟩⟩ :=
      exists_spells afterTag
    · exact .inr ⟨.value, .value htag hvalue (.inl hend)⟩
    · exact .inr ⟨.value, .value htag hvalue (.inr hend)⟩
    · by_cases hbrace : closeBrace ∈ afterValue
      · obtain ⟨base, rest, rfl, hbase⟩ := List.eq_append_cons_of_mem hbrace
        exact .inl ⟨tag, spelled, value, base, rest, htag, hvalue, hbase, by simp⟩
      · exact .inr ⟨.base, .base htag hvalue hbrace⟩
  · exact .inr ⟨.tag, .tag hequals⟩

/-- Bytes begin no block, or they are cut where the first one begins. -/
theorem begins_or_idle (bs : Bytes) :
    (∀ b ∈ bs, ¬ Begins b) ∨
      ∃ skipped b rest, bs = skipped ++ b :: rest ∧ (∀ x ∈ skipped, ¬ Begins x) ∧ Begins b := by
  -- the first byte that begins a block, if there is one
  cases h : bs.find? (fun b => decide (Begins b)) with
  | none => exact .inl fun b hb => by simpa using List.find?_eq_none.1 h b hb
  | some b =>
    obtain ⟨hb, skipped, rest, hbs, hskip⟩ := List.find?_eq_some_iff_append.1 h
    exact .inr ⟨skipped, b, rest, hbs, fun x hx => by simpa using hskip x hx, by simpa using hb⟩

/-- **The bytes behind the version have a reading.** -/
theorem exists_blocks (n : Nat) (after : Bool) (bs : Bytes) :
    ∃ events piece, Blocks n after bs events piece := by
  -- each whole block leaves fewer bytes
  induction hlen : bs.length using Nat.strongRecOn generalizing n after bs with
  | ind len ih =>
    rcases begins_or_idle bs with hidle | ⟨skipped, b, behind, rfl, hskip, hb⟩
    · exact ⟨[], .between after, .idle hidle⟩
    · rcases hb with rfl | rfl
      · rcases stuff_or_open behind with
          ⟨tag, spelled, value, base, rest, htag, hvalue, hbase, rfl⟩ | ⟨piece, hopen⟩
        · have hshort : rest.length < len := by
            simp only [← hlen, List.length_append, List.length_cons]
            omega
          obtain ⟨events, piece, hrest⟩ := ih rest.length hshort _ true rest rfl
          have hwhole : Blocks n after _ _ piece := .stuff hskip htag hvalue hbase rfl hrest
          rw [List.append_assoc, List.cons_append] at hwhole
          exact ⟨_, piece, hwhole⟩
        · exact ⟨[], piece, .openStuff hskip hopen⟩
      · by_cases hclose : closeBracket ∈ behind
        · obtain ⟨header, rest, rfl, hheader⟩ := List.eq_append_cons_of_mem hclose
          have hshort : rest.length < len := by
            simp only [← hlen, List.length_append, List.length_cons]
            omega
          obtain ⟨events, piece, hrest⟩ := ih rest.length hshort _ after rest rfl
          have hwhole : Blocks n after _ _ piece := .header hskip hheader rfl hrest
          rw [List.append_assoc, List.cons_append] at hwhole
          exact ⟨_, piece, hwhole⟩
        · exact ⟨[], .header after, .openHeader hskip hclose⟩

/-- **Any bytes have a reading.** -/
theorem exists_reads (w : Bytes) : ∃ o, Reads w o := by
  by_cases hopen : openBracket ∈ w
  · obtain ⟨skipped, behind, rfl, hskip⟩ := List.eq_append_cons_of_mem hopen
    by_cases hclose : closeBracket ∈ behind
    · obtain ⟨version, rest, rfl, hversion⟩ := List.eq_append_cons_of_mem hclose
      obtain ⟨events, piece, hrest⟩ :=
        exists_blocks ((skipped ++ openBracket :: version).length + 1) false rest
      have hwhole := Reads.blocks hskip hversion rfl hrest
      rw [List.append_assoc, List.cons_append] at hwhole
      exact ⟨_, hwhole⟩
    · exact ⟨_, .version hskip hclose⟩
  · exact ⟨_, .unbegun hopen⟩

/-! ## Section 3: What the automaton makes of a piece -/

namespace Automaton

variable {a a' a'' : Automaton} {n : Nat} {bs rest : Bytes} {b : UInt8} {event : Option Event}

theorem run_cons (a : Automaton) (n : Nat) (b : UInt8) (bs : Bytes) :
    a.run n (b :: bs) =
      (((a.feed b).1.run (n + 1) bs).1,
        ((a.feed b).2.map fun e => (n, e)).toList ++ ((a.feed b).1.run (n + 1) bs).2) := rfl

/-- Bytes in which nothing closes, and the byte behind them. -/
theorem run_step (h : a.run n bs = (a', [])) (hb : a'.feed b = (a'', event)) :
    a.run n (bs ++ b :: rest) =
      ((a''.run (n + bs.length + 1) rest).1,
        (event.map fun e => (n + bs.length, e)).toList ++
          (a''.run (n + bs.length + 1) rest).2) := by
  -- no event comes from the bytes in front, so only the offset moves on
  induction bs generalizing a n with
  | nil =>
    obtain ⟨rfl, -⟩ := Prod.mk.inj h
    rw [List.nil_append, run_cons, hb]
    rfl
  | cons c bs ih =>
    rw [run_cons] at h
    obtain ⟨hlast, hevents⟩ := Prod.mk.inj h
    obtain ⟨hc, hbs⟩ := List.append_eq_nil_iff.1 hevents
    have hrest : (a.feed c).1.run (n + 1) bs = (a', []) := Prod.ext hlast hbs
    rw [List.cons_append, run_cons, ih hrest, hc, List.nil_append, List.length_cons,
      show n + 1 + bs.length = n + (bs.length + 1) by omega]

/-- Bytes that leave the automaton as it is. -/
theorem run_stay (h : ∀ b ∈ bs, a.feed b = (a, none)) : a.run n bs = (a, []) := by
  induction bs generalizing n with
  | nil => rfl
  | cons b bs ih =>
    rw [run_cons, h b List.mem_cons_self, ih fun c hc => h c (List.mem_cons_of_mem b hc)]
    rfl

/-- Bytes that are collected until a certain byte comes. -/
theorem run_collect (state : Array UInt8 → Automaton) {stop : UInt8}
    (hfeed : ∀ read b, b ≠ stop → (state read).feed b = (state (read.push b), none))
    (h : stop ∉ bs) (read : Array UInt8) :
    (state read).run n bs = (state (read ++ bs.toArray), []) := by
  induction bs generalizing n read with
  | nil => simp [run]
  | cons b bs ih =>
    have hb : b ≠ stop := fun e => h (e ▸ List.mem_cons_self)
    have hbs : stop ∉ bs := fun hmem => h (List.mem_cons_of_mem b hmem)
    rw [run_cons, hfeed read b hb, ih hbs]
    simp

/-- The spelling of a value. -/
theorem run_spelled {spelled value : Bytes} (h : Spells spelled value) (tag : Bytes)
    (version read : Array UInt8) :
    run ⟨.value tag read false, version⟩ n spelled =
      (⟨.value tag (read ++ value.toArray) false, version⟩, []) := by
  -- between the pieces of a spelling no backslash is of open meaning
  induction h generalizing n read with
  | nil => simp [run]
  | structural h more ih => simp [run, feed, unescape, h, ih]
  | both h more ih => simp [run, feed, unescape, h, ih]
  | plain hb hc more ih => simp [run, feed, hb, hc, ih]

variable {after : Bool} {version : Array UInt8} {skipped tag spelled value base header : Bytes}

theorem run_skipped (hskip : ∀ b ∈ skipped, ¬ Begins b) :
    run ⟨.between after, version⟩ n skipped = (⟨.between after, version⟩, []) := by
  apply run_stay
  intro b hb
  have hbegins := hskip b hb
  rw [Begins, not_or] at hbegins
  simp [feed, hbegins]

/-- Up to the closing bracket of a header. -/
theorem run_header (hskip : ∀ b ∈ skipped, ¬ Begins b) (hheader : closeBracket ∉ header) :
    run ⟨.between after, version⟩ n (skipped ++ openBracket :: header) =
      (⟨.header after header.toArray, version⟩, []) := by
  rw [run_step (run_skipped hskip) (show feed ⟨.between after, version⟩ openBracket =
      (⟨.header after #[], version⟩, none) from rfl),
    run_collect (fun read => ⟨.header after read, version⟩) (fun read b hb => by simp [feed, hb])
      hheader]
  simp

/-- Up to the equals sign behind a tag. -/
theorem run_tag (hskip : ∀ b ∈ skipped, ¬ Begins b) (htag : equals ∉ tag) :
    run ⟨.between after, version⟩ n (skipped ++ openBrace :: tag) =
      (⟨.tag tag.toArray, version⟩, []) := by
  rw [run_step (run_skipped hskip) (show feed ⟨.between after, version⟩ openBrace =
      (⟨.tag #[], version⟩, none) from rfl),
    run_collect (fun read => ⟨.tag read, version⟩) (fun read b hb => by simp [feed, hb]) htag]
  simp

/-- Up to the colon behind a value. -/
theorem run_value (hskip : ∀ b ∈ skipped, ¬ Begins b) (htag : equals ∉ tag)
    (hvalue : Spells spelled value) :
    run ⟨.between after, version⟩ n (skipped ++ openBrace :: (tag ++ equals :: spelled)) =
      (⟨.value (tag.take 3) value.toArray false, version⟩, []) := by
  have hequals : feed ⟨.tag tag.toArray, version⟩ equals =
      (⟨.value (tag.take 3) #[] false, version⟩, none) := rfl
  rw [show skipped ++ openBrace :: (tag ++ equals :: spelled) =
      (skipped ++ openBrace :: tag) ++ equals :: spelled by simp,
    run_step (run_tag hskip htag) hequals, run_spelled hvalue]
  simp

/-- Up to the closing brace behind a base. -/
theorem run_base (hskip : ∀ b ∈ skipped, ¬ Begins b) (htag : equals ∉ tag)
    (hvalue : Spells spelled value) (hbase : closeBrace ∉ base) :
    run ⟨.between after, version⟩ n
        (skipped ++ openBrace :: (tag ++ equals :: (spelled ++ colon :: base))) =
      (⟨.base (tag.take 3) value base.toArray, version⟩, []) := by
  have hcolon : feed ⟨.value (tag.take 3) value.toArray false, version⟩ colon =
      (⟨.base (tag.take 3) value #[], version⟩, none) := rfl
  rw [show skipped ++ openBrace :: (tag ++ equals :: (spelled ++ colon :: base)) =
      (skipped ++ openBrace :: (tag ++ equals :: spelled)) ++ colon :: base by simp,
    run_step (run_value hskip htag hvalue) hcolon,
    run_collect (fun read => ⟨.base (tag.take 3) value read, version⟩)
      (fun read b hb => by simp [feed, hb]) hbase]
  simp

end Automaton

/-! ## Section 4: The automaton reads by the grammar -/

/-- An automaton and the events it gave are what an outline says. -/
structure Agrees (result : Automaton × List (Nat × Event)) (o : Outline) : Prop where
  version : result.1.version.toList = o.version
  events : result.2 = o.events
  state : result.1.phase.name = o.piece.name
  boundary : result.1.atBoundary = o.piece.closed

/-- An event in front of what was read before. -/
theorem Agrees.cons {result : Automaton × List (Nat × Event)} {version : Bytes}
    {events : List (Nat × Event)} {piece : Piece} (h : Agrees result ⟨version, events, piece⟩)
    (event : Nat × Event) :
    Agrees (result.1, event :: result.2) ⟨version, event :: events, piece⟩ :=
  ⟨h.version, congrArg (event :: ·) h.events, h.state, h.boundary⟩

/-- State and boundary tell which piece was left open. -/
theorem Piece.eq_of_name_closed {p q : Piece} (hname : p.name = q.name)
    (hclosed : p.closed = q.closed) : p = q := by
  cases p <;> cases q <;> simp_all [Piece.name, Piece.closed] <;> split at hname <;> simp_all

/-- An outline is the only one that an automaton agrees with. -/
theorem Agrees.unique {result : Automaton × List (Nat × Event)} {o o' : Outline}
    (h : Agrees result o) (h' : Agrees result o') : o = o' := by
  obtain ⟨version, events, piece⟩ := o
  obtain ⟨version', events', piece'⟩ := o'
  obtain rfl : version = version' := h.version.symm.trans h'.version
  obtain rfl : events = events' := h.events.symm.trans h'.events
  obtain rfl : piece = piece' := Piece.eq_of_name_closed (h.state.symm.trans h'.state)
    (h.boundary.symm.trans h'.boundary)
  rfl

/-- A stuff that is left open. -/
theorem run_openStuff {n : Nat} {after : Bool} {version : Array UInt8} {skipped rest : Bytes}
    {piece : Piece} (hskip : ∀ b ∈ skipped, ¬ Begins b) (h : OpenStuff rest piece) :
    Agrees (Automaton.run ⟨.between after, version⟩ n (skipped ++ openBrace :: rest))
      ⟨version.toList, [], piece⟩ := by
  cases h with
  | tag htag =>
    rw [Automaton.run_tag hskip htag]
    exact ⟨rfl, rfl, rfl, rfl⟩
  | @value tag spelled value last htag hvalue hlast =>
    rcases hlast with rfl | rfl
    · rw [List.append_nil, Automaton.run_value hskip htag hvalue]
      exact ⟨rfl, rfl, rfl, rfl⟩
    · -- the meaning of the last backslash stays open
      rw [show skipped ++ openBrace :: (tag ++ equals :: (spelled ++ [backslash])) =
          (skipped ++ openBrace :: (tag ++ equals :: spelled)) ++ backslash :: [] by simp,
        Automaton.run_step (Automaton.run_value hskip htag hvalue) rfl]
      exact ⟨rfl, rfl, rfl, rfl⟩
  | base htag hvalue hbase =>
    rw [Automaton.run_base hskip htag hvalue hbase]
    exact ⟨rfl, rfl, rfl, rfl⟩

/-- **Behind the version** the automaton reads by the grammar. -/
theorem run_blocks {n : Nat} {after : Bool} {bs : Bytes} {events : List (Nat × Event)}
    {piece : Piece} (h : Blocks n after bs events piece) (version : Array UInt8) :
    Agrees (Automaton.run ⟨.between after, version⟩ n bs) ⟨version.toList, events, piece⟩ := by
  -- every block that is closed leads back between blocks, at the offset behind it
  induction h with
  | @idle n after skipped hskip =>
    rw [Automaton.run_skipped hskip]
    exact ⟨rfl, rfl, by cases after <;> rfl, rfl⟩
  | @stuff n after skipped tag spelled value base body rest events piece hskip htag hvalue hbase
      hbody more ih =>
    have hclose : Automaton.feed ⟨.base (tag.take 3) value base.toArray, version⟩ closeBrace =
        (⟨.between true, version⟩, some (.stuff { tag := tag.take 3, value, base })) := rfl
    rw [Automaton.run_step (hbody ▸ Automaton.run_base hskip htag hvalue hbase) hclose]
    exact ih.cons _
  | @header n after skipped header body rest events piece hskip hheader hbody more ih =>
    have hclose : Automaton.feed ⟨.header after header.toArray, version⟩ closeBracket =
        (⟨.between after, version⟩, some (.dialect header)) := rfl
    rw [Automaton.run_step (hbody ▸ Automaton.run_header hskip hheader) hclose]
    exact ih.cons _
  | openStuff hskip hopen => exact run_openStuff hskip hopen
  | @openHeader n after skipped header hskip hheader =>
    rw [Automaton.run_header hskip hheader]
    exact ⟨rfl, rfl, by cases after <;> rfl, rfl⟩

/-- Up to the first opening bracket. -/
theorem run_unbegun {n : Nat} {skipped : Bytes} (h : openBracket ∉ skipped) :
    Automaton.run .start n skipped = (.start, []) := by
  apply Automaton.run_stay
  intro b hb
  have hne : b ≠ openBracket := fun e => h (e ▸ hb)
  simp [Automaton.start, Automaton.feed, hne]

/-- Up to the closing bracket behind the version. -/
theorem run_version {n : Nat} {skipped version : Bytes} (hskip : openBracket ∉ skipped)
    (hversion : closeBracket ∉ version) :
    Automaton.run .start n (skipped ++ openBracket :: version) =
      (⟨.version, version.toArray⟩, []) := by
  rw [Automaton.run_step (run_unbegun hskip) (show Automaton.feed .start openBracket =
      (⟨.version, #[]⟩, none) from rfl),
    Automaton.run_collect (fun read => ⟨.version, read⟩)
      (fun read b hb => by simp [Automaton.feed, hb]) hversion]
  simp

/-- A reading is what the automaton makes of the bytes. -/
theorem Reads.agrees {w : Bytes} {o : Outline} (h : Reads w o) :
    Agrees (Automaton.start.run 0 w) o := by
  cases h with
  | unbegun h =>
    rw [run_unbegun h]
    exact ⟨rfl, rfl, rfl, rfl⟩
  | version hskip hversion =>
    rw [run_version hskip hversion]
    exact ⟨rfl, rfl, rfl, rfl⟩
  | @blocks skipped version body rest events piece hskip hversion hbody more =>
    have hclose : Automaton.feed ⟨.version, version.toArray⟩ closeBracket =
        (⟨.between false, version.toArray⟩, none) := rfl
    rw [Automaton.run_step (hbody ▸ run_version hskip hversion) hclose, Nat.zero_add]
    exact run_blocks more version.toArray

/-- **The automaton reads exactly its grammar.** Any bytes have one reading and no other.
    An automaton that is fed these bytes gives the version and the events of that
    reading, each event with the offset of the byte that closed it; it ends in the
    state named after the piece that is left open, and stands at a boundary exactly
    when none is. -/
theorem run_reads_exactly (w : Bytes) :
    ∃ o, (∀ o', Reads w o' ↔ o' = o) ∧
      (Automaton.start.run 0 w).1.version.toList = o.version ∧
      (Automaton.start.run 0 w).2 = o.events ∧
      (Automaton.start.run 0 w).1.phase.name = o.piece.name ∧
      ((Automaton.start.run 0 w).1.atBoundary = true ↔ o.piece.closed = true) := by
  obtain ⟨o, ho⟩ := exists_reads w
  have hagrees := ho.agrees
  refine ⟨o, ?_, hagrees.version, hagrees.events, hagrees.state, by rw [hagrees.boundary]⟩
  intro o'
  constructor
  · -- two readings of the same bytes agree with the same automaton
    intro ho'
    exact ho'.agrees.unique hagrees
  · rintro rfl
    exact ho

/-- A long tag is cut, a backslash is taken away from a colon and kept before another
    byte, and a bracket inside a tag begins nothing. -/
example :
    Automaton.start.run 0 (Text.ascii "?[1.0]\x7bsubject=a\\:\\n:int\x7d]\x7b[") =
      (⟨.tag #[openBracket], (Text.ascii "1.0").toArray⟩,
        [(24,
          .stuff
            { tag := Text.ascii "sub", value := Text.ascii "a:\\n"
              base := Text.ascii "int" })]) := by
  decide

end Parley.Wire
