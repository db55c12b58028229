import Parley.Proofs.Wire.Binding
import Parley.Proofs.Wire.RoundTrip

/-! # Bytes in refills

  A source may hand out its bytes in any refills and be interrupted at any time. A
  **steady** source never fails and hands out no empty refill. A read from one goes as a scan
  of all the bytes that it still has (`readOn_of_steady`), since each refill goes on where
  the one before it has led. So a read cannot tell where the bytes were cut, be it
  inside a header, behind a backslash or between the bytes of a character
  (`read_cut_anywhere`).
-/

namespace Parley

namespace Wire

/-! ## Section 1: Steady sources -/

/-- A stretch of bytes that has led to its end goes on with what follows. -/
theorem scan_append (mode : Mode) (a : Automaton) (s : Stuffs) (bs more : Bytes) :
    scan mode a s (bs ++ more) =
      match scan mode a s bs with
      | .running a s => scan mode a s more
      | .finished header s rest => .finished header s (rest ++ more)
      | .failed e s => .failed e s := by
  induction bs generalizing a s with
  | nil => rfl
  | cons b bs ih =>
    rw [List.cons_append, scan, scan]
    split
    · exact ih _ _
    · rfl
    · split
      · rfl
      · exact ih _ _
      · exact ih _ _

/-- A source that hands out some bytes each time, unless it is interrupted. -/
def Source.Steady (source : Source) : Prop :=
  ∀ refill ∈ source, refill = .interrupted ∨ ∃ bs, bs ≠ [] ∧ refill = .bytes bs

theorem Source.Steady.tail {refill : Refill} {source : Source}
    (h : Source.Steady (refill :: source)) : source.Steady :=
  fun other hmem => h other (List.mem_cons_of_mem refill hmem)

/-- Bytes that are put back are the first ones again. -/
theorem Source.Steady.putBack {source : Source} (h : source.Steady) (rest : Bytes) :
    (putBack rest source).Steady ∧ (putBack rest source).unread = rest ++ source.unread := by
  unfold Wire.putBack
  split
  · next hrest => exact ⟨h, by rw [hrest]; rfl⟩
  · next hrest =>
    refine ⟨?_, rfl⟩
    intro refill hmem
    rcases List.mem_cons.1 hmem with rfl | hmem
    · exact .inr ⟨rest, hrest, rfl⟩
    · exact h refill hmem

/-! ## Section 2: Reading as scanning -/

/-- What a read comes to whose bytes have led there and then end. -/
def Progress.outcome (mode : Mode) : Progress → Except ProtocolError (Option Bytes)
  | .running a _ => ending mode a
  | .finished header _ _ => .ok (some header)
  | .failed e _ => .error e

/-- The bytes behind the dialect block, if it came to one. -/
def Progress.unread : Progress → Bytes
  | .finished _ _ rest => rest
  | _ => []

/-- What is left behind a dialect block is the end of the bytes. -/
theorem suffix_of_scan (mode : Mode) (a : Automaton) (s : Stuffs) (bs : Bytes) :
    (scan mode a s bs).unread <:+ bs := by
  induction bs generalizing a s with
  | nil => exact List.suffix_rfl
  | cons b bs ih =>
    have hlater : ∀ a s, (scan mode a s bs).unread <:+ b :: bs :=
      fun a s => (ih a s).trans (List.suffix_cons b bs)
    unfold scan
    split
    · exact hlater _ s
    · exact List.suffix_cons b bs
    · split
      · exact List.nil_suffix
      · exact hlater _ s
      · exact hlater _ _

/-- A read went as a scan did. What it leaves on the source is told where it ended well. -/
structure Reading.Follows (mode : Mode) (reading : Reading) (progress : Progress) : Prop where
  outcome : reading.outcome = progress.outcome mode
  stuffs : reading.stuffs = progress.stuffs
  source : ∀ header?, reading.outcome = .ok header? →
    reading.source.Steady ∧ reading.source.unread = progress.unread

/-- **A read from a steady source** goes as a scan of all its bytes, wherever they are cut. -/
theorem readOn_of_steady (mode : Mode) (a : Automaton) (s : Stuffs) {source : Source}
    (h : source.Steady) : (readOn mode a s source).Follows mode (scan mode a s source.unread) := by
  -- on the refills, each of which goes on where the one before it has led
  induction source generalizing a s with
  | nil => exact ⟨rfl, rfl, fun _ _ => ⟨h, rfl⟩⟩
  | cons refill source ih =>
    rcases h refill List.mem_cons_self with rfl | ⟨bs, hbs, rfl⟩
    · exact ih a s h.tail
    · obtain ⟨b, bs, rfl⟩ := List.exists_cons_of_ne_nil hbs
      rw [Source.unread, scan_append, readOn]
      cases scan mode a s (b :: bs) with
      | running a' s' => exact ih a' s' h.tail
      | finished header s' rest => exact ⟨rfl, rfl, fun _ _ => h.tail.putBack rest⟩
      | failed e s' =>
        refine ⟨rfl, rfl, fun header? hok => ?_⟩
        cases hok

/-- The read ends behind the dialect block that the scan comes to, and the next one can follow. -/
theorem readOn_of_finished {mode : Mode} {a : Automaton} {s s' : Stuffs} {source : Source}
    {header rest : Bytes} (hsteady : source.Steady)
    (h : scan mode a s source.unread = .finished header s' rest) :
    ∃ source', readOn mode a s source =
        { outcome := .ok (some header), stuffs := s', source := source' } ∧
      source'.Steady ∧ source'.unread = rest := by
  have hfollows := readOn_of_steady mode a s hsteady
  rw [h] at hfollows
  obtain ⟨houtcome, hstuffs, hsource⟩ := hfollows
  refine ⟨(readOn mode a s source).source, ?_, hsource _ houtcome⟩
  generalize readOn mode a s source = reading at houtcome hstuffs ⊢
  cases reading
  cases houtcome
  cases hstuffs
  rfl

end Wire

/-! ## Section 3: The same bytes, cut in two ways -/

namespace Codec

variable {κ : Type} [Content κ]

/-- **It does not matter where bytes are cut.** Two sources that never fail and hand out the same
    bytes, in whatever refills and with whatever interruptions, give the same reading: the
    same error or none, the same primitive, the same hooks, and a codec with the same
    registry and fragment cache. If the reading succeeds, the same bytes were taken from
    both. -/
theorem read_cut_anywhere (c : Codec κ) (p : Primitive κ) {source source' : Wire.Source}
    (hsteady : source.Steady) (hsteady' : source'.Steady)
    (hbytes : source.unread = source'.unread) :
    (c.read p source).1 = (c.read p source').1 ∧
    ((c.read p source).1.error = none →
      ∃ taken, source.unread = taken ++ (c.read p source).2.unread ∧
        source'.unread = taken ++ (c.read p source').2.unread) := by
  have hfollows := Wire.readOn_of_steady c.mode .start p.stuffs hsteady
  have hfollows' := Wire.readOn_of_steady c.mode .start p.stuffs hsteady'
  rw [← hbytes] at hfollows'
  have houtcome := hfollows.outcome.trans hfollows'.outcome.symm
  have hstuffs := hfollows.stuffs.trans hfollows'.stuffs.symm
  constructor
  · show c.conclude { p with stuffs := _ } _ = c.conclude { p with stuffs := _ } _
    unfold Wire.read
    rw [houtcome, hstuffs]
  · intro hnone
    -- without an error the outcome is one of a read that ended well
    cases hread : (Wire.readOn c.mode .start p.stuffs source).outcome with
    | error e => cases hnone.symm.trans ((c.error_conclude _ _).2 hread)
    | ok header? =>
      obtain ⟨-, hunread⟩ := hfollows.source header? hread
      obtain ⟨-, hunread'⟩ := hfollows'.source header? (houtcome.symm.trans hread)
      obtain ⟨taken, htaken⟩ := Wire.suffix_of_scan c.mode .start p.stuffs source.unread
      refine ⟨taken, ?_, ?_⟩
      · show _ = taken ++ Wire.Source.unread (Wire.readOn c.mode .start p.stuffs source).source
        rw [hunread, htaken]
      · show _ = taken ++ Wire.Source.unread (Wire.readOn c.mode .start p.stuffs source').source
        rw [hunread', htaken, hbytes]

/-- Two bytes of a chunk whose sign has a character of two bytes and a brace, and the beginning of
    another primitive behind it. -/
def bracedSign : Bytes :=
  Text.ascii "[1.0]\x7bsub=" ++ [0xC3, 0xA9] ++ Text.ascii
    "\\\x7b:string\x7d\x7bobj=Bwg=:string\x7d[ChunkDialect@t][1.0]"

/-- The same bytes one by one, each behind an interruption. -/
def dripping (bs : Bytes) : Wire.Source := bs.flatMap fun b => [.interrupted, .bytes [b]]

theorem read_cut_anywhere_dripping :
    let p : Primitive Empty :=
      { stuffs := .ofList [.complement (.ofString "f")], owner := some "p"
        dialect := some (.action {}) }
    let whole := Wire.Source.ofBytes bracedSign
    let cut := dripping bracedSign
    whole.Steady ∧ cut.Steady ∧ whole.unread = cut.unread ∧
      (ofChunks.read p whole).1.error = none ∧
      ((ofChunks.read p whole).1.codec.registry.map fun r => r.cache.memory) = some 2 ∧
      (ofChunks.read p whole).1 = (ofChunks.read p cut).1 ∧
      ∃ taken, whole.unread = taken ++ (ofChunks.read p whole).2.unread ∧
        cut.unread = taken ++ (ofChunks.read p cut).2.unread := by
  intro p whole cut
  have hwhole : whole.Steady := by
    intro refill hmem
    exact .inr ⟨bracedSign, by decide, List.mem_singleton.1 hmem⟩
  have hcut : cut.Steady := by
    intro refill hmem
    obtain ⟨b, -, hb⟩ := List.mem_flatMap.1 hmem
    rcases List.mem_cons.1 hb with rfl | hb
    · exact .inl rfl
    · exact .inr ⟨[b], List.cons_ne_nil b [], List.mem_singleton.1 hb⟩
  have hunread : whole.unread = cut.unread := by decide +kernel
  have hnone : (ofChunks.read p whole).1.error = none := by decide +kernel
  obtain ⟨hsame, htaken⟩ := read_cut_anywhere ofChunks p hwhole hcut hunread
  exact ⟨hwhole, hcut, hunread, hnone, by decide +kernel, hsame, htaken hnone⟩

end Codec

end Parley
