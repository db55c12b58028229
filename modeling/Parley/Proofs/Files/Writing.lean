import Parley.Files.Writer
import Parley.Proofs.Files.Touched
import Parley.Proofs.Files.Working

/-! # What a writer has been given

  A writer denotes the bytes that its file holds and behind them those that wait in its buffer:
  together they are **what it has been given**. To pass bytes on moves them from one to the other,
  also where the disk fails and only a part of them arrives. So whatever fails, the file holds a
  beginning of what was given; and after a flush that has succeeded it holds all of it.
-/

namespace Parley

namespace Disk

variable {d d' : Disk} {path : String} {p : List String} {old data : Bytes} {dirOnly : Bool}

/-- A file to which bytes are written behind its content holds those that arrive. -/
theorem append_of_file (hplace : d.place path = .ok (p, dirOnly))
    (hnode : d.node? p = some (.file old)) (data : Bytes) :
    ∃ result d', append path data d = (result, d') ∧ d.TouchesFiles (· = p) d' ∧
      d'.node? p = some (.file (old ++ d.arriving data)) ∧
      (result = .ok () ↔ d.faults d.clock = none) := by
  obtain ⟨result, hrun, hfault⟩ := alter_of_file hplace hnode fun old => old ++ d.arriving data
  have htouches := alter_touches (P := (· = p)) (fun old => old ++ d.arriving data)
    fun q _ hq => place_inj hq hplace
  rw [hrun] at htouches
  have hfree : d.tick.node? p ≠ some .dir := not_dir_of_file hnode
  refine ⟨result, _, hrun, htouches, ?_, hfault⟩
  exact ((Wrote.put hfree (old ++ d.arriving data)).nodes p).trans (if_pos rfl)

/-- If one file was touched and is there, it was written. -/
theorem TouchesFiles.wrote_of (h : d.TouchesFiles (· = p) d') (hfree : d.node? p ≠ some .dir)
    (hnode : d'.node? p = some (.file data)) : d.Wrote d' p data where
  here := h.keeps.here
  free := hfree
  nodes := by
    intro q
    split
    · next hq => rw [hq, hnode]
    · next hq => exact h.others q hq

end Disk

namespace Writer

variable {w w' : Writer} {d d' : Disk} {p : List String} {given data : Bytes}
  {result : Except Fault Unit}

/-- A writer leads to a file, and what that holds and what waits are what the writer was given. -/
structure Holds (w : Writer) (d : Disk) (p : List String) (given : Bytes) : Prop where
  place : ∃ dirOnly, d.place w.path = .ok (p, dirOnly)
  file : ∃ done, d.node? p = some (.file done) ∧ done ++ w.buffer = given

/-- A new writer was given what its file holds. -/
theorem Holds.new {path : String} {dirOnly : Bool} (hplace : d.place path = .ok (p, dirOnly))
    (hnode : d.node? p = some (.file given)) : Holds { path } d p given where
  place := ⟨dirOnly, hplace⟩
  file := ⟨given, hnode, List.append_nil given⟩

/-- The file holds a beginning of what was given. -/
theorem Holds.exists_prefix (h : w.Holds d p given) :
    ∃ done, d.node? p = some (.file done) ∧ done <+: given := by
  obtain ⟨done, hnode, rfl⟩ := h.file
  exact ⟨done, hnode, List.prefix_append done w.buffer⟩

/-- If nothing waits, it holds all. -/
theorem Holds.node_of_nil (h : w.Holds d p given) (hbuffer : w.buffer = []) :
    d.node? p = some (.file given) := by
  obtain ⟨done, hnode, rfl⟩ := h.file
  rw [hnode, hbuffer, List.append_nil]

/-- **Passing bytes on keeps what was given**, whatever comes of it. -/
theorem Holds.flush (h : w.Holds d p given) (hrun : w.flush d = (result, w', d')) :
    w'.Holds d' p given ∧ d.TouchesFiles (· = p) d' ∧ (result = .ok () → w'.buffer = []) ∧
      (d.Works → result = .ok ()) := by
  unfold Writer.flush at hrun
  split at hrun
  · next hbuffer =>
    obtain ⟨rfl, hrest⟩ := Prod.mk.inj hrun
    obtain ⟨rfl, rfl⟩ := Prod.mk.inj hrest
    exact ⟨h, .refl _ d, fun _ => hbuffer, fun _ => rfl⟩
  · obtain ⟨dirOnly, hplace⟩ := h.place
    obtain ⟨done, hnode, hgiven⟩ := h.file
    obtain ⟨result', left, happend, htouches, hleft, hfault⟩ :=
      Disk.append_of_file hplace hnode w.buffer
    rw [happend] at hrun
    obtain ⟨rfl, hrest⟩ := Prod.mk.inj hrun
    obtain ⟨rfl, rfl⟩ := Prod.mk.inj hrest
    -- what has arrived and what goes on waiting are what waited
    obtain ⟨rest, hbuffer⟩ := Disk.prefix_arriving d w.buffer
    have hwaits : w.buffer.drop (d.arriving w.buffer).length = rest :=
      (congrArg (List.drop _) hbuffer).symm.trans List.drop_left
    refine ⟨⟨⟨dirOnly, htouches.keeps.place hplace⟩, _, hleft, ?_⟩, htouches, fun hok => ?_,
      fun hworks => hfault.2 (hworks _)⟩
    · show done ++ d.arriving w.buffer ++ w.buffer.drop (d.arriving w.buffer).length = given
      rw [hwaits, List.append_assoc, hbuffer, hgiven]
    · show w.buffer.drop (d.arriving w.buffer).length = []
      rw [Disk.arriving_of_no_fault (hfault.1 hok), List.drop_length]

/-- Room can be made as bytes are passed on. Where there is room without that, nothing happens. -/
theorem Holds.makeRoom (h : w.Holds d p given) {size : Nat}
    (hrun : w.makeRoom size d = (result, w', d')) :
    w'.Holds d' p given ∧ d.TouchesFiles (· = p) d' ∧
      (result = .ok () → capacity ≤ size → w'.buffer = []) ∧ (d.Works → result = .ok ()) := by
  unfold Writer.makeRoom at hrun
  split at hrun
  · obtain ⟨hholds, htouches, hempty, hworks⟩ := h.flush hrun
    exact ⟨hholds, htouches, fun hok _ => hempty hok, hworks⟩
  · next hspare =>
    obtain ⟨rfl, hrest⟩ := Prod.mk.inj hrun
    obtain ⟨rfl, rfl⟩ := Prod.mk.inj hrest
    refine ⟨h, .refl _ d, fun _ hsize => List.length_eq_zero_iff.1 ?_, fun _ => rfl⟩
    -- a buffer with so much room is empty
    unfold spare capacity at *
    omega

/-- **A piece that was put is behind what was given before**, and a beginning of it is if that has
    failed. -/
theorem Holds.put (h : w.Holds d p given) (hrun : w.put data d = (result, w', d')) :
    (∃ added, added <+: data ∧ w'.Holds d' p (given ++ added)) ∧
      (result = .ok () → w'.Holds d' p (given ++ data)) ∧ d.TouchesFiles (· = p) d' ∧
      (d.Works → result = .ok ()) := by
  unfold Writer.put at hrun
  rcases hroom : w.makeRoom data.length d with ⟨_ | ⟨⟩, w₁, d₁⟩ <;> rw [hroom] at hrun <;>
    obtain ⟨hholds, htouches, hempty, hworks⟩ := h.makeRoom hroom
  · obtain ⟨rfl, hrest⟩ := Prod.mk.inj hrun
    obtain ⟨rfl, rfl⟩ := Prod.mk.inj hrest
    refine ⟨⟨[], List.nil_prefix, ?_⟩, nofun, htouches, hworks⟩
    rw [List.append_nil]
    exact hholds
  · dsimp only at hrun
    split at hrun
    · next hlarge =>
      -- what is passed on at once is written behind an empty buffer
      have hnode := hholds.node_of_nil (hempty rfl hlarge)
      obtain ⟨dirOnly, hplace⟩ := hholds.place
      obtain ⟨result', left, happend, hwrites, hleft, hfault⟩ :=
        Disk.append_of_file hplace hnode data
      rw [happend] at hrun
      obtain ⟨rfl, hrest⟩ := Prod.mk.inj hrun
      obtain ⟨rfl, rfl⟩ := Prod.mk.inj hrest
      have hafter : w₁.Holds left p (given ++ d₁.arriving data) :=
        { place := ⟨dirOnly, hwrites.keeps.place hplace⟩
          file := ⟨_, hleft, by rw [hempty rfl hlarge, List.append_nil]⟩ }
      refine ⟨⟨_, Disk.prefix_arriving d₁ data, hafter⟩, fun hok => ?_, htouches.trans hwrites,
        fun hcalm => hfault.2 (hcalm.of_faults htouches.faults _)⟩
      rw [Disk.arriving_of_no_fault (hfault.1 hok)] at hafter
      exact hafter
    · obtain ⟨rfl, hrest⟩ := Prod.mk.inj hrun
      obtain ⟨rfl, rfl⟩ := Prod.mk.inj hrest
      obtain ⟨done, hnode, hgiven⟩ := hholds.file
      have hafter : Holds { w₁ with buffer := w₁.buffer ++ data } d₁ p (given ++ data) :=
        { place := hholds.place
          file := ⟨done, hnode, by rw [← List.append_assoc, hgiven]⟩ }
      exact ⟨⟨data, List.prefix_rfl, hafter⟩, fun _ => hafter, htouches, hworks⟩

/-- **What a writer leaves that is let go is a beginning of what it was given.** -/
theorem Holds.letGo (h : w.Holds d p given) :
    (∃ done, (w.letGo d).node? p = some (.file done) ∧ done <+: given) ∧
      d.TouchesFiles (· = p) (w.letGo d) := by
  obtain ⟨hholds, htouches, -⟩ := h.flush (Prod.eta _).symm
  exact ⟨hholds.exists_prefix, htouches⟩

end Writer

end Parley
