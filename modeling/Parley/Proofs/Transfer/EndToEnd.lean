import Mathlib.Data.List.Induction
import Parley.Proofs.Transfer.Shipment
import Parley.Proofs.Transfer.Welcome

/-! # Files from end to end

  Files are cut and sent by nuclei, and all recorded frames are handed to one
  host, the frames of each file in their order but those of different files
  **interleaved in any way**. Each file is then put together exactly once, with its
  last frame, and stands in the directory of the host with the content that it had
  where it came from.

  The proof follows one file at a time. What the cache holds under its key and
  whether it stands on the disk is a matter of how many of its frames have arrived;
  a frame of another file changes neither.

  That the disk does not fail is presupposed of what is told about the frames. It holds
  if the disk that the host starts with takes in files of these names.
-/

namespace Parley.Transfer

variable {κ : Type}

/-! ## Interleaved frames -/

/-- A host and the disk that it writes to. -/
structure Site (κ : Type) where
  /-- The host. -/
  host : Host κ
  /-- The disk. -/
  disk : Disk

variable {ι : Type} [DecidableEq ι] [Content κ]

/-- What a frame of a shipment leads to. -/
def Site.take (x : Site κ) (s : Shipment κ) (frame : Frame) : Arrival κ :=
  x.host.arrive s.origin frame.payload x.disk

/-- A site after it was handed frames of shipments, one after the other. -/
def Site.after (ships : ι → Shipment κ) (x : Site κ) (deliveries : List (ι × Frame)) : Site κ :=
  deliveries.foldl
    (fun x delivery =>
      let arrived := x.take (ships delivery.1) delivery.2
      { host := arrived.host, disk := arrived.disk }) x

omit [DecidableEq ι] in
theorem Site.after_concat (ships : ι → Shipment κ) (x : Site κ) (before : List (ι × Frame)) (t : ι)
    (frame : Frame) :
    x.after ships (before ++ [(t, frame)])
      = { host := ((x.after ships before).take (ships t) frame).host
          disk := ((x.after ships before).take (ships t) frame).disk } := by
  unfold Site.after
  rw [List.foldl_append]
  rfl

/-- The frames of one shipment among those handed over. -/
def framesOf (t : ι) (deliveries : List (ι × Frame)) : List Frame :=
  (deliveries.filter fun delivery => delivery.1 = t).map Prod.snd

/-- What is presupposed of sending some files and handing their frames to a site, the disk apart. -/
structure Prepared (ships : ι → Shipment κ) (chunkSize : UInt64) (dir : String) (start : Site κ)
    (deliveries : List (ι × Frame)) : Prop where
  /-- Every file can be sent. -/
  sendable : ∀ t, (ships t).Sendable chunkSize
  /-- The host takes chunks in. -/
  canReceive : CanReceive start.host.nucleus start.host.cellet
  /-- It puts files together in the directory, and its fragments have the size of those sent. -/
  receiver : start.host.receiver = .new dir chunkSize.toNat
  /-- Its cache holds nothing of the files. -/
  unheld : ∀ t, start.host.cache.fragments? (ships t).origin (ships t).sign = none
  /-- No file has the name of another one or of its temporary file. -/
  names : ∀ t u, t ≠ u → (ships t).sign ≠ (ships u).sign ∧
    Receiver.partName (ships t).sign ≠ (ships u).sign
  /-- Every recorded frame is handed over once, those of one file in their order. -/
  schedule : ∀ t, framesOf t deliveries = (ships t).recorded chunkSize
  /-- With the fragment of each frame, the cache holds no more bytes than its threshold. -/
  room : ∀ before t frame after, deliveries = before ++ (t, frame) :: after →
    (start.after ships before).host.cache.memory
        + ((ships t).fragment chunkSize (framesOf t before).length).length
      ≤ (start.after ships before).host.cache.threshold.toNat

/-- What is presupposed, the disk among it. -/
structure Orderly (ships : ι → Shipment κ) (chunkSize : UInt64) (dir : String) (start : Site κ)
    (deliveries : List (ι × Frame)) : Prop
    extends Prepared ships chunkSize dir start deliveries where
  /-- The disk never fails. -/
  disk : ∀ before t frame after, deliveries = before ++ (t, frame) :: after →
    ∀ sign, .failed sign .disk ∉ ((start.after ships before).take (ships t) frame).notices

omit [Content κ] in
theorem framesOf_append (t : ι) (a b : List (ι × Frame)) :
    framesOf t (a ++ b) = framesOf t a ++ framesOf t b := by
  unfold framesOf
  rw [List.filter_append, List.map_append]

theorem framesOf_cons_self (t : ι) (frame : Frame) (rest : List (ι × Frame)) :
    framesOf t ((t, frame) :: rest) = frame :: framesOf t rest := by
  simp [framesOf]

theorem framesOf_cons_ne {t u : ι} (h : t ≠ u) (frame : Frame) (rest : List (ι × Frame)) :
    framesOf u ((t, frame) :: rest) = framesOf u rest := by
  simp [framesOf, h]

theorem framesOf_eq_nil_iff (t : ι) (deliveries : List (ι × Frame)) :
    framesOf t deliveries = [] ↔ t ∉ deliveries.map Prod.fst := by
  unfold framesOf
  rw [List.map_eq_nil_iff, List.filter_eq_nil_iff, List.mem_map]
  constructor
  · rintro h ⟨delivery, hmem, heq⟩
    exact h delivery hmem (decide_eq_true heq)
  · intro h delivery hmem heq
    exact h ⟨delivery, hmem, of_decide_eq_true heq⟩

/-! ## What every frame keeps -/

variable {ships : ι → Shipment κ} {chunkSize : UInt64} {dir : String} {start : Site κ}
  {deliveries : List (ι × Frame)}

/-- A frame that is handed over is the next one of its file, and the last one if no other
    follows. -/
theorem Prepared.next (h : Prepared ships chunkSize dir start deliveries) {before : List (ι × Frame)}
    {t : ι} {frame : Frame} {after : List (ι × Frame)}
    (hsplit : deliveries = before ++ (t, frame) :: after) :
    (framesOf t before).length < (ships t).count chunkSize ∧
    frame = (ships t).frame chunkSize (framesOf t before).length ∧
    ((framesOf t before).length + 1 = (ships t).count chunkSize ↔ t ∉ after.map Prod.fst) := by
  -- the frames of the file are split where all frames are
  have hframes := h.schedule t
  rw [hsplit, framesOf_append, framesOf_cons_self, (h.sendable t).sent_eq.2] at hframes
  have hlength := congrArg List.length hframes
  rw [List.length_append, List.length_cons, List.length_map, List.length_range] at hlength
  have hk : (framesOf t before).length < (ships t).count chunkSize := by omega
  refine ⟨hk, ?_, ?_⟩
  · have hat := congrArg (fun frames => frames[(framesOf t before).length]?) hframes
    rw [List.getElem?_append_right (Nat.le_refl _), Nat.sub_self, List.getElem?_map,
      List.getElem?_range hk] at hat
    exact Option.some.inj hat
  · rw [← framesOf_eq_nil_iff, ← List.length_eq_zero_iff]
    omega

/-- What is held and what stands on the disk is a matter of how many frames of each file have
    been handed over. -/
structure Underway (ships : ι → Shipment κ) {chunkSize : UInt64}
    (hsend : ∀ t, (ships t).Sendable chunkSize) (dir : String) (before : List (ι × Frame))
    (x : Site κ) : Prop where
  ready : CanReceive x.host.nucleus x.host.cellet
  receiver : x.host.receiver = .new dir chunkSize.toNat
  held : ∀ t, x.host.cache.fragments? (ships t).origin (ships t).sign
    = (hsend t).parcel.held (framesOf t before).length
  content : ∀ t, (framesOf t before).length = (hsend t).parcel.count →
    x.disk.content? (Path.join dir (ships t).sign) = some (ships t).content

namespace Orderly

/-- Every frame advances its file. -/
theorem advanced (h : Orderly ships chunkSize dir start deliveries) {before : List (ι × Frame)}
    {t : ι} {frame : Frame} {after : List (ι × Frame)}
    (hsplit : deliveries = before ++ (t, frame) :: after)
    (hunder : Underway ships h.sendable dir before (start.after ships before)) :
    Advanced (h.sendable t).parcel (framesOf t before).length (start.after ships before).host
      (start.after ships before).disk ((start.after ships before).take (ships t) frame) := by
  obtain ⟨hk, hframe, -⟩ := h.next hsplit
  have hdisk := h.disk before t frame after hsplit (ships t).sign
  rw [← (h.sendable t).count_parcel] at hk
  subst hframe
  apply advance (h.sendable t).parcel hk hunder.ready _ (hunder.held t)
    (h.room before t _ after hsplit) _ _ hdisk
  rw [hunder.receiver]
  exact List.not_mem_nil

/-- After every frame, its own file is one fragment further and the others are where they
    were. -/
theorem underway_step (h : Orderly ships chunkSize dir start deliveries)
    {before : List (ι × Frame)} {t : ι} {frame : Frame} {after : List (ι × Frame)}
    (hsplit : deliveries = before ++ (t, frame) :: after)
    (hunder : Underway ships h.sendable dir before (start.after ships before)) :
    Underway ships h.sendable dir (before ++ [(t, frame)])
      (start.after ships (before ++ [(t, frame)])) := by
  have hadvanced := h.advanced hsplit hunder
  have hself : (framesOf t (before ++ [(t, frame)])).length = (framesOf t before).length + 1 := by
    rw [framesOf_append, framesOf_cons_self, List.length_append]
    rfl
  have hothers : ∀ u, u ≠ t → framesOf u (before ++ [(t, frame)]) = framesOf u before := by
    intro u hu
    rw [framesOf_append, framesOf_cons_ne (Ne.symm hu)]
    exact List.append_nil _
  have hdir : (start.after ships before).host.receiver.dir = dir := by
    rw [hunder.receiver]
    rfl
  rw [Site.after_concat]
  refine ⟨hadvanced.ready, hadvanced.receiver.trans hunder.receiver, fun u => ?_, fun u hu => ?_⟩
  · by_cases hut : u = t
    · subst hut
      rw [hself]
      exact hadvanced.held
    · -- another file has another name, and so another key
      rw [hothers u hut, ← hunder.held u]
      exact hadvanced.others _ _ fun hkey => (h.names u t hut).1 hkey.2
  · by_cases hut : u = t
    · subst hut
      rw [hself] at hu
      have hcontent := hadvanced.content hu
      rw [hdir] at hcontent
      exact hcontent
    · rw [hothers u hut] at hu
      apply hadvanced.disk.content? (Path.isName_of_fileName? (h.sendable u).name) _
        (hunder.content u hu)
      have hnames := h.names t u (Ne.symm hut)
      intro hmem
      rcases List.mem_cons.1 hmem with hpart | hmem
      · exact hnames.2 hpart.symm
      · exact hnames.1 (List.mem_singleton.1 hmem).symm

theorem underway (h : Orderly ships chunkSize dir start deliveries) (before : List (ι × Frame)) :
    ∀ after, deliveries = before ++ after →
      Underway ships h.sendable dir before (start.after ships before) := by
  -- on the frames so far, the latest one last
  induction before using List.reverseRecOn with
  | nil =>
    intro _ _
    refine ⟨h.canReceive, h.receiver, h.unheld, fun t hzero => ?_⟩
    exact absurd hzero (Nat.ne_of_lt (h.sendable t).parcel.count_pos)
  | append_singleton before delivery ih =>
    intro after hsplit
    rw [List.append_assoc] at hsplit
    exact h.underway_step hsplit (ih (delivery :: after) hsplit)

end Orderly

/-! ## Disks that take the files in

  Nothing is read from the wire here: what a frame does to the site is said by its
  fragment.
-/

/-- A site that has taken in a fragment of a file. -/
def Site.received (x : Site κ) (s : Shipment κ) (chunkSize : UInt64) (k : Nat) : Site κ :=
  let got := reception x.host s.origin (s.fragment chunkSize k) x.disk
  { host := x.host.withReception got, disk := got.disk }

theorem Site.take_frame {x : Site κ} (hready : CanReceive x.host.nucleus x.host.cellet)
    {s : Shipment κ} {chunkSize : UInt64} (h : s.Sendable chunkSize) (k : Nat) :
    x.take s (s.frame chunkSize k)
      = { error := none
          host := (x.received s chunkSize k).host
          disk := (x.received s chunkSize k).disk
          notices := (reception x.host s.origin (s.fragment chunkSize k) x.disk).notices } :=
  host_arrive hready (h.parcel.travels k) s.cellet s.peer s.origin x.disk

/-- A host that takes chunks in, with a disk that takes the files in. -/
structure Welcoming (ships : ι → Shipment κ) (chunkSize : UInt64) (dir : String) (x : Site κ) :
    Prop where
  ready : CanReceive x.host.nucleus x.host.cellet
  receiver : x.host.receiver = .new dir chunkSize.toNat
  disk : ∀ t, Receiver.Welcomes dir (ships t).sign x.disk

omit [DecidableEq ι] [Content κ] in
/-- A fragment leaves the site as welcoming as it was. -/
theorem Welcoming.received {x : Site κ} (h : Welcoming ships chunkSize dir x) (t : ι) (k : Nat) :
    Welcoming ships chunkSize dir (x.received (ships t) chunkSize k) where
  ready := h.ready.withReception _
  receiver := (Receiver.receiver_receive ..).trans h.receiver
  disk := by
    intro u
    have hdir : x.host.receiver.dir = dir := congrArg Receiver.dir h.receiver
    have hwelcomes := h.disk u
    rw [← hdir] at hwelcomes ⊢
    exact hwelcomes.receive _ _

namespace Prepared

/-- Every frame finds the site welcoming. -/
theorem welcoming (h : Prepared ships chunkSize dir start deliveries)
    (hdisk : ∀ t, Receiver.Welcomes dir (ships t).sign start.disk) (before : List (ι × Frame)) :
    ∀ after, deliveries = before ++ after →
      Welcoming ships chunkSize dir (start.after ships before) := by
  -- on the frames so far, the latest one last
  induction before using List.reverseRecOn with
  | nil => exact fun _ _ => ⟨h.canReceive, h.receiver, hdisk⟩
  | append_singleton before delivery ih =>
    intro after hsplit
    obtain ⟨t, frame⟩ := delivery
    rw [List.append_assoc] at hsplit
    have hbefore := ih ((t, frame) :: after) hsplit
    rw [Site.after_concat, (h.next hsplit).2.1, Site.take_frame hbefore.ready (h.sendable t)]
    exact hbefore.received t _

/-- **Files arrive in an orderly way if the disk takes them in**: if at the start the outside world
    makes nothing fail, the directory is there or can be made, and nothing is in the way of the
    files and of their temporary files. -/
theorem orderly (h : Prepared ships chunkSize dir start deliveries)
    (hdisk : ∀ t, Receiver.Welcomes dir (ships t).sign start.disk) :
    Orderly ships chunkSize dir start deliveries where
  toPrepared := h
  disk := by
    intro before t frame after hsplit sign
    have hbefore := h.welcoming hdisk before _ hsplit
    rw [(h.next hsplit).2.1, Site.take_frame hbefore.ready (h.sendable t)]
    apply Receiver.receive_calm
    intro name hname
    -- the chunk has the name of the file for its sign
    have hsign : Path.fileName? (ships t).sign = some name := hname
    rw [(Path.isName_of_fileName? (h.sendable t).name).fileName?_eq] at hsign
    rw [hbefore.receiver, ← Option.some.inj hsign]
    exact hbefore.disk t

end Prepared

/-! ## From end to end -/

/-- **Files arrive as they were sent.** Whatever their contents, the fragment size, the read
    order and the mode of the host, and however their frames are interleaved: every file is
    sent; no frame is an error; the host reports a file with the last of its frames and at no
    other time, and what it reports is right; and in the end every file stands in the directory
    with the content that was sent, and the cache holds nothing of it.

    As for `fragments_split` it is presupposed that **there is memory for a piece** of the fragment
    size. `Prepared.orderly` tells when the disk does not get in the way. -/
theorem files_arrive (h : Orderly ships chunkSize dir start deliveries) :
    (∀ t, ∃ count, ((ships t).sent chunkSize).1 = .ok count ∧
      count.toNat = (ships t).count chunkSize) ∧
    (∀ before t frame after, deliveries = before ++ (t, frame) :: after →
      ((start.after ships before).take (ships t) frame).error = none ∧
      ((start.after ships before).take (ships t) frame).host.reports
        = (start.after ships before).host.reports ++
          if t ∈ after.map Prod.fst then [] else [(ships t).report chunkSize dir]) ∧
    ∀ t,
      (start.after ships deliveries).disk.content? (Path.join dir (ships t).sign)
        = some (ships t).content ∧
      (start.after ships deliveries).host.cache.fragments? (ships t).origin (ships t).sign
        = none := by
  refine ⟨fun t => ?_, fun before t frame after hsplit => ?_, fun t => ?_⟩
  · exact ⟨_, (h.sendable t).sent_eq.1, (h.sendable t).count_parcel⟩
  · have hunder := h.underway before _ hsplit
    have hadvanced := h.advanced hsplit hunder
    have hreports := hadvanced.reports
    rw [hunder.receiver, (h.sendable t).report_parcel, (h.sendable t).count_parcel] at hreports
    refine ⟨hadvanced.error, ?_⟩
    rw [hreports]
    by_cases hlast : (framesOf t before).length + 1 = (ships t).count chunkSize
    · rw [if_pos hlast, if_neg ((h.next hsplit).2.2.1 hlast)]
      rfl
    · rw [if_neg hlast, if_pos (not_not.1 fun hnot => hlast ((h.next hsplit).2.2.2 hnot))]
  · have hunder := h.underway deliveries [] (List.append_nil _).symm
    have hall : (framesOf t deliveries).length = (h.sendable t).parcel.count := by
      rw [h.schedule t, (h.sendable t).sent_eq.2, List.length_map, List.length_range,
        (h.sendable t).count_parcel]
    refine ⟨hunder.content t hall, ?_⟩
    rw [hunder.held t, hall]
    exact if_pos (.inr rfl)

/-! ### Two files at once

  An empty file comes in between the two fragments of another one. What a frame does
  to the site is said by its fragment, and the rest can be computed.
-/

omit [DecidableEq ι] in
theorem Site.after_frame {x : Site κ} (hready : CanReceive x.host.nucleus x.host.cellet) {t : ι}
    (h : (ships t).Sendable chunkSize) (k : Nat) (rest : List (ι × Frame)) :
    x.after ships ((t, (ships t).frame chunkSize k) :: rest)
      = (x.received (ships t) chunkSize k).after ships rest := by
  show Site.after ships (Site.mk (x.take _ _).host (x.take _ _).disk) rest = _
  rw [take_frame hready h k]

theorem eq_of_three {α : Type} {a b c x : α} {before after : List α}
    (h : [a, b, c] = before ++ x :: after) :
    before = [] ∧ x = a ∨ before = [a] ∧ x = b ∨ before = [a, b] ∧ x = c := by
  rcases before with _ | ⟨a', _ | ⟨b', _ | ⟨c', rest⟩⟩⟩ <;> simp_all

namespace TwoFiles

/-- A nucleus that sends and takes in chunks. -/
def nucleus : Nucleus Empty :=
  { config := {}, tag := ⟨List.replicate 16 0, rfl⟩
    registry := ({} : Registry Empty).add .chunk
    dispatcher := .new 1, cellets := ["files"] }

/-- A file that stands alone on a disk. -/
def ship (origin name : String) (content : Bytes) : Shipment Empty :=
  { sender := nucleus, cellet := "files", peer := "host", path := name
    disk := { nodes := [([name], .file content)] }
    origin, sign := name, content }

/-- An empty file, and one of three bytes. -/
def pair (long : Bool) : Shipment Empty :=
  if long then ship "p" "b" [1, 2, 3] else ship "q" "a" []

/-- The host. -/
def site : Site Empty :=
  { host := { nucleus, cellet := "files", receiver := .new "in" 2 }
    disk := {} }

/-- The empty file comes in between the fragments of the other one. -/
def mixed : List (Bool × Frame) :=
  [(true, (pair true).frame 2 0), (false, (pair false).frame 2 0),
    (true, (pair true).frame 2 1)]

theorem sendable (t : Bool) : (pair t).Sendable 2 := by
  have hcanSend : CanSend nucleus "files" := ⟨by decide +kernel, by rfl, fun _ => rfl⟩
  cases t with
  | false =>
    exact {
      canSend := hcanSend
      name := by decide +kernel
      reads := ⟨0, _, _, Prod.ext (by decide +kernel) rfl, Prod.ext (by decide +kernel) rfl⟩
      countable := by decide
      safe := Wire.backslashSafe_of_not_mem (by decide +kernel) }
  | true =>
    exact {
      canSend := hcanSend
      name := by decide +kernel
      reads := ⟨3, _, _, Prod.ext (by decide +kernel) rfl, Prod.ext (by decide +kernel) rfl⟩
      countable := by decide
      safe := Wire.backslashSafe_of_not_mem (by decide +kernel) }

theorem canReceive : CanReceive site.host.nucleus site.host.cellet :=
  ⟨by decide +kernel, by rfl⟩

theorem prepared : Prepared pair 2 "in" site mixed where
  sendable := sendable
  canReceive := canReceive
  receiver := rfl
  unheld := by decide +kernel
  names := by decide +kernel
  schedule t := by
    rw [(sendable t).sent_eq.2]
    cases t <;> rfl
  room before t frame after hsplit := by
    rcases eq_of_three hsplit with ⟨rfl, h⟩ | ⟨rfl, h⟩ | ⟨rfl, h⟩ <;>
      obtain ⟨rfl, rfl⟩ := Prod.mk.inj h
    · decide +kernel
    · rw [Site.after_frame canReceive (sendable _)]
      decide +kernel
    · rw [Site.after_frame canReceive (sendable _),
        Site.after_frame (canReceive.withReception _) (sendable _)]
      decide +kernel

/-- The directory can be made on an empty disk, and the files can be put there. -/
theorem orderly : Orderly pair 2 "in" site mixed := by
  apply prepared.orderly
  intro t
  obtain ⟨made, hmade⟩ : ∃ made, Disk.createDirAll "in" site.disk = (.ok (), made) :=
    ⟨_, Prod.ext (by decide +kernel) rfl⟩
  obtain rfl : (Disk.createDirAll "in" site.disk).2 = made := congrArg Prod.snd hmade
  refine ⟨_, hmade, fun n => ?_, ?_, ?_⟩
  · rw [Disk.createDirAll_faults]
    rfl
  · refine ⟨["in", Receiver.partName (pair t).sign], ?_⟩
    cases t <;> decide +kernel
  · refine ⟨["in", (pair t).sign], ?_⟩
    cases t <;> decide +kernel

end TwoFiles

theorem files_arrive_twoFiles :
    Orderly TwoFiles.pair 2 "in" TwoFiles.site TwoFiles.mixed ∧
    (TwoFiles.site.after TwoFiles.pair TwoFiles.mixed).disk.content? "in/a" = some [] ∧
    (TwoFiles.site.after TwoFiles.pair TwoFiles.mixed).disk.content? "in/b"
      = some [1, 2, 3] := by
  have harrived := (files_arrive TwoFiles.orderly).2.2
  have hshort : Path.join "in" "a" = "in/a" := by decide +kernel
  have hlong : Path.join "in" "b" = "in/b" := by decide +kernel
  refine ⟨TwoFiles.orderly, ?_, ?_⟩
  · rw [← hshort]
    exact (harrived false).1
  · rw [← hlong]
    exact (harrived true).1

end Parley.Transfer
