import Parley.Proofs.Transfer.Attempts
import Parley.Proofs.Transfer.EndToEnd
import Parley.Proofs.Transfer.Reception

/-! # Files that are sent again

  A peer sends a file, and sends it again when the link has failed, as often as it likes. What
  arrived of a try that was given up stays in the cache, and in the read order of **arrival**
  it is never told apart from what arrives later. So a retry may complete the file too early,
  with fragments of two tries.

  What is true of every file that is completed, whatever the link did and whatever was
  cleared or evicted in between:

  - it consists of the fragments that arrived last, as many as the file has, in the order of
    their arrival;
  - if it was completed by the last fragment of a try, then that is the file;
  - if nothing was held whenever a try began, then it was completed by the last fragment.

  The invariant behind it: what is held under the key of the file is the end of what has
  arrived. A clearing or an eviction leaves the empty end.
-/

namespace Parley.Transfer

variable {κ : Type} {u : Upload} [Content κ]

/-! ## Section 1: What happens to the host -/

/-- What happens to a host and its disk while a peer sends a file again and again. -/
inductive Happening where
  /-- A frame of the peer arrives. -/
  | arrives (frame : Frame)
  /-- Something else is done to the cache. -/
  | cache (op : CacheOp)
  /-- The outside world changes the disk. -/
  | disk (d : Disk)

/-- The frames that arrive. -/
def framesAmong (happenings : List Happening) : List Frame :=
  happenings.filterMap fun
    | .arrives frame => some frame
    | _ => none

namespace Site

/-- What comes of a frame of a peer. -/
def receives (x : Site κ) (peer : String) (frame : Frame) : Arrival κ :=
  x.host.arrive peer frame.payload x.disk

/-- A site with another fragment cache. -/
def withCache (x : Site κ) (cache : ChunkCache) : Site κ :=
  { x with
    host :=
      { x.host with
        nucleus := { x.host.nucleus with registry := { x.host.nucleus.registry with cache } } } }

/-- What a happening leads to. -/
def next (peer : String) (x : Site κ) : Happening → Site κ
  | .arrives frame => { host := (x.receives peer frame).host, disk := (x.receives peer frame).disk }
  | .cache op => x.withCache (x.host.cache.perform op)
  | .disk d => { x with disk := d }

/-- What a sequence of happenings leads to. -/
def past (peer : String) (x : Site κ) (happenings : List Happening) : Site κ :=
  happenings.foldl (next peer) x

theorem past_concat (peer : String) (x : Site κ) (happenings : List Happening)
    (happening : Happening) :
    x.past peer (happenings ++ [happening]) = (x.past peer happenings).next peer happening := by
  unfold past
  rw [List.foldl_append]
  rfl

/-- How many fragments of a file are held. -/
def held (x : Site κ) (u : Upload) : List Chunk :=
  (x.host.cache.fragments? u.origin u.sign).getD []

end Site

/-- What is presupposed of tries at sending a file to a site that reads by arrival: their frames
    arrive in their order, and nobody else writes to the key of the file. Whatever else is done
    to the cache, which may evict or clear any key, may come at any time. -/
structure Resent (u : Upload) (attempts : List (Attempt κ)) (start : Site κ)
    (happenings : List Happening) : Prop where
  /-- Every try is one at this file. -/
  sends : ∀ a ∈ attempts, a.Sends u
  /-- The host takes chunks in. -/
  canReceive : CanReceive start.host.nucleus start.host.cellet
  /-- Its cache reads by arrival. -/
  order : start.host.cache.order = .arrival
  /-- It holds nothing of the file. -/
  unheld : start.host.cache.fragments? u.origin u.sign = none
  /-- No other write brings fragments under the key of the file. -/
  foreign : ∀ chunk, .cache (.write chunk) ∈ happenings →
    ¬ (chunk.info.owner = some u.origin ∧ chunk.sign = u.sign)
  /-- What arrives is what the tries left, one after the other. -/
  schedule : framesAmong happenings = (u.tries attempts).flatten

/-- The indices of the fragments that have arrived, in their order. -/
def Upload.arrivals (u : Upload) (attempts : List (Attempt κ)) (happenings : List Happening) :
    List Nat :=
  (sentIndices (u.tries attempts)).take (framesAmong happenings).length

/-- Nothing of the file is held whenever the first fragment of a try arrives. -/
def FreshStarts (u : Upload) (attempts : List (Attempt κ)) (start : Site κ)
    (happenings : List Happening) : Prop :=
  ∀ early frame late, happenings = early ++ .arrives frame :: late →
    (u.arrivals attempts (early ++ [.arrives frame])).getLast? = some 0 →
    (start.past u.origin early).held u = []

/-! ## Section 2: What one frame does -/

namespace Upload

/-- The file as a parcel, if it can be sent at all and its name survives the wire. -/
def parcel (u : Upload) (hcount : u.count < UInt32.size) (hname : Path.IsName u.sign)
    (hsafe : Wire.BackslashSafe (Text.bytes u.sign)) : Parcel where
  origin := u.origin
  sign := u.sign
  content := u.content
  chunkSize := u.chunkSize
  file :=
    { sign := u.sign, count := UInt32.ofNat u.count
      chunks := cut u.sign (UInt64.ofNat u.content.length) (UInt32.ofNat u.count) u.size
        (UInt32.ofNat u.count).toNat 0 u.content }
  cut := by
    have hfragments : fragmentCount u.content.length u.chunkSize.toNat
        = .ok (UInt32.ofNat u.count) := if_pos hcount
    unfold fragments
    rw [hfragments]
    rfl
  isName := hname
  safe := hsafe

end Upload

section Held

variable {c : ChunkCache} {indices : List Nat} (hcount : u.count < UInt32.size)
  (hheld : c.fragments? u.origin u.sign = some (indices.map u.arrived))

include hcount hheld

omit [Content κ] in
/-- The cache calls the file complete when as many fragments are held as it has. -/
theorem length_of_completed (hcomplete : c.completed u.origin u.sign = true) :
    indices.length = u.count := by
  unfold ChunkCache.completed at hcomplete
  rw [hheld] at hcomplete
  cases indices with
  | nil => cases hcomplete
  | cons j rest =>
    have hlength := beq_iff_eq.1 hcomplete
    have hnum : (u.arrived j).num.toNat = u.count := UInt32.toNat_ofNat_of_lt' hcount
    rw [List.length_map, hnum] at hlength
    exact hlength

omit [Content κ] in
/-- By arrival, the pieces of the fragments that are held are gathered. -/
theorem gather_of_held (horder : c.order = .arrival) (hname : Path.IsName u.sign)
    (hsafe : Wire.BackslashSafe (Text.bytes u.sign)) :
    Receiver.gather c u.origin u.sign (c.count u.origin u.sign) 0
      = .ok (indices.flatMap (piece u.content u.size)) := by
  have hall : c.count u.origin u.sign = (indices.map u.arrived).length := by
    unfold ChunkCache.count
    rw [hheld]
    rfl
  have hpayload : ∀ j, (u.arrived j).payload = piece u.content u.size j :=
    (u.parcel hcount hname hsafe).payload_arriving
  rw [Receiver.gather_arrival horder hheld _ 0 (by rw [hall, Nat.zero_add]), List.drop_zero,
    List.flatMap_map]
  simp only [hpayload]

end Held

section Step

variable {x : Site κ} {i : Nat} (here there : String)

/-- The chunk of a frame goes to the receiver. -/
theorem receives_frame (hready : CanReceive x.host.nucleus x.host.cellet)
    (htravels : Travels (u.fragment i)) :
    x.receives u.origin (frameOf κ here there (u.fragment i))
      = { error := none
          host := x.host.withReception (reception x.host u.origin (u.fragment i) x.disk)
          disk := (reception x.host u.origin (u.fragment i) x.disk).disk
          notices := (reception x.host u.origin (u.fragment i) x.disk).notices } :=
  host_arrive hready htravels here there u.origin x.disk

theorem next_frame (hready : CanReceive x.host.nucleus x.host.cellet)
    (htravels : Travels (u.fragment i)) :
    x.next u.origin (.arrives (frameOf κ here there (u.fragment i)))
      = { host := x.host.withReception (reception x.host u.origin (u.fragment i) x.disk)
          disk := (reception x.host u.origin (u.fragment i) x.disk).disk } := by
  unfold Site.next
  dsimp only
  rw [receives_frame here there hready htravels]

/-- A fragment goes behind those that are held, or nothing is held any more. -/
theorem held_receives (hready : CanReceive x.host.nucleus x.host.cellet)
    (horder : x.host.cache.order = .arrival) (htravels : Travels (u.fragment i)) :
    (x.next u.origin (.arrives (frameOf κ here there (u.fragment i)))).held u
        = x.held u ++ [u.arrived i] ∨
      (x.next u.origin (.arrives (frameOf κ here there (u.fragment i)))).held u = [] := by
  have hcache : (x.next u.origin (.arrives (frameOf κ here there (u.fragment i)))).host.cache
      = (reception x.host u.origin (u.fragment i) x.disk).cache := by
    rw [next_frame here there hready htravels]
    rfl
  have howner : (u.arrived i).info.owner = some u.origin := rfl
  have hwrite := ChunkCache.fragments?_write_arrival horder howner
  have hreceive := x.host.receiver.fragments?_receive (x.host.cache.write (u.arrived i))
    (delivered x.host.cellet u.origin (u.fragment i)) x.disk u.origin u.sign
  unfold Site.held
  rw [hcache]
  unfold reception
  rcases hreceive with h | h
  · rcases hwrite with hw | hw
    · left
      rw [show arriving u.origin (u.fragment i) = u.arrived i from rfl, h]
      exact congrArg (Option.getD · []) hw
    · right
      rw [show arriving u.origin (u.fragment i) = u.arrived i from rfl, h]
      exact congrArg (Option.getD · []) hw
  · right
    rw [show arriving u.origin (u.fragment i) = u.arrived i from rfl, h]
    rfl

/-- **A file that a fragment completes** is all that was held and the fragment, and these are as
    many as the file has. -/
theorem completed_receives (hready : CanReceive x.host.nucleus x.host.cellet)
    (horder : x.host.cache.order = .arrival) (hcount : u.count < UInt32.size)
    (hname : Path.IsName u.sign) (hsafe : Wire.BackslashSafe (Text.bytes u.sign)) {kept : List Nat}
    (hheld : x.held u = kept.map u.arrived) {report : Report}
    (hreport : .completed report ∈
      (x.receives u.origin (frameOf κ here there (u.fragment i))).notices) :
    (kept ++ [i]).length = u.count ∧
    (x.receives u.origin (frameOf κ here there (u.fragment i))).disk.content? report.path
      = some ((kept ++ [i]).flatMap (piece u.content u.size)) ∧
    report.bytes = ((kept ++ [i]).flatMap (piece u.content u.size)).length := by
  rw [receives_frame here there hready ((u.parcel hcount hname hsafe).travels i)] at hreport ⊢
  have hresult := Receiver.result_of_completed hreport
  have horder' : (x.host.cache.write (u.arrived i)).order = .arrival := by
    rw [ChunkCache.write_order, horder]
  rcases x.host.receiver.receive_cases (x.host.cache.write (u.arrived i))
      (delivered x.host.cellet u.origin (u.fragment i)) x.disk with
    ⟨⟨_, _, hother⟩, -⟩ |
      ⟨tag, htag, hcomplete, ⟨_, hother, -⟩ | ⟨name, content, -, hgather, hdone, -, hcontent⟩⟩
  · cases hother.symm.trans hresult
  · cases hother.symm.trans hresult
  · obtain rfl := Receipt.completed.inj (Except.ok.inj (hdone.symm.trans hresult))
    obtain rfl : u.origin = tag := Option.some.inj htag
    -- nothing is complete where nothing is held, so the fragment went behind what was held
    have hall : (x.host.cache.write (u.arrived i)).fragments? u.origin u.sign
        = some ((kept ++ [i]).map u.arrived) := by
      rw [List.map_append, ← hheld]
      have howner : (u.arrived i).info.owner = some u.origin := rfl
      refine (ChunkCache.fragments?_write_arrival horder howner).resolve_right ?_
      intro hnone
      unfold ChunkCache.completed at hcomplete
      rw [show (x.host.cache.write (u.arrived i)).fragments? u.origin
        (delivered x.host.cellet u.origin (u.fragment i)).sign = none from hnone] at hcomplete
      cases hcomplete
    have hgathered := (gather_of_held hcount hall horder' hname hsafe).symm.trans hgather
    obtain rfl := Except.ok.inj hgathered
    exact ⟨length_of_completed hcount hall hcomplete, hcontent, rfl⟩

end Step

/-! ## Section 3: What all tries come to -/

/-- What is held of the file is the end of what has arrived of it. -/
structure Stocked (u : Upload) (arrivals : List Nat) (x : Site κ) : Prop where
  ready : CanReceive x.host.nucleus x.host.cellet
  order : x.host.cache.order = .arrival
  held : ∃ kept, kept <:+ arrivals ∧ x.held u = kept.map u.arrived

variable {attempts : List (Attempt κ)} {start : Site κ} {happenings : List Happening}

theorem framesAmong_append (a b : List Happening) :
    framesAmong (a ++ b) = framesAmong a ++ framesAmong b := List.filterMap_append

omit [Content κ] in
/-- An operation on other keys leaves what is held, or drops it. -/
theorem held_perform {x : Site κ} {op : CacheOp}
    (hop : ∀ chunk, op = .write chunk →
      ¬ (chunk.info.owner = some u.origin ∧ chunk.sign = u.sign)) :
    (x.withCache (x.host.cache.perform op)).held u = x.held u ∨
      (x.withCache (x.host.cache.perform op)).held u = [] := by
  rcases ChunkCache.fragments?_perform (c := x.host.cache) hop with h | h
  · exact .inl (congrArg (Option.getD · []) h)
  · exact .inr (congrArg (Option.getD · []) h)

namespace Resent

/-- A frame that arrives is one of some try, and the frames of this try before it have arrived
    right before it. -/
theorem arrival (h : Resent u attempts start happenings) {before after : List Happening}
    {frame : Frame} (hsplit : happenings = before ++ .arrives frame :: after) :
    ∃ a ∈ attempts, ∃ i < u.count, u.count < UInt32.size ∧ Path.IsName u.sign ∧
      frame = frameOf κ a.cellet a.peer (u.fragment i) ∧
      u.arrivals attempts (before ++ [.arrives frame]) = u.arrivals attempts before ++ [i] ∧
      List.range (i + 1) <:+ u.arrivals attempts (before ++ [.arrives frame]) := by
  have hat : (u.tries attempts).flatten[(framesAmong before).length]? = some frame := by
    rw [← h.schedule, hsplit, framesAmong_append,
      List.getElem?_append_right (Nat.le_refl _), Nat.sub_self]
    rfl
  obtain ⟨t, ht, i, hi, hframe, hsuffix⟩ := exists_of_flatten hat
  obtain ⟨a, ha, rfl⟩ := List.mem_map.1 ht
  obtain ⟨hlt, hcount, hframe⟩ := (h.sends a ha).recorded hframe
  have hlength : (framesAmong (before ++ [.arrives frame])).length
      = (framesAmong before).length + 1 := by
    rw [framesAmong_append, List.length_append]
    rfl
  refine ⟨a, ha, i, hlt, hcount, Path.isName_of_fileName? (h.sends a ha).name, hframe, ?_, ?_⟩
  · unfold Upload.arrivals
    rw [hlength, List.take_add_one, hi]
    rfl
  · unfold Upload.arrivals
    rw [hlength]
    exact hsuffix

/-- What is no frame leaves the arrivals, and what is held or nothing of it. -/
theorem quiet (h : Resent u attempts start happenings) {before after : List Happening}
    {happening : Happening} (hsplit : happenings = before ++ happening :: after)
    (hno : framesAmong [happening] = []) :
    u.arrivals attempts (before ++ [happening]) = u.arrivals attempts before ∧
    ((start.past u.origin (before ++ [happening])).held u = (start.past u.origin before).held u ∨
      (start.past u.origin (before ++ [happening])).held u = []) := by
  constructor
  · unfold Upload.arrivals
    rw [framesAmong_append, hno, List.append_nil]
  · rw [Site.past_concat]
    cases happening with
    | arrives frame => cases hno
    | cache op =>
      apply held_perform
      rintro chunk rfl
      apply h.foreign
      rw [hsplit]
      exact List.mem_append_right _ List.mem_cons_self
    | disk d => exact .inl rfl

/-- Every happening keeps what is held an end of what has arrived. -/
theorem stocked_step (h : Resent u attempts start happenings)
    (hsafe : Wire.BackslashSafe (Text.bytes u.sign)) {before after : List Happening}
    {happening : Happening} (hsplit : happenings = before ++ happening :: after)
    (hx : Stocked u (u.arrivals attempts before) (start.past u.origin before)) :
    Stocked u (u.arrivals attempts (before ++ [happening]))
      (start.past u.origin (before ++ [happening])) := by
  obtain ⟨kept, hkept, hheld⟩ := hx.held
  have hquiet : framesAmong [happening] = [] → ∃ kept',
      kept' <:+ u.arrivals attempts (before ++ [happening]) ∧
      (start.past u.origin (before ++ [happening])).held u = kept'.map u.arrived := by
    intro hno
    obtain ⟨harrivals, hsame | hnone⟩ := h.quiet hsplit hno
    · exact ⟨kept, harrivals ▸ hkept, hsame.trans hheld⟩
    · exact ⟨[], List.nil_suffix, hnone⟩
  cases happening with
  | arrives frame =>
    obtain ⟨a, -, i, -, hcount, hname, rfl, harrivals, -⟩ := h.arrival hsplit
    have htravels : Travels (u.fragment i) := (u.parcel hcount hname hsafe).travels i
    have hafter := next_frame a.cellet a.peer hx.ready htravels
    rw [harrivals, Site.past_concat]
    refine ⟨?_, ?_, ?_⟩
    · rw [hafter]
      exact hx.ready.withReception _
    · rw [hafter]
      exact (Receiver.order_receive ..).trans ((ChunkCache.write_order ..).trans hx.order)
    · rcases held_receives a.cellet a.peer hx.ready hx.order htravels with hmore | hnone
      · refine ⟨kept ++ [i], suffix_concat hkept i, ?_⟩
        rw [hmore, hheld, List.map_append]
        rfl
      · exact ⟨[], List.nil_suffix, hnone⟩
  | cache op =>
    have hkept := hquiet rfl
    rw [Site.past_concat] at hkept ⊢
    exact ⟨⟨hx.ready.hosts, hx.ready.factory⟩, (ChunkCache.perform_order ..).trans hx.order, hkept⟩
  | disk d =>
    have hkept := hquiet rfl
    rw [Site.past_concat] at hkept ⊢
    exact ⟨hx.ready, hx.order, hkept⟩

theorem stocked (h : Resent u attempts start happenings)
    (hsafe : Wire.BackslashSafe (Text.bytes u.sign)) (before : List Happening) :
    ∀ after, happenings = before ++ after →
      Stocked u (u.arrivals attempts before) (start.past u.origin before) := by
  -- on the happenings so far, the latest one last
  induction before using List.reverseRecOn with
  | nil =>
    intro _ _
    exact ⟨h.canReceive, h.order, [], List.nil_suffix, congrArg (Option.getD · []) h.unheld⟩
  | append_singleton before happening ih =>
    intro after hsplit
    rw [List.append_assoc] at hsplit
    exact h.stocked_step hsafe hsplit (ih _ hsplit)

/-- If nothing was held whenever a try began, then no more is held before a fragment than this
    try has left before it. -/
theorem held_length_le (h : Resent u attempts start happenings) {before after : List Happening}
    {frame : Frame} (hsplit : happenings = before ++ .arrives frame :: after)
    (hfresh : FreshStarts u attempts start (before ++ [.arrives frame]))
    (hbefore : ∀ j, (u.arrivals attempts before).getLast? = some j →
      ((start.past u.origin before).held u).length ≤ j + 1) {i : Nat}
    (hlast : (u.arrivals attempts (before ++ [.arrives frame])).getLast? = some i) :
    ((start.past u.origin before).held u).length ≤ i := by
  obtain ⟨_, -, j, -, -, -, -, harrivals, hrange⟩ := h.arrival hsplit
  rw [harrivals] at hrange
  have hij : i = j := by
    rw [harrivals, List.getLast?_concat] at hlast
    exact (Option.some.inj hlast).symm
  subst hij
  cases i with
  | zero =>
    rw [hfresh before frame [] rfl hlast]
    exact Nat.le_refl 0
  | succ j => exact hbefore j (getLast?_of_range_suffix hrange)

theorem held_length_le_succ (h : Resent u attempts start happenings)
    (hsafe : Wire.BackslashSafe (Text.bytes u.sign)) (before : List Happening) :
    ∀ after, happenings = before ++ after → FreshStarts u attempts start before →
      ∀ i, (u.arrivals attempts before).getLast? = some i →
        ((start.past u.origin before).held u).length ≤ i + 1 := by
  -- on the happenings so far, the latest one last
  induction before using List.reverseRecOn with
  | nil =>
    intro _ _ _ i hlast
    cases hlast
  | append_singleton before happening ih =>
    intro after hsplit hfresh i hlast
    rw [List.append_assoc] at hsplit
    have hbefore := ih _ hsplit fun early frame late heq => hfresh early frame (late ++ [happening])
      (by rw [heq, List.append_assoc]; rfl)
    have hquiet : framesAmong [happening] = [] →
        ((start.past u.origin (before ++ [happening])).held u).length ≤ i + 1 := by
      intro hno
      obtain ⟨harrivals, hsame | hnone⟩ := h.quiet hsplit hno
      · rw [hsame]
        exact hbefore i (harrivals ▸ hlast)
      · rw [hnone]
        exact Nat.zero_le _
    cases happening with
    | arrives frame =>
      have hfew := h.held_length_le hsplit hfresh hbefore hlast
      have hstocked := h.stocked hsafe before _ hsplit
      obtain ⟨a, -, j, -, hcount, hname, rfl, -, -⟩ := h.arrival hsplit
      rw [Site.past_concat]
      rcases held_receives a.cellet a.peer hstocked.ready hstocked.order
        ((u.parcel hcount hname hsafe).travels j) with hmore | hnone
      · rw [hmore, List.length_append]
        exact Nat.add_le_add_right hfew 1
      · rw [hnone]
        exact Nat.zero_le _
    | cache op => exact hquiet rfl
    | disk d => exact hquiet rfl

end Resent

/-- What is known of a file that was completed after some arrivals. -/
structure OfLastArrivals (u : Upload) (arrivals : List Nat) (report : Report) (written : Bytes) :
    Prop where
  /-- As many fragments have arrived as the file has. -/
  enough : u.count ≤ arrivals.length
  /-- It consists of those that arrived last, in the order of their arrival. -/
  pieces : written = (arrivals.rtake u.count).flatMap (piece u.content u.size)
  /-- Its bytes are reported. -/
  bytes : report.bytes = written.length
  /-- If the last fragment of the file completed it, then it is the file, and has as many bytes
      as the fragments declare. -/
  whole : arrivals.getLast? = some (u.count - 1) →
    written = u.content ∧ ∀ i, UInt64.ofNat report.bytes = (u.fragment i).total

/-- **What a file that is sent again and again is completed from.** Whatever the file and the size
    of its fragments, however the links of the tries fail, and whatever is cleared or evicted in
    between: a file that is completed under the name consists of the fragments that have arrived
    last, as many as the file has, in the order of their arrival; and it is the file if the last
    fragment completed it. This is so whenever nothing was held when a try began. -/
theorem completed_from_last_arrivals (h : Resent u attempts start happenings)
    {before after : List Happening} {frame : Frame}
    (hsplit : happenings = before ++ .arrives frame :: after) {report : Report}
    (hreport : .completed report ∈ ((start.past u.origin before).receives u.origin frame).notices)
    (hsign : report.sign = u.sign) :
    (∃ written,
      ((start.past u.origin before).receives u.origin frame).disk.content? report.path
        = some written ∧
      OfLastArrivals u (u.arrivals attempts (before ++ [.arrives frame])) report written) ∧
    (FreshStarts u attempts start (before ++ [.arrives frame]) →
      (u.arrivals attempts (before ++ [.arrives frame])).getLast? = some (u.count - 1)) := by
  have hsafe : Wire.BackslashSafe (Text.bytes u.sign) := by
    rw [← hsign]
    exact backslashSafe_of_completed hreport
  obtain ⟨a, -, i, hi, hcount, hname, rfl, harrivals, hrange⟩ := h.arrival hsplit
  have hstocked := h.stocked hsafe before _ hsplit
  obtain ⟨kept, hkept, hheld⟩ := hstocked.held
  obtain ⟨hlength, hcontent, hbytes⟩ := completed_receives a.cellet a.peer hstocked.ready
    hstocked.order hcount hname hsafe hheld hreport
  rw [harrivals] at hrange ⊢
  -- what was held and the fragment are the end of what has arrived
  have hsuffix := suffix_concat hkept i
  have hlast := rtake_of_suffix hsuffix hlength
  have hpos := u.count_pos
  refine ⟨⟨_, hcontent, ?_, by rw [hlast], hbytes, fun hwhole => ?_⟩, fun hfresh => ?_⟩
  · rw [← hlength]
    exact hsuffix.length_le
  · rw [List.getLast?_concat] at hwhole
    obtain rfl := Option.some.inj hwhole
    have hcounted : (UInt32.ofNat u.count).toNat = u.count := UInt32.toNat_ofNat_of_lt' hcount
    rw [Nat.sub_add_cancel hpos] at hrange
    have hall := rtake_of_suffix hrange List.length_range
    rw [hlast] at hall
    have hwritten := flatMap_piece (u.parcel hcount hname hsafe).cut
    have hfile : (kept ++ [u.count - 1]).flatMap (piece u.content u.size) = u.content := by
      rw [hall, ← hcounted]
      exact hwritten
    refine ⟨hfile, fun i => ?_⟩
    rw [hbytes, hfile]
    rfl
  · -- as no more is held than this try has left, it has left all
    have hbefore : FreshStarts u attempts start before := fun early frame late heq =>
      hfresh early frame (late ++ [_]) (by rw [heq, List.append_assoc]; rfl)
    have hfew := h.held_length_le hsplit hfresh (h.held_length_le_succ hsafe before _ hsplit hbefore)
      (harrivals ▸ List.getLast?_concat)
    rw [hheld, List.length_map] at hfew
    rw [List.length_append, List.length_singleton] at hlength
    rw [List.getLast?_concat]
    congr 1
    omega

/-! ### A try that was given up

  A file of three bytes goes in two fragments. The link fails after the first of them, and the
  file is sent again.
-/

namespace TwoTries

/-- The file. -/
def upload : Upload := { origin := "p", sign := "b", content := [1, 2, 3], chunkSize := 2 }

/-- A try over a link that fails at some attempts. -/
def attempt (faults : Nat → Option String) : Attempt Empty :=
  { sender := { TwoFiles.nucleus with link := { faults } }
    cellet := "files", peer := "host", path := "b"
    disk := { nodes := [(["b"], .file [1, 2, 3])] } }

/-- The link fails after one frame, and then no more. -/
def both : List (Attempt Empty) :=
  [attempt fun n => if n = 1 then some "down" else none, attempt fun _ => none]

/-- The frames of the file. -/
def frame (i : Nat) : Frame := frameOf Empty "files" "host" (upload.fragment i)

theorem name_eq : Path.fileName? "b" = some "b" := by
  decide +kernel

theorem sends : ∀ a ∈ both, a.Sends upload := by
  have hall : ∀ faults, (attempt faults).Sends upload := by
    intro faults
    have hcontent : (Disk.read "b" (Disk.openLength "b"
        { nodes := [(["b"], .file [1, 2, 3])] }).2).1 = .ok [1, 2, 3] := by decide +kernel
    refine ⟨name_eq, fun length d₁ content d₂ hopen hread => ?_⟩
    have hopened := congrArg Prod.snd hopen
    obtain rfl : _ = d₁ := hopened
    exact Except.ok.inj ((congrArg Prod.fst hread).symm.trans hcontent)
  intro a ha
  rcases List.mem_cons.1 ha with rfl | ha
  · exact hall _
  · rw [List.mem_singleton.1 ha]
    exact hall _

theorem tries_eq : upload.tries both = [[frame 0], [frame 0, frame 1]] := by
  decide +kernel

theorem resent {happenings : List Happening}
    (hforeign : ∀ chunk, .cache (.write chunk) ∉ happenings)
    (hschedule : framesAmong happenings = [frame 0, frame 0, frame 1]) :
    Resent upload both TwoFiles.site happenings where
  sends := sends
  canReceive := TwoFiles.canReceive
  order := rfl
  unheld := by decide +kernel
  foreign chunk hmem := absurd hmem (hforeign chunk)
  schedule := by
    rw [hschedule, tries_eq]
    rfl

theorem travels (i : Nat) : Travels (upload.fragment i) :=
  (upload.parcel (by decide) (Path.isName_of_fileName? name_eq)
    (Wire.backslashSafe_of_not_mem (by decide +kernel))).travels i

/-- A site that has taken in a fragment of the file. -/
def taken (x : Site Empty) (i : Nat) : Site Empty :=
  { host := x.host.withReception (reception x.host "p" (upload.fragment i) x.disk)
    disk := (reception x.host "p" (upload.fragment i) x.disk).disk }

theorem next_taken {x : Site Empty} (hready : CanReceive x.host.nucleus x.host.cellet) (i : Nat) :
    x.next upload.origin (.arrives (frame i)) = taken x i := by
  unfold frame
  rw [next_frame "files" "host" hready (travels i)]
  rfl

theorem receives_taken {x : Site Empty} (hready : CanReceive x.host.nucleus x.host.cellet)
    (i : Nat) :
    x.receives upload.origin (frame i)
      = { error := none, host := (taken x i).host, disk := (taken x i).disk
          notices := (reception x.host "p" (upload.fragment i) x.disk).notices } := by
  unfold frame
  rw [receives_frame "files" "host" hready (travels i)]
  rfl

/-- The site with the first fragment. -/
def begun : Site Empty := taken TwoFiles.site 0

theorem past_begun : TwoFiles.site.past upload.origin [.arrives (frame 0)] = begun :=
  next_taken TwoFiles.canReceive 0

/-- The site that has dropped the first fragment. -/
def cleared : Site Empty := begun.withCache (begun.host.cache.perform (.clear "p" "b"))

theorem past_cleared : TwoFiles.site.past upload.origin
    [.arrives (frame 0), .cache (.clear "p" "b"), .arrives (frame 0)] = taken cleared 0 := by
  have hready : CanReceive cleared.host.nucleus cleared.host.cellet :=
    ⟨TwoFiles.canReceive.hosts, TwoFiles.canReceive.factory⟩
  show ((TwoFiles.site.next upload.origin (.arrives (frame 0))).next upload.origin
    (.cache (.clear "p" "b"))).next upload.origin (.arrives (frame 0)) = taken cleared 0
  rw [next_taken TwoFiles.canReceive 0]
  show cleared.next upload.origin (.arrives (frame 0)) = taken cleared 0
  exact next_taken hready 0

end TwoTries

/-- If the cache is cleared before the file is sent again, it comes out right. -/
theorem completed_from_last_arrivals_cleared :
    Resent TwoTries.upload TwoTries.both TwoFiles.site
      [.arrives (TwoTries.frame 0), .cache (.clear "p" "b"), .arrives (TwoTries.frame 0),
        .arrives (TwoTries.frame 1)] ∧
    ((TwoTries.taken TwoTries.cleared 0).receives "p" (TwoTries.frame 1)).disk.content? "in/b"
      = some [1, 2, 3] := by
  have hresent : Resent TwoTries.upload TwoTries.both TwoFiles.site
      ([.arrives (TwoTries.frame 0), .cache (.clear "p" "b"), .arrives (TwoTries.frame 0)] ++
        .arrives (TwoTries.frame 1) :: []) :=
    TwoTries.resent (by simp) rfl
  have hready : CanReceive (TwoTries.taken TwoTries.cleared 0).host.nucleus
      (TwoTries.taken TwoTries.cleared 0).host.cellet :=
    ⟨TwoFiles.canReceive.hosts, TwoFiles.canReceive.factory⟩
  have hlast : (TwoTries.upload.arrivals TwoTries.both ([.arrives (TwoTries.frame 0),
      .cache (.clear "p" "b"), .arrives (TwoTries.frame 0)] ++
        [.arrives (TwoTries.frame 1)])).getLast? = some (TwoTries.upload.count - 1) := by
    unfold Upload.arrivals
    rw [TwoTries.tries_eq]
    rfl
  have hcompleted : .completed
      { sign := "b", path := "in/b", bytes := 3, fragments := 2
        digest := Text.hex (Blake3.digest [1, 2, 3]) } ∈
      ((TwoTries.taken TwoTries.cleared 0).receives TwoTries.upload.origin
        (TwoTries.frame 1)).notices := by
    rw [TwoTries.receives_taken hready 1]
    decide +kernel
  rw [← TwoTries.past_cleared] at hcompleted ⊢
  obtain ⟨⟨written, hwritten, hmade⟩, -⟩ :=
    completed_from_last_arrivals hresent rfl hcompleted rfl
  rw [(hmade.whole hlast).1] at hwritten
  exact ⟨hresent, hwritten⟩

/-- A retry can complete the file with fragments of two tries: in the order of arrival, what is
    left of a try that was given up counts as if it had arrived now. -/
theorem retries_can_corrupt :
    ¬ ∀ (u : Upload) (attempts : List (Attempt Empty)) (start : Site Empty)
      (happenings before after : List Happening) (frame : Frame) (report : Report),
      Resent u attempts start happenings → happenings = before ++ .arrives frame :: after →
      .completed report ∈ ((start.past u.origin before).receives u.origin frame).notices →
      report.sign = u.sign →
      ((start.past u.origin before).receives u.origin frame).disk.content? report.path
        = some u.content := by
  intro hall
  have hresent : Resent TwoTries.upload TwoTries.both TwoFiles.site
      [.arrives (TwoTries.frame 0), .arrives (TwoTries.frame 0), .arrives (TwoTries.frame 1)] :=
    TwoTries.resent (by simp) rfl
  have hready : CanReceive TwoTries.begun.host.nucleus TwoTries.begun.host.cellet :=
    TwoFiles.canReceive.withReception _
  -- the first fragment arrives twice, and that is two
  have hwritten := hall TwoTries.upload TwoTries.both TwoFiles.site _
    [.arrives (TwoTries.frame 0)] [.arrives (TwoTries.frame 1)] (TwoTries.frame 0)
    { sign := "b", path := "in/b", bytes := 4, fragments := 2
      digest := Text.hex (Blake3.digest [1, 2, 1, 2]) }
    hresent rfl
  rw [TwoTries.past_begun, TwoTries.receives_taken hready 0] at hwritten
  exact absurd (hwritten (by decide +kernel) rfl) (by decide +kernel)

end Parley.Transfer
