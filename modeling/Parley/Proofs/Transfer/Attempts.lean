import Mathlib.Data.List.DropRight
import Parley.Proofs.Nucleus.Outbound
import Parley.Proofs.Transfer.Shipment

/-! # Tries at sending a file

  A file is sent, and sent again when the link has failed, by any nucleus from anywhere. A try
  leaves on its link the frames of the first fragments of the file, as many as the link took.

  So the indices that some tries leave, one after the other, never jump: right before a
  fragment of a try there are all that this try left before it (`exists_of_flatten`).
-/

namespace Parley.Transfer

/-! ## Section 1: What the tries leave on the link -/

/-- A file that a peer sends, perhaps more than once. -/
structure Upload where
  /-- The peer it comes from, for the host. -/
  origin : String
  /-- Its name. -/
  sign : String
  /-- What it holds. -/
  content : Bytes
  /-- The size of its fragments. -/
  chunkSize : UInt64

/-- A try at sending a file. -/
structure Attempt (κ : Type) where
  /-- The nucleus that sends, with its link, before it does. -/
  sender : Nucleus κ
  /-- The cellet that sends. -/
  cellet : String
  /-- The peer that it sends to. -/
  peer : String
  /-- Where the file stands. -/
  path : String
  /-- The disk on which it stands. -/
  disk : Disk

variable {κ : Type} {u : Upload}

namespace Upload

/-- The file as a try sends it. -/
def ship (u : Upload) (a : Attempt κ) : Shipment κ :=
  { sender := a.sender, cellet := a.cellet, peer := a.peer, path := a.path, disk := a.disk
    origin := u.origin, sign := u.sign, content := u.content }

/-- The size of its fragments; none counts as one. -/
def size (u : Upload) : Nat := max u.chunkSize.toNat 1

/-- How many fragments it has. -/
def count (u : Upload) : Nat := max ((u.content.length + u.size - 1) / u.size) 1

/-- A fragment of it. -/
def fragment (u : Upload) (i : Nat) : Chunk :=
  fragmentAt u.sign u.content (UInt32.ofNat u.count) u.size i

theorem count_pos (u : Upload) : 0 < u.count :=
  Nat.lt_of_lt_of_le Nat.one_pos (Nat.le_max_right _ _)

/-- A fragment of it, as it is built from what the peer sent. -/
def arrived (u : Upload) (i : Nat) : Chunk := arriving u.origin (u.fragment i)

end Upload

/-- The try is one at this file: under its name, and with its content if it can be read. -/
structure Attempt.Sends (a : Attempt κ) (u : Upload) : Prop where
  name : Path.fileName? a.path = some u.sign
  reads : ∀ length d₁ content d₂, Disk.openLength a.path a.disk = (.ok length, d₁) →
    Disk.read a.path d₁ = (.ok content, d₂) → content = u.content

variable [Content κ]

/-- The frames that each try leaves on its link. -/
def Upload.tries (u : Upload) (attempts : List (Attempt κ)) : List (List Frame) :=
  attempts.map fun a => (u.ship a).recorded u.chunkSize

/-- Whatever the nucleus and its link, a chunk that has a sign leaves its frame, or fails. -/
theorem talkDialect_frames (n : Nucleus κ) (cellet peer : String) {c : Chunk}
    (hsign : c.sign ≠ "") :
    (n.talkDialect cellet peer (.chunk c)).nucleus.link.frames
      = n.link.frames ++
        if (n.talkDialect cellet peer (.chunk c)).error = none then [frameOf κ cellet peer c]
        else [] := by
  have hprimitive : (⟨cellet, peer, .dialect (.chunk c)⟩ : Talk κ).primitive?
      = some (spoken cellet peer c) := by
    unfold Talk.primitive? Primitive.ofDialect?
    show Option.map _ (Chunk.translate? _) = _
    rw [Chunk.translate?_of_sign (by exact hsign)]
    rfl
  have hframes := (n.passage_perform ⟨cellet, peer, .dialect (.chunk c)⟩).frames
  unfold Outcome.frame? at hframes
  rw [hprimitive] at hframes
  refine hframes.trans ?_
  congr 1
  show Option.toList (if (n.talkDialect cellet peer (.chunk c)).error = none then _ else none) = _
  split <;> rfl

/-- Chunks leave the frames of the first of them, up to the one that fails. -/
theorem sendChunks_frames (n : Nucleus κ) (cellet peer : String) {chunks : List Chunk}
    (hsign : ∀ c ∈ chunks, c.sign ≠ "") :
    ∃ sent, sent <+: chunks ∧ (sendChunks cellet peer n chunks).nucleus.link.frames
      = n.link.frames ++ sent.map (frameOf κ cellet peer) := by
  -- on the chunks, for whatever nucleus the first of them finds
  induction chunks generalizing n with
  | nil => exact ⟨[], List.nil_prefix, (List.append_nil _).symm⟩
  | cons c rest ih =>
    have hframes := talkDialect_frames n cellet peer (hsign c List.mem_cons_self)
    unfold sendChunks
    dsimp only
    cases herror : (n.talkDialect cellet peer (.chunk c)).error with
    | some e =>
      rw [herror, if_neg (Option.some_ne_none e)] at hframes
      exact ⟨[], List.nil_prefix, hframes⟩
    | none =>
      obtain ⟨sent, hsent, hlater⟩ := ih (n.talkDialect cellet peer (.chunk c)).nucleus
        fun c' hmem => hsign c' (List.mem_cons_of_mem c hmem)
      rw [herror, if_pos rfl] at hframes
      refine ⟨c :: sent, List.cons_prefix_cons.2 ⟨rfl, hsent⟩, ?_⟩
      show (sendChunks cellet peer _ rest).nucleus.link.frames = _
      rw [hlater, hframes, List.append_assoc]
      rfl

/-- Sending a file sends the chunks that it was cut into. -/
theorem sendFile_nucleus (n : Nucleus κ) (cellet peer path : String) (chunkSize : Nat) (d : Disk) :
    (sendFile n cellet peer path chunkSize d).2.1 =
      match (ofFile path chunkSize d).1 with
      | .error _ => n
      | .ok file => (sendChunks cellet peer n file.chunks).nucleus := by
  unfold sendFile
  rcases ofFile path chunkSize d with ⟨e | file, d'⟩
  · rfl
  · dsimp only
    cases (sendChunks cellet peer n file.chunks).error <;> cases file.fault <;> rfl

omit [Content κ] in
/-- What a try cuts is the file, or nothing. -/
theorem Attempt.Sends.chunks {a : Attempt κ} (h : a.Sends u) {file : Fragments}
    (hfile : (ofFile a.path u.chunkSize.toNat a.disk).1 = .ok file) :
    file.chunks = [] ∨ fragments u.sign u.content u.chunkSize.toNat = .ok file := by
  unfold ofFile at hfile
  rw [h.name] at hfile
  dsimp only at hfile
  split at hfile
  · cases hfile
  · next length d₁ hopen =>
    split at hfile
    · next content d₂ hread =>
      rw [h.reads length d₁ content d₂ hopen hread] at hfile
      exact .inr hfile
    · left
      dsimp only at hfile
      cases hcount : fragmentCount length u.chunkSize.toNat with
      | error e =>
        rw [hcount] at hfile
        cases hfile
      | ok count =>
        rw [hcount] at hfile
        rw [← Except.ok.inj hfile]

/-- **A try leaves the first frames of the file**, as many as the link took; and it takes none
    if the fragments of the file cannot be counted in 32 bits. -/
theorem Attempt.Sends.recorded {a : Attempt κ} (h : a.Sends u) {i : Nat} {frame : Frame}
    (hframe : ((u.ship a).recorded u.chunkSize)[i]? = some frame) :
    i < u.count ∧ u.count < UInt32.size ∧ frame = frameOf κ a.cellet a.peer (u.fragment i) := by
  unfold Shipment.recorded Shipment.sent at hframe
  rw [sendFile_nucleus] at hframe
  dsimp only [Upload.ship] at hframe
  rcases hfile : (ofFile a.path u.chunkSize.toNat a.disk).1 with e | file
  · rw [hfile] at hframe
    simp at hframe
  · rw [hfile] at hframe
    dsimp only at hframe
    rcases h.chunks hfile with hnil | hcut
    · rw [hnil] at hframe
      simp [sendChunks] at hframe
    · obtain ⟨hchunks, hcount⟩ := fragments_eq_ok hcut
      have hcount : file.count.toNat = u.count := hcount
      have hnum : file.count = UInt32.ofNat u.count := by
        rw [← hcount, UInt32.ofNat_toNat]
      have hsigns : ∀ c ∈ file.chunks, c.sign ≠ "" := by
        intro c hc
        rw [hchunks] at hc
        obtain ⟨i, -, rfl⟩ := List.mem_map.1 hc
        exact (Path.isName_of_fileName? h.name).ne_empty
      obtain ⟨sent, hsent, hframes⟩ := sendChunks_frames a.sender a.cellet a.peer hsigns
      rw [hframes, List.drop_left, List.getElem?_map] at hframe
      obtain ⟨c, hc, rfl⟩ := Option.map_eq_some_iff.1 hframe
      -- what was sent is the beginning of what was cut
      obtain ⟨hi, rfl⟩ := List.getElem?_eq_some_iff.1 hc
      have hat := List.prefix_iff_getElem?.1 hsent i hi
      rw [hchunks, List.getElem?_map, hnum] at hat
      obtain ⟨j, hj, hfragment⟩ := Option.map_eq_some_iff.1 hat
      obtain ⟨hlt, hji⟩ := List.getElem?_eq_some_iff.1 hj
      rw [List.length_range, ← hnum, hcount] at hlt
      rw [List.getElem_range] at hji
      subst hji
      refine ⟨hlt, hcount ▸ file.count.toNat_lt, ?_⟩
      rw [← hfragment]
      rfl

/-! ## Section 2: Their order -/

/-- The indices of the fragments that some tries leave, in their order. -/
def sentIndices {α : Type} (tries : List (List α)) : List Nat :=
  tries.flatMap fun t => List.range t.length

/-- What stands at a place among all tries stands somewhere in one try, and right before it
    there is all that this try left before. -/
theorem exists_of_flatten {α : Type} {tries : List (List α)} {k : Nat} {x : α}
    (h : tries.flatten[k]? = some x) :
    ∃ t ∈ tries, ∃ i, (sentIndices tries)[k]? = some i ∧ t[i]? = some x ∧
      List.range (i + 1) <:+ (sentIndices tries).take (k + 1) := by
  induction tries generalizing k with
  | nil => cases h
  | cons t rest ih =>
    have hindices : sentIndices (t :: rest) = List.range t.length ++ sentIndices rest := rfl
    rw [List.flatten_cons] at h
    rw [hindices]
    by_cases hk : k < t.length
    · rw [List.getElem?_append_left hk] at h
      refine ⟨t, List.mem_cons_self, k, ?_, h, ?_⟩
      · rw [List.getElem?_append_left (by rwa [List.length_range]), List.getElem?_range hk]
      · have htake : (List.range t.length ++ sentIndices rest).take (k + 1) = List.range (k + 1) := by
          rw [List.take_append_of_le_length (by rw [List.length_range]; exact hk), List.take_range,
            Nat.min_eq_left hk]
        exact htake ▸ List.suffix_rfl
    · have hk : t.length ≤ k := Nat.le_of_not_lt hk
      rw [List.getElem?_append_right hk] at h
      obtain ⟨t', ht', i, hi, hx, hsuffix⟩ := ih h
      refine ⟨t', List.mem_cons_of_mem t ht', i, ?_, hx, ?_⟩
      · rw [List.getElem?_append_right (by rwa [List.length_range]), List.length_range]
        exact hi
      · have hlength : (List.range t.length).length ≤ k + 1 := by
          rw [List.length_range]
          omega
        rw [List.take_append, List.take_of_length_le hlength, List.length_range,
          Nat.sub_add_comm hk]
        exact hsuffix.trans (List.suffix_append _ _)

theorem suffix_concat {α : Type} {l all : List α} (h : l <:+ all) (x : α) :
    l ++ [x] <:+ all ++ [x] := by
  obtain ⟨front, rfl⟩ := h
  exact ⟨front, (List.append_assoc ..).symm⟩

theorem rtake_of_suffix {α : Type} {l all : List α} {n : Nat} (h : l <:+ all)
    (hlength : l.length = n) : all.rtake n = l := by
  have hdrop := List.suffix_iff_eq_drop.1 h
  rw [hlength] at hdrop
  exact hdrop.symm

/-- Right before a later fragment of a try the one before it has arrived. -/
theorem getLast?_of_range_suffix {arrivals : List Nat} {j : Nat}
    (h : List.range (j + 2) <:+ arrivals ++ [j + 1]) : arrivals.getLast? = some j := by
  obtain ⟨front, hfront⟩ := h
  rw [List.range_succ, ← List.append_assoc] at hfront
  rw [← List.append_inj_left' hfront rfl, List.range_succ, ← List.append_assoc,
    List.getLast?_concat]

end Parley.Transfer
