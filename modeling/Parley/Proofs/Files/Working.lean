import Parley.Proofs.Files.Contents

/-! # Disks that work

  On a disk that the outside world never makes fail, an operation succeeds as soon as what it
  needs is there. What has succeeded once leaves that there, so it succeeds **again**. For
  directories that are to be made this means that they are found.
-/

namespace Parley.Disk

/-- The outside world makes no operation fail. -/
def Works (d : Disk) : Prop := ∀ n, d.faults n = none

variable {d d' : Disk} {path : String} {data : Bytes} {p : List String}

theorem Works.of_faults (hworks : d.Works) (h : d'.faults = d.faults) : d'.Works := by
  intro n
  rw [h]
  exact hworks n

/-! ## Section 1: What fails stays the same -/

theorem attempt_faults {α : Type} {op : OnDisk α} (h : ∀ d, (op d).2.faults = d.faults)
    (d : Disk) : (attempt op d).2.faults = d.faults := by
  unfold attempt
  dsimp only
  split
  · rfl
  · exact h d.tick

theorem create_faults (path : String) (d : Disk) : (create path d).2.faults = d.faults := by
  refine attempt_faults (fun d => ?_) d
  split
  · rfl
  · split
    · rfl
    · split <;> rfl
    · split <;> rfl

theorem alter_faults (path : String) (change : Bytes → Bytes) (d : Disk) :
    (alter path change d).2.faults = d.faults := by
  rcases halter : alter path change d with ⟨result, d'⟩
  rcases alter_cases halter with ⟨e, -, rfl⟩ | ⟨p, dirOnly, old, -, -, rfl, -⟩
  · rfl
  · rfl

theorem sync_faults (path : String) (d : Disk) : (sync path d).2.faults = d.faults := by
  refine attempt_faults (fun d => ?_) d
  split
  · rfl
  · split <;> rfl

theorem rename_faults (source target : String) (d : Disk) :
    (rename source target d).2.faults = d.faults := by
  refine attempt_faults (fun d => ?_) d
  split
  · split
    · rfl
    · rfl
    · rfl
    · split
      · rfl
      · split <;> rfl
  · rfl
  · rfl

theorem makeDirs_faults (here cs : List String) (d : Disk) :
    (makeDirs here cs d).2.faults = d.faults := by
  induction cs generalizing here d with
  | nil => rfl
  | cons c rest ih =>
    unfold makeDirs
    split
    · exact ih _ d
    · split
      · rfl
      · dsimp only
        split
        · exact ih _ d
        · rfl
        · exact ih _ _

theorem createDirAll_faults (path : String) (d : Disk) :
    (createDirAll path d).2.faults = d.faults := by
  obtain ⟨n, hdisk⟩ := createDirAll_disk path d
  rw [hdisk]
  exact makeDirs_faults _ _ d.tick

/-! ## Section 2: What succeeds, and what has been found then -/

theorem create_of_works (hworks : d.Works) (hplace : d.place path = .ok (p, false))
    (hfree : d.node? p ≠ some .dir) : ∃ d', create path d = (.ok (), d') := by
  have htick : d.tick.place path = .ok (p, false) := (Keeps.tick d).place hplace
  have hfree' : d.tick.node? p ≠ some .dir := hfree
  unfold create
  rw [attempt_of_no_fault _ (hworks _), htick]
  dsimp only
  split
  · next hnode => exact absurd hnode hfree'
  · exact ⟨_, rfl⟩
  · exact ⟨_, rfl⟩

theorem alter_of_works (hworks : d.Works) (change : Bytes → Bytes) {dirOnly : Bool}
    (hplace : d.place path = .ok (p, dirOnly)) {old : Bytes}
    (hnode : d.node? p = some (.file old)) : ∃ d', alter path change d = (.ok (), d') := by
  obtain ⟨result, hrun, hfault⟩ := alter_of_file hplace hnode change
  exact ⟨_, by rw [hrun, hfault.2 (hworks _)]⟩

theorem sync_of_works (hworks : d.Works) {dirOnly : Bool}
    (hplace : d.place path = .ok (p, dirOnly)) (hnode : d.node? p ≠ none) :
    sync path d = (.ok (), d.tick) := by
  have htick : d.tick.place path = .ok (p, dirOnly) := (Keeps.tick d).place hplace
  have hnode' : d.tick.node? p ≠ none := hnode
  unfold sync
  rw [attempt_of_no_fault _ (hworks _), htick]
  dsimp only
  split
  · next hnone => exact absurd hnone hnode'
  · rfl

/-- Only what is there has been made sure of. -/
theorem sync_found (h : sync path d = (.ok (), d')) :
    ∃ p dirOnly, d.place path = .ok (p, dirOnly) ∧ d.node? p ≠ none := by
  have hop := attempt_ok h
  split at hop
  · cases hop
  · next p dirOnly hplace =>
    split at hop
    · cases hop
    · next node hnode =>
      have hfound : d.node? p = some node := hnode
      exact ⟨p, dirOnly, place_of_tick hplace, by rw [hfound]; exact Option.some_ne_none node⟩

theorem rename_of_works (hworks : d.Works) {source target : String} {q : List String}
    {dirOnly : Bool} (hsource : d.place source = .ok (p, dirOnly))
    (hfile : d.node? p = some (.file data)) (htarget : d.place target = .ok (q, false))
    (hfree : d.node? q ≠ some .dir) : ∃ d', rename source target d = (.ok (), d') := by
  have hfile' : d.tick.node? p = some (.file data) := hfile
  have hfree' : d.tick.node? q ≠ some .dir := hfree
  unfold rename
  rw [attempt_of_no_fault _ (hworks _), (Keeps.tick d).place hsource, (Keeps.tick d).place htarget]
  dsimp only
  rw [hfile']
  split
  · next hnone => cases hnone
  · next hdir => cases hdir
  · next hdir => exact absurd hdir hfree'
  · rw [if_neg Bool.false_ne_true]
    split <;> exact ⟨_, rfl⟩

/-! ## Section 3: Directories that have been made -/

/-- Where directories were made they are found, as long as directories stay. -/
theorem makeDirs_again {here cs : List String} (hmade : makeDirs here cs d = (.ok (), d'))
    {left : Disk} (hkeeps : d'.Keeps left) : makeDirs here cs left = (.ok (), left) := by
  induction cs generalizing here d with
  | nil => rfl
  | cons c rest ih =>
    unfold makeDirs at hmade ⊢
    split at hmade
    · next hup =>
      rw [if_pos hup]
      exact ih hmade
    · next hup =>
      rw [if_neg hup]
      split at hmade
      · cases hmade
      · next hname =>
        rw [if_neg hname]
        dsimp only at hmade ⊢
        split at hmade
        · next hdir =>
          have hgrows := makeDirs_grows (here ++ [c]) rest d
          rw [hmade] at hgrows
          rw [hkeeps.dirs _ (hgrows.nodes _ _ hdir)]
          exact ih hmade
        · cases hmade
        · have hgrows := makeDirs_grows (here ++ [c]) rest
            ((d.put (here ++ [c]) .dir).enter (.madeDir (here ++ [c])))
          rw [hmade] at hgrows
          have hput : ((d.put (here ++ [c]) .dir).enter (.madeDir (here ++ [c]))).node?
              (here ++ [c]) = some .dir := by
            show (d.put (here ++ [c]) .dir).node? (here ++ [c]) = _
            rw [node?_put (List.append_ne_nil_of_right_ne_nil _ (List.cons_ne_nil _ _)), if_pos rfl]
          rw [hkeeps.dirs _ (hgrows.nodes _ _ hput)]
          exact ih hmade

/-- **A directory that has been made is there**: to make it again changes nothing. -/
theorem createDirAll_again (hmade : createDirAll path d = (.ok (), d')) {left : Disk}
    (hkeeps : d'.Keeps left) (hworks : left.Works) :
    createDirAll path left = (.ok (), left.tick) := by
  have hgrows := createDirAll_grows path d
  rw [hmade] at hgrows
  have hstart : left.tick.start path = d.tick.start path :=
    (hgrows.keeps.trans hkeeps).start path
  have hop := attempt_ok hmade
  have hafter : d'.Keeps left.tick := hkeeps.trans (.tick left)
  unfold createDirAll
  rw [attempt_of_no_fault _ (hworks _)]
  dsimp only at hop ⊢
  rw [hstart]
  split at hop
  · cases hop
  · next hpath =>
    rw [if_neg hpath]
    split at hop
    · next hpoint =>
      rw [if_pos hpoint]
      split at hop
      · cases hop
      · next made hmakes =>
        obtain ⟨hwalk, rfl⟩ := Prod.mk.inj hop
        rw [makeDirs_again hmakes hafter]
        dsimp only
        cases hfound : made.walk (d.tick.start path) (Path.components path) with
        | error e =>
          rw [hfound] at hwalk
          cases hwalk
        | ok there =>
          rw [hafter.walk hfound]
          rfl
    · next hpoint =>
      rw [if_neg hpoint]
      exact makeDirs_again hop hafter

end Parley.Disk
