import Parley.Files.Disk

/-! # What operations do to a disk

  An operation that succeeds changes what stands under one place, or moves it to
  another; **directories stay where they are**. So a path that leads to a place
  still leads there afterwards, and what an operation put there is found by the
  next one.
-/

namespace Parley.Disk

/-! ## Nodes -/

theorem lookup_filter_ne {entries : List (List String × Node)} {p q : List String} (h : q ≠ p) :
    (entries.filter fun n => n.1 ≠ p).lookup q = entries.lookup q := by
  induction entries with
  | nil => rfl
  | cons head rest ih =>
    obtain ⟨k, v⟩ := head
    by_cases hk : k = p
    · have hqk : (q == k) = false := beq_eq_false_iff_ne.2 (hk ▸ h)
      simpa [hk, List.lookup_cons, hqk, beq_eq_false_iff_ne.2 h] using ih
    · cases hqk : q == k
      · simpa [hk, List.lookup_cons, hqk] using ih
      · simp [hk, List.lookup_cons, hqk]

theorem lookup_filter_self (entries : List (List String × Node)) (p : List String) :
    (entries.filter fun n => n.1 ≠ p).lookup p = none := by
  rw [List.lookup_eq_none_iff]
  intro n hn
  have hne := (List.mem_filter.1 hn).2
  simpa using fun h : p = n.1 => (of_decide_eq_true hne) h.symm

theorem node?_put {p : List String} (hp : p ≠ []) (d : Disk) (node : Node) (q : List String) :
    (d.put p node).node? q = if q = p then some node else d.node? q := by
  unfold node? put
  by_cases hq : q = p
  · simp [hq, hp]
  · have hbeq : (q == p) = false := beq_eq_false_iff_ne.2 hq
    simp only [List.lookup_cons, hbeq, if_neg hq, lookup_filter_ne hq]

theorem node?_drop {p : List String} (hp : p ≠ []) (d : Disk) (q : List String) :
    (d.drop p).node? q = if q = p then none else d.node? q := by
  unfold node? drop
  by_cases hq : q = p
  · simp only [hq, if_neg hp, if_true, lookup_filter_self]
  · simp only [if_neg hq, lookup_filter_ne hq]

theorem ne_nil_of_node? {d : Disk} {p : List String} (h : d.node? p ≠ some .dir) : p ≠ [] := by
  rintro rfl
  exact h rfl

/-- Where a file stands, no directory does. -/
theorem not_dir_of_file {d : Disk} {p : List String} {data : Bytes}
    (h : d.node? p = some (.file data)) : d.node? p ≠ some .dir := by
  rw [h]
  nofun

/-! ## Kept directories -/

/-- Directories stay where they are, and paths start where they did. -/
structure Keeps (d d' : Disk) : Prop where
  here : d'.here = d.here
  dirs : ∀ p, d.node? p = some .dir → d'.node? p = some .dir

namespace Keeps

variable {a b c : Disk}

theorem refl (a : Disk) : a.Keeps a := ⟨rfl, fun _ h => h⟩

theorem trans (hab : a.Keeps b) (hbc : b.Keeps c) : a.Keeps c :=
  ⟨hbc.here.trans hab.here, fun p hp => hbc.dirs p (hab.dirs p hp)⟩

theorem start (h : a.Keeps b) (path : String) : b.start path = a.start path := by
  unfold Disk.start
  rw [h.here]

/-- Components lead where they led. -/
theorem walk (h : a.Keeps b) {here there : List String} {cs : List String}
    (hwalk : a.walk here cs = .ok there) : b.walk here cs = .ok there := by
  induction cs generalizing here with
  | nil => exact hwalk
  | cons c rest ih =>
    unfold Disk.walk at hwalk ⊢
    by_cases hup : c = ".."
    · rw [if_pos hup] at hwalk ⊢
      exact ih hwalk
    · rw [if_neg hup] at hwalk ⊢
      by_cases hname : isName c = false
      · rw [if_pos hname] at hwalk
        cases hwalk
      · rw [if_neg hname] at hwalk ⊢
        -- only a directory lets the walk go on
        cases hnode : a.node? (here ++ [c]) with
        | none =>
          rw [hnode] at hwalk
          cases hwalk
        | some node =>
          rw [hnode] at hwalk
          cases node with
          | file data => cases hwalk
          | dir =>
            rw [h.dirs _ hnode]
            exact ih hwalk

/-- A path leads where it led. -/
theorem place (h : a.Keeps b) {path : String} {found : List String × Bool}
    (hplace : a.place path = .ok found) : b.place path = .ok found := by
  unfold Disk.place at hplace ⊢
  dsimp only at hplace ⊢
  rw [h.start]
  split at hplace
  · cases hplace
  · next hpath =>
    rw [if_neg hpath]
    split at hplace
    · cases hplace
    · next hempty =>
      rw [if_neg hempty]
      cases hlast : (Path.components path).getLast? with
      | none =>
        rw [hlast] at hplace
        exact hplace
      | some last =>
        rw [hlast] at hplace
        dsimp only at hplace ⊢
        split at hplace
        · next hup =>
          rw [if_pos hup]
          cases hwalk : a.walk (a.start path) (Path.components path) with
          | error e =>
            rw [hwalk] at hplace
            cases hplace
          | ok there =>
            rw [hwalk] at hplace
            rw [h.walk hwalk]
            exact hplace
        · next hup =>
          rw [if_neg hup]
          cases hwalk : a.walk (a.start path) (Path.components path).dropLast with
          | error e =>
            rw [hwalk] at hplace
            cases hplace
          | ok there =>
            rw [hwalk] at hplace
            rw [h.walk hwalk]
            exact hplace

end Keeps

/-! ## Written files -/

/-- All stands as before, but for a file under one place. -/
structure Wrote (d d' : Disk) (p : List String) (data : Bytes) : Prop where
  here : d'.here = d.here
  free : d.node? p ≠ some .dir
  nodes : ∀ q, d'.node? q = if q = p then some (.file data) else d.node? q

/-- A file that is put under a place is written there. -/
theorem Wrote.put {d : Disk} {p : List String} (hfree : d.node? p ≠ some .dir) (data : Bytes) :
    d.Wrote ((d.put p (.file data)).enter (.wrote p data)) p data :=
  ⟨rfl, hfree, node?_put (ne_nil_of_node? hfree) d (.file data)⟩

theorem Wrote.keeps {d d' : Disk} {p : List String} {data : Bytes} (h : d.Wrote d' p data) :
    d.Keeps d' where
  here := h.here
  dirs := by
    intro q hq
    rw [h.nodes]
    split
    · next heq =>
      subst heq
      exact absurd hq h.free
    · exact hq

/-- All stands as before, but for a file that was moved from one place to another. -/
structure Moved (d d' : Disk) (p q : List String) (data : Bytes) : Prop where
  here : d'.here = d.here
  source : d.node? p = some (.file data)
  free : d.node? q ≠ some .dir
  nodes : ∀ r, d'.node? r
    = if r = q then some (.file data) else if r = p then none else d.node? r

/-- A file that is taken from one place and put under another is moved. -/
theorem Moved.put {d : Disk} {p q : List String} {data : Bytes}
    (hfile : d.node? p = some (.file data)) (hfree : d.node? q ≠ some .dir) :
    d.Moved (((d.drop p).put q (.file data)).enter (.renamed p q)) p q data := by
  refine ⟨rfl, hfile, hfree, fun r => ?_⟩
  show ((d.drop p).put q (.file data)).node? r = _
  rw [node?_put (ne_nil_of_node? hfree), node?_drop (ne_nil_of_node? (not_dir_of_file hfile))]

theorem Moved.keeps {d d' : Disk} {p q : List String} {data : Bytes} (h : d.Moved d' p q data) :
    d.Keeps d' where
  here := h.here
  dirs := by
    intro r hr
    rw [h.nodes]
    split
    · next heq =>
      subst heq
      exact absurd hr h.free
    · split
      · next heq =>
        subst heq
        rw [h.source] at hr
        cases hr
      · exact hr

/-- Nothing that stood there has gone or changed. -/
structure Grows (d d' : Disk) : Prop where
  here : d'.here = d.here
  nodes : ∀ p node, d.node? p = some node → d'.node? p = some node

theorem Grows.refl (d : Disk) : d.Grows d := ⟨rfl, fun _ _ h => h⟩

theorem Grows.trans {a b c : Disk} (hab : a.Grows b) (hbc : b.Grows c) : a.Grows c :=
  ⟨hbc.here.trans hab.here, fun p node hp => hbc.nodes p node (hab.nodes p node hp)⟩

theorem Grows.keeps {d d' : Disk} (h : d.Grows d') : d.Keeps d' := ⟨h.here, fun p => h.nodes p .dir⟩

/-! ## Operations that succeed -/

section

variable {α : Type} {d d' : Disk} {path : String} {data : Bytes}

/-- The disk with one more operation counted. -/
def tick (d : Disk) : Disk := { d with clock := d.clock + 1 }

theorem Keeps.tick (d : Disk) : d.Keeps d.tick := ⟨rfl, fun _ h => h⟩

theorem Wrote.of_tick {p : List String} (h : d.tick.Wrote d' p data) : d.Wrote d' p data :=
  ⟨h.here, h.free, h.nodes⟩

theorem Moved.of_tick {p q : List String} (h : d.tick.Moved d' p q data) : d.Moved d' p q data :=
  ⟨h.here, h.source, h.free, h.nodes⟩

theorem place_of_tick {found : List String × Bool} (h : d.tick.place path = .ok found) :
    d.place path = .ok found := by
  have hback : d.tick.Keeps d := ⟨rfl, fun _ hdir => hdir⟩
  exact hback.place h

/-- A path leads to one place. -/
theorem place_inj {p q : List String} {dirOnly dirOnly' : Bool}
    (h : d.place path = .ok (p, dirOnly)) (h' : d.place path = .ok (q, dirOnly')) : p = q :=
  congrArg Prod.fst (Except.ok.inj (h.symm.trans h'))

theorem attempt_ok {op : OnDisk α} {a : α} (h : attempt op d = (.ok a, d')) :
    op d.tick = (.ok a, d') := by
  unfold attempt at h
  dsimp only at h
  split at h
  · cases h
  · exact h

theorem attempt_cases {α : Type} (op : OnDisk α) (d : Disk) :
    attempt op d = (.error .broken, d.tick) ∨ attempt op d = op d.tick := by
  unfold attempt
  cases d.faults d.clock with
  | some n => exact .inl rfl
  | none => exact .inr rfl

theorem attempt_of_no_fault (op : OnDisk α) (h : d.faults d.clock = none) :
    attempt op d = op d.tick := by
  unfold attempt
  rw [h]
  rfl

theorem create_ok (h : create path d = (.ok (), d')) :
    ∃ p, d.place path = .ok (p, false) ∧ d.Wrote d' p [] := by
  have hop := attempt_ok h
  split at hop
  · cases hop
  · next p dirOnly hplace =>
    -- a file that is there is emptied just as a new one is made
    have hput : ∀ hfree : d.tick.node? p ≠ some .dir,
        (.ok (), (d.tick.put p (.file [])).enter (.wrote p []))
          = ((.ok (), d') : Except Fault Unit × Disk) → d.Wrote d' p [] := by
      intro hfree heq
      rw [← (Prod.mk.inj heq).2]
      exact (Wrote.put hfree []).of_tick
    split at hop
    · cases hop
    · next old hnode =>
      cases dirOnly with
      | true => cases hop
      | false => exact ⟨p, place_of_tick hplace, hput (not_dir_of_file hnode) hop⟩
    · next hnode =>
      cases dirOnly with
      | true => cases hop
      | false => exact ⟨p, place_of_tick hplace, hput (by rw [hnode]; nofun) hop⟩

/-- A file that is there is changed, whether or not this is made to fail. -/
theorem alter_of_file {p : List String} {dirOnly : Bool} {old : Bytes}
    (hplace : d.place path = .ok (p, dirOnly)) (hnode : d.node? p = some (.file old))
    (change : Bytes → Bytes) :
    ∃ result, alter path change d =
        (result, (d.tick.put p (.file (change old))).enter (.wrote p (change old))) ∧
      (result = .ok () ↔ d.faults d.clock = none) := by
  unfold alter
  rw [hplace]
  dsimp only
  rw [hnode]
  cases hfault : d.faults d.clock with
  | none => exact ⟨.ok (), rfl, fun _ => rfl, fun _ => rfl⟩
  | some n => exact ⟨.error .broken, rfl, nofun, nofun⟩

/-- Where no file is, nothing is changed. -/
theorem alter_cases {change : Bytes → Bytes} {result : Except Fault Unit}
    (h : alter path change d = (result, d')) :
    (∃ e, result = .error e ∧ d' = d.tick) ∨
    ∃ p dirOnly old, d.place path = .ok (p, dirOnly) ∧ d.node? p = some (.file old) ∧
      d' = (d.tick.put p (.file (change old))).enter (.wrote p (change old)) ∧
      (result = .ok () ↔ d.faults d.clock = none) := by
  cases hplace : d.place path with
  | error e =>
    unfold alter at h
    rw [hplace] at h
    exact .inl ⟨e, (Prod.mk.inj h).1.symm, (Prod.mk.inj h).2.symm⟩
  | ok found =>
    obtain ⟨p, dirOnly⟩ := found
    rcases hnode : d.node? p with _ | ⟨old⟩ | _
    · unfold alter at h
      rw [hplace] at h
      dsimp only at h
      rw [hnode] at h
      exact .inl ⟨_, (Prod.mk.inj h).1.symm, (Prod.mk.inj h).2.symm⟩
    · obtain ⟨result', hrun, hfault⟩ := alter_of_file hplace hnode change
      obtain ⟨rfl, rfl⟩ := Prod.mk.inj (hrun.symm.trans h)
      exact .inr ⟨p, dirOnly, old, rfl, hnode, rfl, hfault⟩
    · unfold alter at h
      rw [hplace] at h
      dsimp only at h
      rw [hnode] at h
      exact .inl ⟨_, (Prod.mk.inj h).1.symm, (Prod.mk.inj h).2.symm⟩

/-- All bytes arrive of a write that is not made to fail. -/
theorem arriving_of_no_fault (h : d.faults d.clock = none) (data : Bytes) :
    d.arriving data = data := by
  unfold arriving
  rw [h]

/-- Of every write a beginning arrives. -/
theorem prefix_arriving (d : Disk) (data : Bytes) : d.arriving data <+: data := by
  unfold arriving
  split
  · exact List.prefix_rfl
  · exact List.take_prefix _ data

theorem write_ok (h : write path data d = (.ok (), d')) :
    ∃ p dirOnly, d.place path = .ok (p, dirOnly) ∧ d.Wrote d' p data := by
  rcases alter_cases h with ⟨e, hresult, -⟩ | ⟨p, dirOnly, old, hplace, hnode, rfl, hfault⟩
  · cases hresult
  · refine ⟨p, dirOnly, hplace, ?_⟩
    rw [arriving_of_no_fault (hfault.1 rfl)]
    exact (Wrote.put (d := d.tick) (not_dir_of_file hnode) data).of_tick

theorem sync_ok (h : sync path d = (.ok (), d')) : d' = d.tick := by
  have hop := attempt_ok h
  split at hop
  · cases hop
  · split at hop
    · cases hop
    · exact (Prod.mk.inj hop).2.symm

theorem rename_ok {source target : String} (h : rename source target d = (.ok (), d')) :
    ∃ p dirOnly q file, d.place source = .ok (p, dirOnly) ∧ d.place target = .ok (q, false) ∧
      d.Moved d' p q file := by
  have hop := attempt_ok h
  split at hop
  · next p sourceDir q dirOnly hsource htarget =>
    split at hop
    · cases hop
    · cases hop
    · cases hop
    · next file hp hq =>
      cases dirOnly with
      | true => cases hop
      | false =>
        refine ⟨p, sourceDir, q, file, place_of_tick hsource, place_of_tick htarget, ?_⟩
        rw [if_neg Bool.false_ne_true] at hop
        split at hop
        · next hpq =>
          -- a file that is moved to where it is stays there
          subst hpq
          rw [← (Prod.mk.inj hop).2]
          refine ⟨rfl, hp, hq, fun r => ?_⟩
          split
          · next hr =>
            subst hr
            exact hp
          · rfl
        · rw [← (Prod.mk.inj hop).2]
          exact (Moved.put hp hq).of_tick
  · cases hop
  · cases hop

theorem makeDirs_grows (here cs : List String) (d : Disk) : d.Grows (makeDirs here cs d).2 := by
  induction cs generalizing here d with
  | nil => exact Grows.refl d
  | cons c rest ih =>
    unfold makeDirs
    split
    · exact ih _ d
    · split
      · exact Grows.refl d
      · dsimp only
        split
        · exact ih _ d
        · exact Grows.refl d
        · next hnode =>
          -- a directory is made only where nothing stands
          have hne : here ++ [c] ≠ [] := List.append_ne_nil_of_right_ne_nil _ (List.cons_ne_nil _ _)
          have hput : d.Grows ((d.put (here ++ [c]) .dir).enter (.madeDir (here ++ [c]))) := by
            refine ⟨rfl, fun q node hq => ?_⟩
            show (d.put (here ++ [c]) .dir).node? q = some node
            rw [node?_put hne]
            split
            · next heq =>
              rw [heq, hnode] at hq
              cases hq
            · exact hq
          exact hput.trans (ih _ _)

/-- Making a directory makes those that its first components lead through, up to some number of
    them. -/
theorem createDirAll_disk (dir : String) (d : Disk) :
    ∃ n, (createDirAll dir d).2 =
      (makeDirs (d.tick.start dir) ((Path.components dir).take n) d.tick).2 := by
  rcases attempt_cases _ d with hbroken | hran
  · exact ⟨0, by rw [createDirAll, hbroken]; rfl⟩
  · rw [createDirAll, hran]
    dsimp only
    split
    · exact ⟨0, rfl⟩
    · split
      · refine ⟨(Path.components dir).length - 1, ?_⟩
        rw [← List.dropLast_eq_take]
        split <;> next hmade => rw [hmade]
      · exact ⟨(Path.components dir).length, by rw [List.take_length]⟩

/-- Making directories leaves all there is. -/
theorem createDirAll_grows (path : String) (d : Disk) : d.Grows (createDirAll path d).2 := by
  have htick : d.Grows d.tick := ⟨rfl, fun _ _ h => h⟩
  obtain ⟨n, hdisk⟩ := createDirAll_disk path d
  rw [hdisk]
  exact htick.trans (makeDirs_grows _ _ d.tick)

/-! ## Contents -/

/-- The content of the file that a path leads to. -/
def content? (d : Disk) (path : String) : Option Bytes :=
  match d.place path with
  | .ok (p, false) =>
    match d.node? p with
    | some (.file data) => some data
    | _ => none
  | _ => none

theorem content?_eq_some_iff :
    d.content? path = some data ↔
      ∃ p, d.place path = .ok (p, false) ∧ d.node? p = some (.file data) := by
  unfold content?
  constructor
  · intro h
    split at h
    · next p hplace =>
      split at h
      · next old hnode => exact ⟨p, hplace, by rw [hnode, Option.some.inj h]⟩
      · cases h
    · cases h
  · rintro ⟨p, hplace, hnode⟩
    rw [hplace]
    dsimp only
    rw [hnode]

/-- **What a path holds is what reading gives**, unless the outside world makes it fail. Reading
    changes nothing. -/
theorem read_of_content? (h : d.content? path = some data) (hfault : d.faults d.clock = none) :
    read path d = (.ok data, d.tick) := by
  obtain ⟨p, hplace, hnode⟩ := content?_eq_some_iff.1 h
  have htick : d.tick.node? p = some (.file data) := hnode
  unfold read
  rw [attempt_of_no_fault _ hfault, (Keeps.tick d).place hplace]
  dsimp only
  rw [htick]
  rfl

end

end Parley.Disk
