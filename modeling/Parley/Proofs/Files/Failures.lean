import Parley.Proofs.Files.Names

/-! # What operations that fail leave

  An operation that fails leaves all as it was, except that directories may have been made and
  that a part of what was to be written may have arrived. So whoever makes a file and then fails
  has touched one place only, and a removal takes back what stands there.
-/

namespace Parley.Disk

/-! ## What may have changed -/

/-- All stands as before, except under one place; directories stay. -/
structure Within (p : List String) (d d' : Disk) : Prop where
  keeps : d.Keeps d'
  others : ∀ q, q ≠ p → d'.node? q = d.node? q

/-- Every file is one that was there before. -/
def Sheds (d d' : Disk) : Prop :=
  ∀ p data, d'.node? p = some (.file data) → d.node? p = some (.file data)

variable {a b c d d' : Disk} {p : List String} {path : String} {data : Bytes} {e : Fault}

theorem Within.tick (p : List String) (d : Disk) : d.Within p d.tick where
  keeps := .tick d
  others := fun _ _ => rfl

theorem Within.trans (hab : a.Within p b) (hbc : b.Within p c) : a.Within p c where
  keeps := hab.keeps.trans hbc.keeps
  others := fun q hq => (hbc.others q hq).trans (hab.others q hq)

theorem Wrote.within (h : d.Wrote d' p data) : d.Within p d' where
  keeps := h.keeps
  others := by
    intro q hq
    rw [h.nodes, if_neg hq]

/-- A file that is removed leaves all else alone. -/
theorem Within.drop (hfile : d.node? p = some (.file data)) :
    d.Within p ((d.drop p).enter (.removed p)) := by
  have hothers : ∀ q, q ≠ p → (d.drop p).node? q = d.node? q := by
    intro q hq
    rw [node?_drop (ne_nil_of_node? (not_dir_of_file hfile)), if_neg hq]
  refine ⟨⟨rfl, fun q hdir => (hothers q ?_).trans hdir⟩, hothers⟩
  rintro rfl
  exact not_dir_of_file hfile hdir

/-- What is left alone under one place is left alone under all names but its own. -/
theorem Within.spares (h : d.Within p d') {name : String} (hlast : p.getLast? = some name) :
    Spares [name] d d' where
  keeps := h.keeps
  others := by
    intro q node hq hnames
    rw [h.others]
    · exact hq
    · rintro rfl
      exact hnames name List.mem_cons_self hlast

/-- If no file stands under the place in the end, then no file has come. -/
theorem Within.sheds (h : d.Within p d') (hnone : d'.node? p = none) : d.Sheds d' := by
  intro q data hq
  by_cases hqp : q = p
  · rw [hqp, hnone] at hq
    cases hq
  · rw [← h.others q hqp]
    exact hq

theorem Sheds.refl (d : Disk) : d.Sheds d := fun _ _ h => h

theorem Sheds.tick (d : Disk) : d.Sheds d.tick := fun _ _ h => h

theorem Sheds.trans (hab : a.Sheds b) (hbc : b.Sheds c) : a.Sheds c :=
  fun p data hp => hab p data (hbc p data hp)

/-! ## Operations that fail -/

/-- An operation that fails by itself leaves the disk alone if it does so apart from the count. -/
theorem attempt_error {α : Type} {op : OnDisk α} (h : attempt op d = (.error e, d'))
    (hop : op d.tick = (.error e, d') → d' = d.tick) : d' = d.tick := by
  rcases attempt_cases op d with hbroken | hran
  · exact (congrArg Prod.snd (h.symm.trans hbroken))
  · exact hop (hran.symm.trans h)

theorem create_error (h : create path d = (.error e, d')) : d' = d.tick := by
  refine attempt_error h fun hop => ?_
  split at hop
  · exact (Prod.mk.inj hop).2.symm
  · split at hop
    · exact (Prod.mk.inj hop).2.symm
    · split at hop <;> cases hop
      rfl
    · split at hop <;> cases hop
      rfl

/-- Writing fails before anything has arrived, or when a part has. -/
theorem write_error (h : write path data d = (.error e, d')) :
    d' = d.tick ∨
      ∃ p dirOnly n, d.place path = .ok (p, dirOnly) ∧ d.Wrote d' p (data.take n) := by
  rcases alter_cases h with ⟨-, -, htick⟩ | ⟨p, dirOnly, old, hplace, hnode, rfl, -⟩
  · exact .inl htick
  · refine .inr ⟨p, dirOnly, (d.arriving data).length, hplace, ?_⟩
    rw [← List.prefix_iff_eq_take.1 (prefix_arriving d data)]
    exact (Wrote.put (d := d.tick) (not_dir_of_file hnode) (d.arriving data)).of_tick

theorem sync_error (h : sync path d = (.error e, d')) : d' = d.tick := by
  refine attempt_error h fun hop => ?_
  split at hop
  · exact (Prod.mk.inj hop).2.symm
  · split at hop
    · exact (Prod.mk.inj hop).2.symm
    · cases hop

theorem rename_error {source target : String} (h : rename source target d = (.error e, d')) :
    d' = d.tick := by
  refine attempt_error h fun hop => ?_
  split at hop
  · split at hop
    · exact (Prod.mk.inj hop).2.symm
    · exact (Prod.mk.inj hop).2.symm
    · exact (Prod.mk.inj hop).2.symm
    · split at hop
      · exact (Prod.mk.inj hop).2.symm
      · split at hop <;> cases hop
  · exact (Prod.mk.inj hop).2.symm
  · exact (Prod.mk.inj hop).2.symm

/-! ## Removals -/

/-- A file that was removed is gone, and nothing else is. -/
theorem remove_ok (h : remove path d = (.ok (), d')) :
    ∃ p, d.place path = .ok (p, false) ∧ d.Within p d' ∧ d'.node? p = none := by
  have hop := attempt_ok h
  split at hop
  · cases hop
  · next p dirOnly hplace =>
    split at hop
    · cases hop
    · cases hop
    · next data hnode =>
      cases dirOnly with
      | true => cases hop
      | false =>
        rw [← (Prod.mk.inj hop).2]
        refine ⟨p, place_of_tick hplace, (Within.tick p d).trans (.drop hnode), ?_⟩
        exact (node?_drop (ne_nil_of_node? (not_dir_of_file hnode)) d.tick p).trans (if_pos rfl)

theorem remove_error (h : remove path d = (.error e, d')) : d' = d.tick := by
  refine attempt_error h fun hop => ?_
  split at hop
  · exact (Prod.mk.inj hop).2.symm
  · split at hop
    · exact (Prod.mk.inj hop).2.symm
    · exact (Prod.mk.inj hop).2.symm
    · split at hop <;> cases hop
      rfl

/-- A file is removed, unless the outside world makes it fail. -/
theorem remove_of_file (hplace : d.place path = .ok (p, false))
    (hnode : d.node? p = some (.file data)) (hfault : d.faults d.clock = none) :
    ∃ d', remove path d = (.ok (), d') := by
  have htick : d.tick.node? p = some (.file data) := hnode
  unfold remove
  rw [attempt_of_no_fault _ hfault, (Keeps.tick d).place hplace]
  dsimp only
  rw [htick]
  exact ⟨_, rfl⟩

/-- A removal brings no file. -/
theorem remove_sheds (path : String) (d : Disk) : d.Sheds (remove path d).2 := by
  rcases hremove : remove path d with ⟨_ | ⟨⟩, d'⟩
  · rw [remove_error hremove]
    exact .tick d
  · obtain ⟨p, -, hwithin, hnone⟩ := remove_ok hremove
    exact hwithin.sheds hnone

/-- A removal leaves alone what stands under other names. -/
theorem remove_spares {dir name : String} (hname : Path.IsName name) (d : Disk) :
    Spares [name] d (remove (Path.join dir name) d).2 := by
  rcases hremove : remove (Path.join dir name) d with ⟨_ | ⟨⟩, d'⟩
  · rw [remove_error hremove]
    exact .tick [name] d
  · obtain ⟨p, hplace, hwithin, -⟩ := remove_ok hremove
    exact hwithin.spares (place_join hname hplace)

end Parley.Disk
