import Parley.Proofs.Files.Failures

/-! # Which places an operation touches

  An operation on a path touches the place that the path leads to, and no other: what stands
  elsewhere stays, and the journal tells of no other place. This holds **whatever comes of the
  operation**, so it adds up over operations of which each can fail.

  Making a directory is told apart. It makes directories that were missing, on the way to that
  directory, and nothing else.
-/

namespace Parley

/-- The places that a change is about. -/
def Change.places : Change → List (List String)
  | .madeDir p => [p]
  | .wrote p _ => [p]
  | .renamed p q => [p, q]
  | .removed p => [p]

namespace Disk

/-! ## Section 1: Touched places -/

/-- What the journal has been told since then are changes of some kind. -/
def Enters (kind : Change → Prop) (d d' : Disk) : Prop :=
  ∃ changes, d'.journal = d.journal ++ changes ∧ ∀ change ∈ changes, kind change

namespace Enters

variable {kind wider : Change → Prop} {a b c : Disk}

theorem of_journal_eq (h : b.journal = a.journal) : a.Enters kind b :=
  ⟨[], by rw [h, List.append_nil], nofun⟩

theorem of_enter {change : Change} (h : kind change) (hjournal : b.journal = a.journal ++ [change]) :
    a.Enters kind b :=
  ⟨[change], hjournal, fun _ hmem => List.mem_singleton.1 hmem ▸ h⟩

theorem trans (hab : a.Enters kind b) (hbc : b.Enters kind c) : a.Enters kind c := by
  obtain ⟨first, hfirst, hleft⟩ := hab
  obtain ⟨second, hsecond, hright⟩ := hbc
  refine ⟨first ++ second, by rw [hsecond, hfirst, List.append_assoc], fun change hmem => ?_⟩
  exact (List.mem_append.1 hmem).elim (hleft change) (hright change)

theorem mono (hkind : ∀ change, kind change → wider change) (h : a.Enters kind b) :
    a.Enters wider b := by
  obtain ⟨changes, happend, hall⟩ := h
  exact ⟨changes, happend, fun change hmem => hkind change (hall change hmem)⟩

end Enters

/-- Only some places were touched; directories stay. -/
structure Touches (P : List String → Prop) (d d' : Disk) : Prop where
  keeps : d.Keeps d'
  /-- What stands elsewhere is as it was. -/
  others : ∀ q, ¬ P q → d'.node? q = d.node? q
  /-- Every change since then is about these places. -/
  journal : d.Enters (fun change => ∀ q ∈ change.places, P q) d'

theorem Touches.refl (P : List String → Prop) (d : Disk) : d.Touches P d where
  keeps := .refl d
  others := fun _ _ => rfl
  journal := .of_journal_eq rfl

/-- Only files were touched, under some places: no directory has come. The outside world makes fail
    what it made fail. -/
structure TouchesFiles (P : List String → Prop) (d d' : Disk) : Prop extends d.Touches P d' where
  dirs : ∀ q, d'.node? q = some .dir → d.node? q = some .dir
  faults : d'.faults = d.faults

namespace TouchesFiles

variable {P Q : List String → Prop} {a b c d : Disk} {p q : List String} {data : Bytes}

theorem refl (P : List String → Prop) (d : Disk) : d.TouchesFiles P d where
  toTouches := .refl P d
  dirs := fun _ h => h
  faults := rfl

theorem tick (P : List String → Prop) (d : Disk) : d.TouchesFiles P d.tick where
  keeps := .tick d
  others := fun _ _ => rfl
  journal := .of_journal_eq rfl
  dirs := fun _ h => h
  faults := rfl

theorem trans (hab : a.TouchesFiles P b) (hbc : b.TouchesFiles P c) : a.TouchesFiles P c where
  keeps := hab.keeps.trans hbc.keeps
  others := fun q hq => (hbc.others q hq).trans (hab.others q hq)
  journal := hab.journal.trans hbc.journal
  dirs := fun q hq => hab.dirs q (hbc.dirs q hq)
  faults := hbc.faults.trans hab.faults

theorem mono (hPQ : ∀ q, P q → Q q) (h : a.TouchesFiles P b) : a.TouchesFiles Q b where
  keeps := h.keeps
  others := fun q hq => h.others q fun hp => hq (hPQ q hp)
  journal := h.journal.mono fun _ hplaces q hmem => hPQ q (hplaces q hmem)
  dirs := h.dirs
  faults := h.faults

theorem of_within (hp : P p) (h : a.Within p b) (hfree : b.node? p ≠ some .dir)
    (hfaults : b.faults = a.faults) {change : Change} (hplaces : change.places = [p])
    (hjournal : b.journal = a.journal ++ [change]) : a.TouchesFiles P b where
  keeps := h.keeps
  others := by
    intro q hq
    apply h.others
    rintro rfl
    exact hq hp
  journal := by
    refine .of_enter (fun q hmem => ?_) hjournal
    rw [hplaces, List.mem_singleton] at hmem
    rw [hmem]
    exact hp
  dirs := by
    intro q hdir
    rw [← h.others q]
    · exact hdir
    · rintro rfl
      exact hfree hdir
  faults := hfaults

/-- A file that is written touches its place. -/
theorem wrote (hp : P p) (hfree : d.node? p ≠ some .dir) :
    d.TouchesFiles P ((d.put p (.file data)).enter (.wrote p data)) := by
  have hwrote := Wrote.put hfree data
  refine of_within hp hwrote.within ?_ rfl rfl rfl
  rw [hwrote.nodes, if_pos rfl]
  nofun

/-- A file that is removed touches its place. -/
theorem removed (hp : P p) (hfile : d.node? p = some (.file data)) :
    d.TouchesFiles P ((d.drop p).enter (.removed p)) := by
  have hnone : ((d.drop p).enter (.removed p)).node? p = none :=
    (node?_drop (ne_nil_of_node? (not_dir_of_file hfile)) d p).trans (if_pos rfl)
  refine of_within hp (.drop hfile) ?_ rfl rfl rfl
  rw [hnone]
  nofun

/-- A file that is moved touches its place and the one it is moved to. -/
theorem moved (hp : P p) (hq : P q) (hfile : d.node? p = some (.file data))
    (hfree : d.node? q ≠ some .dir) :
    d.TouchesFiles P (((d.drop p).put q (.file data)).enter (.renamed p q)) := by
  have hmoved := Moved.put hfile hfree
  refine { keeps := hmoved.keeps, others := ?_, journal := ?_, dirs := ?_, faults := rfl }
  · intro r hr
    rw [hmoved.nodes, if_neg, if_neg]
    · rintro rfl
      exact hr hp
    · rintro rfl
      exact hr hq
  · refine .of_enter ?_ rfl
    simp [Change.places, hp, hq]
  · intro r hdir
    rw [hmoved.nodes] at hdir
    split at hdir
    · cases hdir
    · split at hdir
      · cases hdir
      · exact hdir

end TouchesFiles

/-! ## Section 2: Operations -/

section

variable {P : List String → Prop} {path : String} {d : Disk}

/-- What is counted, and may fail for that, touches what it touches otherwise. -/
theorem attempt_touches {α : Type} {op : OnDisk α} (h : d.tick.TouchesFiles P (op d.tick).2) :
    d.TouchesFiles P (attempt op d).2 := by
  rcases attempt_cases op d with hbroken | hran
  · rw [hbroken]
    exact .tick P d
  · rw [hran]
    exact (TouchesFiles.tick P d).trans h

theorem create_touches (hp : ∀ q dirOnly, d.place path = .ok (q, dirOnly) → P q) :
    d.TouchesFiles P (create path d).2 := by
  refine attempt_touches ?_
  split
  · exact .refl P _
  · next q dirOnly hplace =>
    have hq := hp q dirOnly (place_of_tick hplace)
    split
    · exact .refl P _
    · next hnode =>
      split
      · exact .refl P _
      · exact .wrote hq (not_dir_of_file hnode)
    · next hnode =>
      split
      · exact .refl P _
      · exact .wrote hq (by rw [hnode]; nofun)

theorem alter_touches (change : Bytes → Bytes)
    (hp : ∀ q dirOnly, d.place path = .ok (q, dirOnly) → P q) :
    d.TouchesFiles P (alter path change d).2 := by
  rcases halter : alter path change d with ⟨result, d'⟩
  rcases alter_cases halter with ⟨e, -, rfl⟩ | ⟨p, dirOnly, old, hplace, hnode, rfl, -⟩
  · exact .tick P d
  · have hfree : d.tick.node? p ≠ some .dir := not_dir_of_file hnode
    exact (TouchesFiles.tick P d).trans (.wrote (hp p dirOnly hplace) hfree)

theorem rename_touches {source target : String}
    (hsource : ∀ q dirOnly, d.place source = .ok (q, dirOnly) → P q)
    (htarget : ∀ q dirOnly, d.place target = .ok (q, dirOnly) → P q) :
    d.TouchesFiles P (rename source target d).2 := by
  refine attempt_touches ?_
  split
  · next p sourceDir q dirOnly hplace hplace' =>
    have hp := hsource p sourceDir (place_of_tick hplace)
    have hq := htarget q dirOnly (place_of_tick hplace')
    split
    · exact .refl P _
    · exact .refl P _
    · exact .refl P _
    · next hfile hfree =>
      split
      · exact .refl P _
      · split
        · exact .refl P _
        · exact .moved hp hq hfile hfree
  · exact .refl P _
  · exact .refl P _

theorem remove_touches (hp : ∀ q dirOnly, d.place path = .ok (q, dirOnly) → P q) :
    d.TouchesFiles P (remove path d).2 := by
  refine attempt_touches ?_
  split
  · exact .refl P _
  · next q dirOnly hplace =>
    split
    · exact .refl P _
    · exact .refl P _
    · next hfile =>
      split
      · exact .refl P _
      · exact .removed (hp q dirOnly (place_of_tick hplace)) hfile

end

/-! ## Section 3: The way to a directory -/

/-- The first components of a path lead to a directory: one that the path passes, or its end. -/
def Passes (d : Disk) (dir : String) (p : List String) : Prop :=
  ∃ k, d.walk (d.start dir) ((Path.components dir).take k) = .ok p

/-- Directories were made on the way where nothing stood, and nothing else has happened. -/
structure Opens (way : List String → Prop) (d d' : Disk) : Prop where
  here : d'.here = d.here
  /-- What stands at a place is as it was, or it is a directory where nothing stood. -/
  nodes : ∀ q, d'.node? q = d.node? q ∨
    d.node? q = none ∧ d'.node? q = some .dir ∧ way q
  /-- Every change since then is that such a directory was made. -/
  journal : d.Enters (fun change => ∃ q, change = .madeDir q ∧ d.node? q = none ∧ way q) d'

variable {a b c d d' : Disk} {way : List String → Prop} {dir : String} {home p : List String}

theorem Opens.refl (way : List String → Prop) (d : Disk) : d.Opens way d where
  here := rfl
  nodes := fun _ => .inl rfl
  journal := .of_journal_eq rfl

theorem Opens.tick (way : List String → Prop) (d : Disk) : d.Opens way d.tick where
  here := rfl
  nodes := fun _ => .inl rfl
  journal := .of_journal_eq rfl

theorem Opens.mono {wider : List String → Prop} (hway : ∀ q, way q → wider q)
    (h : a.Opens way b) : a.Opens wider b where
  here := h.here
  nodes := fun q => (h.nodes q).imp_right fun ⟨hnone, hdir, hq⟩ => ⟨hnone, hdir, hway q hq⟩
  journal := h.journal.mono fun _ ⟨q, hmade, hnone, hq⟩ => ⟨q, hmade, hnone, hway q hq⟩

theorem Opens.grows (h : a.Opens way b) : a.Grows b where
  here := h.here
  nodes := by
    intro q node hq
    rcases h.nodes q with hsame | ⟨hnone, -⟩
    · exact hsame.trans hq
    · cases hnone.symm.trans hq

/-- A directory that is made is no file. -/
theorem Opens.sheds (h : a.Opens way b) : a.Sheds b := by
  intro q data hq
  rcases h.nodes q with hsame | ⟨-, hdir, -⟩
  · exact hsame.symm.trans hq
  · cases hdir.symm.trans hq

theorem Opens.trans (hab : a.Opens way b) (hbc : b.Opens way c) : a.Opens way c where
  here := hbc.here.trans hab.here
  nodes := by
    intro q
    rcases hab.nodes q with hsame | ⟨hnone, hdir, hq⟩
    · rw [← hsame]
      exact hbc.nodes q
    · exact .inr ⟨hnone, hbc.grows.nodes q .dir hdir, hq⟩
  journal := by
    refine hab.journal.trans (hbc.journal.mono ?_)
    -- where nothing stands in between, nothing stood before
    rintro change ⟨q, hmade, hnone, hq⟩
    refine ⟨q, hmade, Option.eq_none_iff_forall_ne_some.2 fun node hnode => ?_, hq⟩
    cases hnone.symm.trans (hab.grows.nodes q node hnode)

/-- A directory that is made where nothing stands. -/
theorem Opens.made (hway : way p) (hnone : d.node? p = none) :
    d.Opens way ((d.put p .dir).enter (.madeDir p)) where
  here := rfl
  nodes := by
    intro q
    have hne : p ≠ [] := ne_nil_of_node? (d := d) (by rw [hnone]; nofun)
    have hput : ((d.put p .dir).enter (.madeDir p)).node? q = _ := node?_put hne d .dir q
    rw [hput]
    split
    · next heq =>
      subst heq
      exact .inr ⟨hnone, rfl, hway⟩
    · exact .inl rfl
  journal := .of_enter ⟨p, rfl, hnone, hway⟩ rfl

/-- A walk goes up where it says so. -/
theorem walk_up (here rest : List String) :
    d.walk here (".." :: rest) = d.walk here.dropLast rest := by
  rw [walk, if_pos rfl]

/-- A walk goes on through a directory. -/
theorem walk_down {here rest : List String} {name : String} (hup : name ≠ "..")
    (hname : isName name ≠ false) (hdir : d.node? (here ++ [name]) = some .dir) :
    d.walk here (name :: rest) = d.walk (here ++ [name]) rest := by
  rw [walk, if_neg hup, if_neg hname, hdir]

/-- A directory that was made is there. -/
theorem node?_made (here : List String) (name : String) (d : Disk) :
    ((d.put (here ++ [name]) .dir).enter (.madeDir (here ++ [name]))).node? (here ++ [name])
      = some .dir :=
  (node?_put (List.append_ne_nil_of_right_ne_nil here (List.cons_ne_nil name [])) d .dir _).trans
    (if_pos rfl)

/-- **What is made lies on the way**: directories are made where the first components lead, in
    the end. -/
theorem makeDirs_opens (here cs : List String) (d : Disk) :
    d.Opens (fun q => ∃ k, (makeDirs here cs d).2.walk here (cs.take k) = .ok q)
      (makeDirs here cs d).2 := by
  induction cs generalizing here d with
  | nil => exact .refl _ d
  | cons name rest ih =>
    unfold makeDirs
    split
    · next hup =>
      subst hup
      refine (ih here.dropLast d).mono ?_
      rintro q ⟨k, hk⟩
      refine ⟨k + 1, ?_⟩
      rw [List.take_succ_cons, walk_up]
      exact hk
    · next hup =>
      split
      · exact .refl _ d
      · next hname =>
        dsimp only
        -- the rest is made below the directory of the first component
        have hbelow : ∀ d₁ : Disk, d₁.node? (here ++ [name]) = some .dir →
            d₁.Opens (fun q => ∃ k,
              (makeDirs (here ++ [name]) rest d₁).2.walk here ((name :: rest).take k) = .ok q)
              (makeDirs (here ++ [name]) rest d₁).2 := by
          intro d₁ hdir
          refine (ih (here ++ [name]) d₁).mono ?_
          rintro q ⟨k, hk⟩
          refine ⟨k + 1, ?_⟩
          have hstays := (makeDirs_grows (here ++ [name]) rest d₁).nodes _ _ hdir
          rw [List.take_succ_cons, walk_down hup hname hstays]
          exact hk
        split
        · next hdir => exact hbelow d hdir
        · exact .refl _ d
        · next hnone =>
          have hdir := node?_made here name d
          have hstays := (makeDirs_grows (here ++ [name]) rest _).nodes _ _ hdir
          refine Opens.trans (.made ⟨1, ?_⟩ hnone) (hbelow _ hdir)
          rw [List.take_succ_cons, List.take_zero, walk_down hup hname hstays]
          rfl

/-- Where directories were made, components lead. -/
theorem walk_of_makeDirs {here cs : List String} (hmade : makeDirs here cs d = (.ok (), d')) :
    ∃ home, d'.walk here cs = .ok home := by
  induction cs generalizing here d with
  | nil => exact ⟨here, rfl⟩
  | cons name rest ih =>
    unfold makeDirs at hmade
    split at hmade
    · next hup =>
      subst hup
      rw [walk_up]
      exact ih hmade
    · next hup =>
      split at hmade
      · cases hmade
      · next hname =>
        dsimp only at hmade
        split at hmade
        · next hdir =>
          have hgrows := makeDirs_grows (here ++ [name]) rest d
          rw [hmade] at hgrows
          rw [walk_down hup hname (hgrows.nodes _ _ hdir)]
          exact ih hmade
        · cases hmade
        · have hgrows := makeDirs_grows (here ++ [name]) rest
            ((d.put (here ++ [name]) .dir).enter (.madeDir (here ++ [name])))
          rw [hmade] at hgrows
          rw [walk_down hup hname (hgrows.nodes _ _ (node?_made here name d))]
          exact ih hmade

/-- **Making a directory opens the way to it**, and does nothing else. -/
theorem createDirAll_opens (dir : String) (d : Disk) :
    d.Opens ((createDirAll dir d).2.Passes dir) (createDirAll dir d).2 := by
  obtain ⟨n, hdisk⟩ := createDirAll_disk dir d
  have hstart := (createDirAll_grows dir d).keeps.start dir
  have hopens := makeDirs_opens (d.tick.start dir) ((Path.components dir).take n) d.tick
  rw [← hdisk] at hopens
  refine (Opens.tick _ d).trans (hopens.mono ?_)
  rintro q ⟨k, hk⟩
  refine ⟨min k n, ?_⟩
  rw [hstart, ← List.take_take]
  exact hk

/-- A directory that was made is there. -/
theorem leads_of_createDirAll (hmade : createDirAll dir d = (.ok (), d')) :
    ∃ home, d'.Leads dir home := by
  have hstart : d'.start dir = d.tick.start dir := by
    have hkeeps := (createDirAll_grows dir d).keeps
    rw [hmade] at hkeeps
    exact hkeeps.start dir
  have hop := attempt_ok hmade
  dsimp only at hop
  rw [← hstart] at hop
  unfold Leads
  split at hop
  · cases hop
  · split at hop
    · split at hop
      · cases hop
      · -- a path that ends in a point is looked up in the end
        obtain ⟨hwalk, rfl⟩ := Prod.mk.inj hop
        cases hfound : Disk.walk _ _ (Path.components dir) with
        | error e =>
          rw [hfound] at hwalk
          cases hwalk
        | ok home => exact ⟨home, rfl⟩
    · exact walk_of_makeDirs hop

/-! ## Section 4: Bound paths -/

theorem Keeps.leads (h : d.Keeps d') (hleads : d.Leads dir home) : d'.Leads dir home := by
  unfold Leads at hleads ⊢
  rw [h.start]
  exact h.walk hleads

theorem Keeps.passes (h : d.Keeps d') (hpasses : d.Passes dir p) : d'.Passes dir p := by
  obtain ⟨k, hk⟩ := hpasses
  refine ⟨k, ?_⟩
  rw [h.start]
  exact h.walk hk

/-- A path leads to one directory. -/
theorem leads_inj {home' : List String} (h : d.Leads dir home) (h' : d.Leads dir home') :
    home = home' :=
  Except.ok.inj (h.symm.trans h')

/-- As long as directories stay, a path leads to no other places. -/
def Bound (P : List String → Prop) (d : Disk) (path : String) : Prop :=
  ∀ d', d.Keeps d' → ∀ q dirOnly, d'.place path = .ok (q, dirOnly) → P q

theorem Bound.mono {P Q : List String → Prop} (hPQ : ∀ q, P q → Q q) {path : String}
    (h : Bound P d path) : Bound Q d path :=
  fun d' hkeeps q dirOnly hplace => hPQ q (h d' hkeeps q dirOnly hplace)

/-- A name is bound to its place in a directory. -/
theorem Leads.bound (h : d.Leads dir home) {name : String} (hname : Path.IsName name) :
    Bound (· = home ++ [name]) d (Path.join dir name) := by
  intro d' hkeeps p dirOnly hplace
  obtain ⟨home', hleads, rfl⟩ := leads_of_place_join hname hplace
  rw [leads_inj (hkeeps.leads h) hleads]

end Disk

end Parley
