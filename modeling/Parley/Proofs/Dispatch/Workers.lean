import Parley.Dispatcher

/-! # The workers of the dispatcher

  The number of workers is kept by hand: it goes up before a worker is started, and down
  on two ways out, when a worker finds the queue empty and when its invocation panics. This
  module shows that **the count is exact** and that it is enough:

  - the count is the number of workers, ready or inside an invocation, and never
    exceeds the cap;
  - nothing waits without a worker: either there is a ready worker for everything that
    waits, or there are as many workers as the cap allows.

  `Move` says once what a step can do. The invariant `Staffed` follows case by case, and with it
  what holds of every run (`workers_exact`). That steps can be taken is said apart: whatever runs
  can end, so that all work can be finished (`Staffed.exists_drain`).
-/

namespace Parley

namespace Dispatcher

variable {ι : Type} {d d' : Dispatcher ι} {l : Label ι} {now : List (Event ι)}

/-! ## Section 1: What a step can do -/

/-- Everything that a step can do. -/
inductive Move (d : Dispatcher ι) : Label ι → Dispatcher ι → List (Event ι) → Prop where
  /-- After a shutdown a submission is refused. -/
  | refused (i : ι) (hclosed : d.closed = true) : Move d (.submit i) d [.rejected i]
  /-- With as many workers as there may be, an invocation waits for one of them. -/
  | queued (i : ι) (hopen : d.closed = false) (hfull : d.cap ≤ d.workers) :
      Move d (.submit i) { d with queue := d.queue ++ [i] } [.accepted i]
  /-- With fewer, a worker is started for it. -/
  | hired (i : ι) (hopen : d.closed = false) (hroom : d.workers < d.cap) :
      Move d (.submit i)
        { d with queue := d.queue ++ [i], workers := d.workers + 1, ready := d.ready + 1 }
        [.accepted i]
  /-- A ready worker finds nothing to do and leaves. -/
  | left (n : Nat) (hready : d.ready = n + 1) (hqueue : d.queue = []) :
      Move d .take { d with ready := n, workers := d.workers - 1 } [.left]
  /-- A ready worker takes the invocation that has waited for longest. -/
  | started (n : Nat) (i : ι) (queue : List ι) (hready : d.ready = n + 1)
      (hqueue : d.queue = i :: queue) :
      Move d .take { d with ready := n, queue, running := d.running ++ [i] } [.started i]
  /-- An invocation returns, and its worker is ready again. -/
  | returned (place : Nat) (i : ι) (hi : d.running[place]? = some i) :
      Move d (.returns place)
        { d with running := d.running.eraseIdx place, ready := d.ready + 1 } [.returned i]
  /-- An invocation panics while others wait, and another worker takes the place of its own. -/
  | replaced (place : Nat) (i : ι) (hi : d.running[place]? = some i) (hqueue : d.queue ≠ [])
      (hopen : d.closed = false) :
      Move d (.panics place)
        { d with
          running := d.running.eraseIdx place
          workers := d.workers - 1 + 1
          ready := d.ready + 1 } [.panicked i]
  /-- An invocation panics while no other waits, and its worker is gone. -/
  | lost (place : Nat) (i : ι) (hi : d.running[place]? = some i)
      (hidle : d.queue = [] ∨ d.closed = true) :
      Move d (.panics place)
        { d with running := d.running.eraseIdx place, workers := d.workers - 1 } [.panicked i]
  /-- A shutdown drops what waits. -/
  | shut : Move d .shutdown { d with closed := true, queue := [] } (d.queue.map .dropped)

/-- **A step is one of these moves.** -/
theorem step_move (h : d.step? l = some (d', now)) : d.Move l d' now := by
  cases l with
  | submit i =>
    have hsubmit : d.submit i = (d', now) := Option.some.inj h
    unfold submit at hsubmit
    split at hsubmit
    · next hclosed =>
      obtain ⟨rfl, rfl⟩ := Prod.mk.inj hsubmit
      exact .refused i hclosed
    · next hclosed =>
      have hopen : d.closed = false := eq_false_of_ne_true hclosed
      obtain ⟨rfl, rfl⟩ := Prod.mk.inj hsubmit
      dsimp only
      split
      · next hroom => exact .hired i hopen hroom
      · next hfull => exact .queued i hopen (Nat.le_of_not_lt hfull)
  | take =>
    simp only [step?, take?] at h
    split at h
    · cases h
    · next n hready hqueue =>
      obtain ⟨rfl, rfl⟩ := Prod.mk.inj (Option.some.inj h)
      exact .left n hready hqueue
    · next n i queue hready hqueue =>
      obtain ⟨rfl, rfl⟩ := Prod.mk.inj (Option.some.inj h)
      exact .started n i queue hready hqueue
  | returns place =>
    obtain ⟨i, hi, hd⟩ := Option.map_eq_some_iff.1 h
    obtain ⟨rfl, rfl⟩ := Prod.mk.inj hd
    exact .returned place i hi
  | panics place =>
    obtain ⟨i, hi, hd⟩ := Option.map_eq_some_iff.1 h
    obtain ⟨rfl, rfl⟩ := Prod.mk.inj hd
    dsimp only
    split
    · next hwork => exact .replaced place i hi hwork.1 hwork.2
    · next hidle =>
      refine .lost place i hi ?_
      by_cases hqueue : d.queue = []
      · exact .inl hqueue
      · exact .inr (by simpa [hqueue] using hidle)
  | shutdown =>
    obtain ⟨rfl, rfl⟩ := Prod.mk.inj (Option.some.inj h)
    exact .shut

/-! ## Section 2: Enough workers -/

/-- The workers are counted exactly, are no more than there may be, and are enough for what
    waits. -/
structure Staffed (d : Dispatcher ι) : Prop where
  /-- Every worker is counted, whether it is ready or inside an invocation. -/
  counted : d.workers = d.ready + d.running.length
  /-- There are no more workers than there may be. -/
  capped : d.workers ≤ d.cap
  /-- There may be a worker. -/
  cap_pos : 0 < d.cap
  /-- Each invocation that waits has a ready worker, or else no worker can be added. -/
  enough : d.queue.length ≤ d.ready ∨ d.workers = d.cap
  /-- After a shutdown nothing waits. -/
  empty_of_closed : d.closed = true → d.queue = []

theorem Staffed.new (cap : Nat) : (new cap : Dispatcher ι).Staffed where
  counted := rfl
  capped := Nat.zero_le _
  cap_pos := by
    show 0 < max cap 1
    omega
  enough := .inl (Nat.le_refl 0)
  empty_of_closed := fun _ => rfl

theorem length_eraseIdx_add_one {running : List ι} {place : Nat} {i : ι}
    (hi : running[place]? = some i) : (running.eraseIdx place).length + 1 = running.length := by
  obtain ⟨hplace, -⟩ := List.getElem?_eq_some_iff.1 hi
  rw [List.length_eraseIdx_of_lt hplace]
  omega

/-- **Every move keeps the dispatcher staffed.** -/
theorem Staffed.move (h : d.Staffed) (hmove : d.Move l d' now) : d'.Staffed := by
  obtain ⟨hcounted, hcapped, hpos, henough, hempty⟩ := h
  cases hmove with
  | refused i hclosed => exact ⟨hcounted, hcapped, hpos, henough, hempty⟩
  | queued i hopen hfull =>
    -- there are as many workers as there may be already
    refine ⟨hcounted, hcapped, hpos, .inr ?_, ?_⟩
    · show d.workers = d.cap
      omega
    · intro hclosed
      exact absurd (hopen.symm.trans hclosed) Bool.false_ne_true
  | hired i hopen hroom =>
    -- the new worker is for the new invocation
    refine ⟨?_, hroom, hpos, ?_, ?_⟩
    · show d.workers + 1 = d.ready + 1 + d.running.length
      omega
    · show (d.queue ++ [i]).length ≤ d.ready + 1 ∨ d.workers + 1 = d.cap
      rw [List.length_append, List.length_singleton]
      omega
    · intro hclosed
      exact absurd (hopen.symm.trans hclosed) Bool.false_ne_true
  | left n hready hqueue =>
    refine ⟨?_, ?_, hpos, .inl ?_, hempty⟩
    · show d.workers - 1 = n + d.running.length
      omega
    · show d.workers - 1 ≤ d.cap
      omega
    · show d.queue.length ≤ n
      rw [hqueue]
      exact Nat.zero_le n
  | started n i queue hready hqueue =>
    rw [hqueue, List.length_cons] at henough
    refine ⟨?_, hcapped, hpos, ?_, ?_⟩
    · show d.workers = n + (d.running ++ [i]).length
      rw [List.length_append, List.length_singleton]
      omega
    · show queue.length ≤ n ∨ d.workers = d.cap
      omega
    · intro hclosed
      exact absurd (hqueue.symm.trans (hempty hclosed)) (List.cons_ne_nil i queue)
  | returned place i hi =>
    have hlength := length_eraseIdx_add_one hi
    refine ⟨?_, hcapped, hpos, ?_, hempty⟩
    · show d.workers = d.ready + 1 + (d.running.eraseIdx place).length
      omega
    · show d.queue.length ≤ d.ready + 1 ∨ d.workers = d.cap
      omega
  | replaced place i hi hqueue hopen =>
    -- the count goes down and up again, so that it must not have been at zero
    have hlength := length_eraseIdx_add_one hi
    refine ⟨?_, ?_, hpos, ?_, hempty⟩
    · show d.workers - 1 + 1 = d.ready + 1 + (d.running.eraseIdx place).length
      omega
    · show d.workers - 1 + 1 ≤ d.cap
      omega
    · show d.queue.length ≤ d.ready + 1 ∨ d.workers - 1 + 1 = d.cap
      omega
  | lost place i hi hidle =>
    have hlength := length_eraseIdx_add_one hi
    have hqueue : d.queue = [] := hidle.elim id hempty
    refine ⟨?_, ?_, hpos, .inl ?_, hempty⟩
    · show d.workers - 1 = d.ready + (d.running.eraseIdx place).length
      omega
    · show d.workers - 1 ≤ d.cap
      omega
    · show d.queue.length ≤ d.ready
      rw [hqueue]
      exact Nat.zero_le _
  | shut => exact ⟨hcounted, hcapped, hpos, .inl (Nat.zero_le _), fun _ => rfl⟩

/-- No move changes how many workers there may be. -/
theorem Move.cap_eq (hmove : d.Move l d' now) : d'.cap = d.cap := by
  cases hmove <;> rfl

namespace Staffed

/-- The count is above zero wherever it is lowered: a worker that leaves, or whose
    invocation panics, is counted. -/
theorem workers_pos (h : d.Staffed) (hmove : d.Move l d' now)
    (hlowered : .left ∈ now ∨ ∃ i, .panicked i ∈ now) : 0 < d.workers := by
  have hcounted := h.counted
  cases hmove with
  | left n hready hqueue => omega
  | replaced place i hi hqueue hopen =>
    have hlength := length_eraseIdx_add_one hi
    omega
  | lost place i hi hidle =>
    have hlength := length_eraseIdx_add_one hi
    omega
  | _ => simp at hlowered

/-- Whatever waits has a worker that will come to it. -/
theorem live_of_queue (h : d.Staffed) (hqueue : d.queue ≠ []) :
    0 < d.ready + d.running.length := by
  have hwaiting : 0 < d.queue.length := List.length_pos_iff.2 hqueue
  have hcounted := h.counted
  have hpos := h.cap_pos
  have henough := h.enough
  omega

/-- When no worker is ready and something waits, no worker could be added. -/
theorem running_of_queue (h : d.Staffed) (hready : d.ready = 0) (hqueue : d.queue ≠ []) :
    d.running.length = d.cap := by
  have hwaiting : 0 < d.queue.length := List.length_pos_iff.2 hqueue
  have hcounted := h.counted
  have henough := h.enough
  omega

end Staffed

/-! ## Section 3: Runs -/

/-- Takes one step after the other, if all of them can be taken: where they lead and what is
    seen to happen. -/
def run? (d : Dispatcher ι) : List (Label ι) → Option (Dispatcher ι × List (Event ι))
  | [] => some (d, [])
  | l :: labels =>
    match d.step? l with
    | none => none
    | some (d, now) => (d.run? labels).map fun (last, later) => (last, now ++ later)

/-- A run begins with a step, and goes on from where this leads. -/
theorem run?_cons_eq_some_iff {labels : List (Label ι)} {events : List (Event ι)} :
    d.run? (l :: labels) = some (d', events) ↔
      ∃ next now later, d.step? l = some (next, now) ∧ next.run? labels = some (d', later) ∧
        events = now ++ later := by
  rw [run?]
  cases hstep : d.step? l with
  | none => simp
  | some result =>
    obtain ⟨next, now⟩ := result
    constructor
    · intro h
      obtain ⟨⟨last, later⟩, hrun, heq⟩ := Option.map_eq_some_iff.1 h
      obtain ⟨rfl, rfl⟩ := Prod.mk.inj heq
      exact ⟨next, now, later, rfl, hrun, rfl⟩
    · rintro ⟨_, _, later, heq, hrun, rfl⟩
      obtain ⟨rfl, rfl⟩ := Prod.mk.inj (Option.some.inj heq)
      simp [hrun]

/-- What holds at first and is kept by every move holds wherever a run leads. -/
theorem run_induction {P : List (Label ι) → Dispatcher ι → List (Event ι) → Prop}
    (start : P [] d [])
    (step : ∀ {labels d events l d' now}, P labels d events → d.Move l d' now →
      P (labels ++ [l]) d' (events ++ now))
    {labels : List (Label ι)} {events : List (Event ι)} (h : d.run? labels = some (d', events)) :
    P labels d' events := by
  -- a run is read from its front, so what came before each step is carried along
  have hfrom : ∀ (labels past : List (Label ι)) (d : Dispatcher ι) (before later : List (Event ι)),
      P past d before → d.run? labels = some (d', later) →
        P (past ++ labels) d' (before ++ later) := by
    intro labels
    induction labels with
    | nil =>
      intro past d before later hpast h
      obtain ⟨rfl, rfl⟩ := Prod.mk.inj (Option.some.inj h)
      rw [List.append_nil, List.append_nil]
      exact hpast
    | cons l labels ih =>
      intro past d before later hpast h
      obtain ⟨next, now, rest, hstep, hrun, rfl⟩ := run?_cons_eq_some_iff.1 h
      have hnext := ih (past ++ [l]) next (before ++ now) rest (step hpast (step_move hstep)) hrun
      rwa [List.append_assoc, List.append_assoc] at hnext
  exact hfrom labels [] d [] events start h

/-- A staffed dispatcher stays one, and keeps its cap. -/
theorem Staffed.run (h : d.Staffed) {labels : List (Label ι)} {events : List (Event ι)}
    (hrun : d.run? labels = some (d', events)) : d'.Staffed ∧ d'.cap = d.cap := by
  apply run_induction (P := fun _ x _ => x.Staffed ∧ x.cap = d.cap) ⟨h, rfl⟩ ?_ hrun
  intro _ x _ _ x' _ hx hmove
  exact ⟨hx.1.move hmove, hmove.cap_eq.trans hx.2⟩

/-- **The count of workers is exact, and nothing waits without a worker.** Whatever a fresh
    dispatcher went through, it counts the workers that there are, ready or inside an
    invocation, and these are never more than were asked for, one at least. The count is
    above zero whenever a step lowers it. While an invocation waits there is a worker,
    and if then every worker is inside an invocation, they are as many as there may be. -/
theorem workers_exact (cap : Nat) {labels : List (Label ι)} {d : Dispatcher ι}
    {events : List (Event ι)} (h : (new cap).run? labels = some (d, events)) :
    d.workers = d.ready + d.running.length ∧
    (∀ l d' now, d.step? l = some (d', now) → (.left ∈ now ∨ ∃ i, .panicked i ∈ now) →
      0 < d.workers) ∧
    d.workers ≤ max cap 1 ∧
    (d.queue ≠ [] → 0 < d.ready + d.running.length) ∧
    (d.ready = 0 → d.queue ≠ [] → d.running.length = max cap 1) := by
  obtain ⟨hstaffed, hcap⟩ := (Staffed.new cap).run h
  refine ⟨hstaffed.counted, ?_, ?_, hstaffed.live_of_queue, ?_⟩
  · intro l d' now hstep hlowered
    exact hstaffed.workers_pos (step_move hstep) hlowered
  · rw [← show d.cap = max cap 1 from hcap]
    exact hstaffed.capped
  · intro hready hqueue
    rw [← show d.cap = max cap 1 from hcap]
    exact hstaffed.running_of_queue hready hqueue

/-- Four invocations for one worker. The first panics, the second returns, and the third is
    running. -/
def panicking : List (Label Nat) :=
  [.submit 6, .submit 7, .submit 8, .submit 9, .take, .panics 0, .take, .returns 0, .take]

theorem workers_exact_panicking :
    (new 0).run? panicking =
      some ({ cap := 1, queue := [9], workers := 1, running := [8] },
        [.accepted 6, .accepted 7, .accepted 8, .accepted 9, .started 6, .panicked 6, .started 7,
          .returned 7, .started 8]) ∧
    [8].length = max 0 1 := by
  have hrun : (new 0).run? panicking =
      some ({ cap := 1, queue := [9], workers := 1, running := [8] },
        [.accepted 6, .accepted 7, .accepted 8, .accepted 9, .started 6, .panicked 6, .started 7,
          .returned 7, .started 8]) := by
    decide
  exact ⟨hrun, (workers_exact 0 hrun).2.2.2.2 rfl (List.cons_ne_nil 9 [])⟩

/-! ## Section 4: What can still happen -/

/-- **When a step can be taken**: a submission and a shutdown always; a take if a worker is ready;
    and what is running can end at any time, either way. -/
theorem isSome_step?_iff (d : Dispatcher ι) (l : Label ι) :
    (d.step? l).isSome ↔ match l with
      | .submit _ | .shutdown => True
      | .take => 0 < d.ready
      | .returns place | .panics place => place < d.running.length := by
  cases l with
  | submit i => simp [step?]
  | shutdown => simp [step?]
  | take =>
    simp only [step?, take?]
    split
    · next hready => simp [hready]
    · next hready _ => simp [hready]
    · next hready _ => simp [hready]
  | returns place => simp [step?, return?]
  | panics place => simp [step?, panic?]

/-- Every invocation that is running can return, and it can panic. -/
theorem exists_ending {i : ι} (hi : i ∈ d.running) :
    ∃ place, (∃ d', d.step? (.returns place) = some (d', [.returned i])) ∧
      ∃ d', d.step? (.panics place) = some (d', [.panicked i]) := by
  obtain ⟨place, hplace⟩ := List.getElem?_of_mem hi
  exact ⟨place, ⟨_, Option.map_eq_some_iff.2 ⟨i, hplace, rfl⟩⟩,
    ⟨_, Option.map_eq_some_iff.2 ⟨i, hplace, rfl⟩⟩⟩

/-- The work that is left. A take makes two steps of what waits three steps of, and a return sets
    a worker free that may still have to leave. -/
def work (d : Dispatcher ι) : Nat := 3 * d.queue.length + 2 * d.running.length + d.ready

/-- A dispatcher that is not idle can take a step that leaves it less work, without anything coming
    from outside. -/
theorem Staffed.exists_less (h : d.Staffed) (hbusy : d.isIdle = false) :
    ∃ l d' now, (l = .take ∨ ∃ place, l = .returns place) ∧ d.step? l = some (d', now) ∧
      d'.work < d.work := by
  -- a ready worker goes first; without one, somebody who is running has to end
  rcases hready : d.ready with _ | n
  · rcases hrunning : d.running with _ | ⟨i, rest⟩
    · -- with nobody there is no worker and nothing waits
      have hnobody : d.ready + d.running.length = 0 := by
        rw [hready, hrunning]
        rfl
      have hqueue : d.queue = [] := Decidable.not_not.1 fun hwaiting =>
        Nat.ne_of_gt (h.live_of_queue hwaiting) hnobody
      have hidle : d.isIdle = true := by
        simp [isIdle, h.counted.trans hnobody, hqueue]
      cases hbusy.symm.trans hidle
    · obtain ⟨⟨d', now⟩, hstep⟩ := Option.isSome_iff_exists.1
        ((isSome_step?_iff d (.returns 0)).2 (by rw [hrunning]; exact Nat.succ_pos _))
      refine ⟨.returns 0, d', now, .inr ⟨0, rfl⟩, hstep, ?_⟩
      cases step_move hstep with
      | returned _ i hi =>
        have hlength := length_eraseIdx_add_one hi
        unfold work
        dsimp only
        omega
  · obtain ⟨⟨d', now⟩, hstep⟩ := Option.isSome_iff_exists.1
      ((isSome_step?_iff d .take).2 (by rw [hready]; exact Nat.succ_pos n))
    refine ⟨.take, d', now, .inl rfl, hstep, ?_⟩
    cases step_move hstep with
    | left m hm hqueue =>
      unfold work
      dsimp only
      omega
    | started m i queue hm hqueue =>
      unfold work
      rw [hqueue, List.length_cons]
      dsimp only
      rw [List.length_append, List.length_singleton]
      omega

/-- **All work can be finished**, whatever a dispatcher has gone through: takes and returns lead
    from there to where nobody works and nothing waits. -/
theorem Staffed.exists_drain (h : d.Staffed) :
    ∃ labels d' events, (∀ l ∈ labels, l = .take ∨ ∃ place, l = .returns place) ∧
      d.run? labels = some (d', events) ∧ d'.isIdle = true := by
  -- on the work that is left
  induction hwork : d.work using Nat.strongRecOn generalizing d with
  | ind n ih =>
    cases hidle : d.isIdle with
    | true => exact ⟨[], d, [], nofun, rfl, hidle⟩
    | false =>
      obtain ⟨l, next, now, hl, hstep, hless⟩ := h.exists_less hidle
      obtain ⟨labels, d', later, hlabels, hrun, hdone⟩ :=
        ih next.work (hwork ▸ hless) (h.move (step_move hstep)) rfl
      refine ⟨l :: labels, d', now ++ later, ?_, ?_, hdone⟩
      · intro l' hmem
        rcases List.mem_cons.1 hmem with rfl | hmem
        · exact hl
        · exact hlabels l' hmem
      · exact run?_cons_eq_some_iff.2 ⟨next, now, later, hstep, hrun, rfl⟩

end Dispatcher

end Parley
