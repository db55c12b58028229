import Mathlib.Data.List.Nodup
import Mathlib.Data.List.Perm.Basic
import Parley.Proofs.Dispatch.Workers

/-! # What becomes of an invocation

  An invocation that is submitted is accepted or rejected; one that is accepted waits until
  it is started or dropped; one that is started runs until it returns or panics. The
  events of a run tell who has come to which **stage**, and in which order.

  The `Ledger` compares them with the state of the dispatcher. Its main entry is an equation of
  lists: those accepted are those started, then those that wait, then those dropped. Order,
  conservation and "never twice" are all in it, since nothing stands twice in a
  list in which it was put once (`runs_once_in_order`).
-/

namespace Parley

namespace Dispatcher

open scoped List

variable {ι : Type} {d d' : Dispatcher ι} {l : Label ι} {labels : List (Label ι)}
  {events now : List (Event ι)}

/-! ## Section 1: Stages -/

/-- What can become of an invocation. -/
inductive Stage where
  | accepted
  | rejected
  | started
  | returned
  | panicked
  | dropped
deriving DecidableEq

/-- The event that an invocation comes to a stage. -/
def Stage.event : Stage → ι → Event ι
  | .accepted => .accepted
  | .rejected => .rejected
  | .started => .started
  | .returned => .returned
  | .panicked => .panicked
  | .dropped => .dropped

/-- Who came to a stage with an event. -/
def Event.reaches? (s : Stage) : Event ι → Option ι
  | .accepted i => if s = .accepted then some i else none
  | .rejected i => if s = .rejected then some i else none
  | .started i => if s = .started then some i else none
  | .left => none
  | .returned i => if s = .returned then some i else none
  | .panicked i => if s = .panicked then some i else none
  | .dropped i => if s = .dropped then some i else none

/-- Those who came to a stage, in the order in which they did. -/
def reached (s : Stage) (events : List (Event ι)) : List ι := events.filterMap (Event.reaches? s)

/-- Those who were submitted, in their order. -/
def submitted (labels : List (Label ι)) : List ι :=
  labels.filterMap fun l => match l with
    | .submit i => some i
    | _ => none

@[simp] theorem reached_append (s : Stage) (a b : List (Event ι)) :
    reached s (a ++ b) = reached s a ++ reached s b := List.filterMap_append

@[simp] theorem submitted_append (a b : List (Label ι)) :
    submitted (a ++ b) = submitted a ++ submitted b := List.filterMap_append

theorem mem_reached {s : Stage} {i : ι} : i ∈ reached s events ↔ s.event i ∈ events := by
  have hreaches : ∀ e : Event ι, e.reaches? s = some i ↔ e = s.event i := by
    intro e
    cases e <;> cases s <;> simp [Event.reaches?, Stage.event]
  unfold reached
  rw [List.mem_filterMap]
  constructor
  · rintro ⟨e, he, hi⟩
    exact (hreaches e).1 hi ▸ he
  · intro h
    exact ⟨s.event i, h, (hreaches _).2 rfl⟩

@[simp] theorem reached_singleton (s : Stage) (e : Event ι) :
    reached s [e] = (e.reaches? s).toList := by
  unfold reached
  cases h : e.reaches? s <;> simp [h]

/-- Those dropped together come to this stage and to no other. -/
theorem reached_dropped (s : Stage) (queue : List ι) :
    reached s (queue.map .dropped) = if s = .dropped then queue else [] := by
  induction queue with
  | nil => cases s <;> rfl
  | cons i queue ih =>
    have hcons : reached s ((i :: queue).map .dropped) =
        (if s = .dropped then [i] else []) ++ reached s (queue.map .dropped) := by
      cases s <;> rfl
    rw [hcons, ih]
    split <;> rfl

/-! ## Section 2: The ledger -/

/-- The events of a run agree with what was asked for and with the state that the run has
    led to. -/
structure Ledger (labels : List (Label ι)) (d : Dispatcher ι) (events : List (Event ι)) :
    Prop where
  /-- Those accepted were started, or they wait, or they were dropped, in this order. -/
  accepted_eq :
    reached .accepted events = reached .started events ++ d.queue ++ reached .dropped events
  /-- Those submitted were accepted or rejected. -/
  submitted_perm :
    (reached .accepted events ++ reached .rejected events).Perm (submitted labels)
  /-- Those started are running, or they returned, or they panicked. -/
  started_perm :
    (reached .started events).Perm
      (d.running ++ (reached .returned events ++ reached .panicked events))
  /-- The dispatcher is closed from the first shutdown on. -/
  closed_iff : d.closed = true ↔ .shutdown ∈ labels
  /-- Until then nobody is rejected. -/
  rejected_eq : d.closed = false → reached .rejected events = []
  /-- Until then nobody is dropped. -/
  dropped_eq : d.closed = false → reached .dropped events = []

theorem Ledger.new (cap : Nat) : Ledger [] (new cap : Dispatcher ι) [] where
  accepted_eq := rfl
  submitted_perm := List.Perm.refl []
  started_perm := List.Perm.refl []
  closed_iff := by simp [Dispatcher.new]
  rejected_eq := fun _ => rfl
  dropped_eq := fun _ => rfl

/-- The invocation at a place is one of those running. -/
theorem perm_cons_eraseIdx {running : List ι} {place : Nat} {i : ι}
    (hi : running[place]? = some i) : running.Perm (i :: running.eraseIdx place) := by
  obtain ⟨hplace, rfl⟩ := List.getElem?_eq_some_iff.1 hi
  exact (List.getElem_cons_eraseIdx_perm hplace).symm

namespace Ledger

/-- One more invocation is accepted, and waits behind the others. -/
theorem accept (h : Ledger labels d events) (hopen : d.closed = false) (i : ι)
    (hqueue : d'.queue = d.queue ++ [i]) (hrunning : d'.running = d.running)
    (hclosed : d'.closed = d.closed) :
    Ledger (labels ++ [.submit i]) d' (events ++ [.accepted i]) := by
  have hdropped := h.dropped_eq hopen
  refine ⟨?_, ?_, ?_, ?_, ?_, ?_⟩
  · -- since nobody was dropped, the last one accepted is the last one who waits
    have haccepted := h.accepted_eq
    rw [hdropped, List.append_nil] at haccepted
    simp [Event.reaches?, haccepted, hdropped, hqueue]
  · have hperm := h.submitted_perm.append_right [i]
    rw [List.append_assoc] at hperm
    have hlast : submitted (labels ++ [.submit i]) = submitted labels ++ [i] :=
      submitted_append labels [.submit i]
    rw [hlast]
    have hswap : ([i] ++ reached .rejected events).Perm (reached .rejected events ++ [i]) :=
      List.perm_append_comm
    refine List.Perm.trans ?_ hperm
    simpa [Event.reaches?] using hswap.append_left (reached .accepted events)
  · simpa [Event.reaches?, hrunning] using h.started_perm
  · simpa [hclosed] using h.closed_iff
  · intro _
    simp [Event.reaches?, h.rejected_eq hopen]
  · intro _
    simp [Event.reaches?, hdropped]

/-- One of those running has come to its end. -/
theorem finish (h : Ledger labels d events) {place : Nat} {i : ι}
    (hi : d.running[place]? = some i) {e : Event ι} (he : e = .returned i ∨ e = .panicked i)
    (hl : l = .returns place ∨ l = .panics place) (hqueue : d'.queue = d.queue)
    (hrunning : d'.running = d.running.eraseIdx place) (hclosed : d'.closed = d.closed) :
    Ledger (labels ++ [l]) d' (events ++ [e]) := by
  -- nobody comes to another stage, and nobody was submitted
  have hsame : ∀ s, s ≠ .returned → s ≠ .panicked →
      reached s (events ++ [e]) = reached s events := by
    intro s hreturned hpanicked
    rcases he with rfl | rfl
    · simp [Event.reaches?, hreturned]
    · simp [Event.reaches?, hpanicked]
  have hsubmitted : submitted (labels ++ [l]) = submitted labels := by
    rcases hl with rfl | rfl <;> simp [submitted]
  have hended : (i :: (reached .returned events ++ reached .panicked events)).Perm
      (reached .returned (events ++ [e]) ++ reached .panicked (events ++ [e])) := by
    rcases he with rfl | rfl
    · simpa [Event.reaches?] using List.perm_middle.symm
    · have hlast := (List.perm_append_singleton i
        (reached .returned events ++ reached .panicked events)).symm
      simpa [Event.reaches?] using hlast
  refine ⟨?_, ?_, ?_, ?_, ?_, ?_⟩
  · rw [hsame .accepted (by decide) (by decide), hsame .started (by decide) (by decide),
      hsame .dropped (by decide) (by decide), hqueue]
    exact h.accepted_eq
  · rw [hsame .accepted (by decide) (by decide), hsame .rejected (by decide) (by decide),
      hsubmitted]
    exact h.submitted_perm
  · -- it is not running any more, but among those who ended
    rw [hsame .started (by decide) (by decide), hrunning]
    calc reached .started events
      _ ~ d.running ++ (reached .returned events ++ reached .panicked events) := h.started_perm
      _ ~ i :: d.running.eraseIdx place ++
            (reached .returned events ++ reached .panicked events) :=
          (perm_cons_eraseIdx hi).append_right _
      _ ~ d.running.eraseIdx place ++
            i :: (reached .returned events ++ reached .panicked events) := List.perm_middle.symm
      _ ~ _ := hended.append_left _
  · have hnot : l ≠ .shutdown := by
      rcases hl with rfl | rfl <;> simp
    simp [hclosed, h.closed_iff, Ne.symm hnot]
  · rw [hclosed, hsame .rejected (by decide) (by decide)]
    exact h.rejected_eq
  · rw [hclosed, hsame .dropped (by decide) (by decide)]
    exact h.dropped_eq

/-- **Every move is entered in the ledger.** -/
theorem move (h : Ledger labels d events) (hs : d.Staffed) (hmove : d.Move l d' now) :
    Ledger (labels ++ [l]) d' (events ++ now) := by
  cases hmove with
  | refused i hclosed =>
    refine ⟨?_, ?_, ?_, ?_, ?_, ?_⟩
    · simpa [Event.reaches?] using h.accepted_eq
    · have hperm := h.submitted_perm.append_right [i]
      have hlast : submitted (labels ++ [.submit i]) = submitted labels ++ [i] :=
        submitted_append labels [.submit i]
      rw [hlast]
      simpa [Event.reaches?] using hperm
    · simpa [Event.reaches?] using h.started_perm
    · simpa using h.closed_iff
    · intro hopen
      exact absurd (hopen.symm.trans hclosed) Bool.false_ne_true
    · intro hopen
      exact absurd (hopen.symm.trans hclosed) Bool.false_ne_true
  | queued i hopen hfull => exact h.accept hopen i rfl rfl rfl
  | hired i hopen hroom => exact h.accept hopen i rfl rfl rfl
  | left n hready hqueue =>
    refine ⟨?_, ?_, ?_, ?_, ?_, ?_⟩
    · simpa [Event.reaches?] using h.accepted_eq
    · simpa [Event.reaches?, submitted] using h.submitted_perm
    · simpa [Event.reaches?] using h.started_perm
    · simpa using h.closed_iff
    · simpa [Event.reaches?] using h.rejected_eq
    · simpa [Event.reaches?] using h.dropped_eq
  | started n i queue hready hqueue =>
    refine ⟨?_, ?_, ?_, ?_, ?_, ?_⟩
    · -- the first one who waited is the next one started
      have haccepted := h.accepted_eq
      rw [hqueue] at haccepted
      simpa [Event.reaches?] using haccepted
    · simpa [Event.reaches?, submitted] using h.submitted_perm
    · -- it is put behind those running, in front of those who ended
      have hperm := h.started_perm.append_right [i]
      have hswap : (reached .returned events ++ reached .panicked events ++ [i]).Perm
          ([i] ++ (reached .returned events ++ reached .panicked events)) :=
        List.perm_append_comm
      rw [List.append_assoc] at hperm
      simpa [Event.reaches?] using hperm.trans (hswap.append_left d.running)
    · simpa using h.closed_iff
    · simpa [Event.reaches?] using h.rejected_eq
    · simpa [Event.reaches?] using h.dropped_eq
  | returned place i hi => exact h.finish hi (.inl rfl) (.inl rfl) rfl rfl rfl
  | replaced place i hi hqueue hopen => exact h.finish hi (.inr rfl) (.inr rfl) rfl rfl rfl
  | lost place i hi hidle => exact h.finish hi (.inr rfl) (.inr rfl) rfl rfl rfl
  | shut =>
    refine ⟨?_, ?_, ?_, ?_, ?_, ?_⟩
    · -- either nobody waits any more, or nobody was dropped before
      have haccepted := h.accepted_eq
      cases hclosed : d.closed with
      | true => simpa [reached_dropped, hs.empty_of_closed hclosed] using haccepted
      | false => simpa [reached_dropped, h.dropped_eq hclosed] using haccepted
    · simpa [reached_dropped, submitted] using h.submitted_perm
    · simpa [reached_dropped] using h.started_perm
    · simp
    · intro hopen
      exact absurd hopen Bool.noConfusion
    · intro hopen
      exact absurd hopen Bool.noConfusion

/-- The ledger of a run. -/
theorem of_run (cap : Nat) (h : (Dispatcher.new cap).run? labels = some (d, events)) :
    Ledger labels d events := by
  have hboth : d.Staffed ∧ Ledger labels d events := by
    apply run_induction (P := fun labels x events => x.Staffed ∧ Ledger labels x events)
      ⟨Staffed.new cap, .new cap⟩ ?_ h
    intro _ _ _ _ _ _ hx hmove
    exact ⟨hx.1.move hmove, hx.2.move hx.1 hmove⟩
  exact hboth.2

/-- Whoever was accepted is kept once, if nobody was submitted twice. -/
theorem nodup_accepted (h : Ledger labels d events) (hnodup : (submitted labels).Nodup) :
    (reached .accepted events ++ reached .rejected events).Nodup :=
  h.submitted_perm.nodup_iff.2 hnodup

/-- Whoever was started was accepted. -/
theorem accepted_of_started (h : Ledger labels d events) {i : ι}
    (hi : i ∈ reached .started events) : i ∈ reached .accepted events := by
  rw [h.accepted_eq]
  exact List.mem_append_left _ (List.mem_append_left _ hi)

/-- Whoever panicked was started. -/
theorem started_of_panicked (h : Ledger labels d events) {i : ι}
    (hi : i ∈ reached .panicked events) : i ∈ reached .started events := by
  apply h.started_perm.mem_iff.2
  exact List.mem_append_right _ (List.mem_append_right _ hi)

/-- When all of those started have ended, none is running. -/
theorem running_eq_nil (h : Ledger labels d events)
    (hended : (reached .started events).Perm
      (reached .returned events ++ reached .panicked events)) : d.running = [] := by
  have hstarted := h.started_perm.length_eq
  have hlength := hended.length_eq
  rw [List.length_append] at hstarted
  apply List.length_eq_zero_iff.1
  omega

end Ledger

/-! ## Section 3: What becomes of all of them -/

/-- A run that is gone on with is a run. -/
theorem run?_append {before after : List (Label ι)} {past later : List (Event ι)}
    {last : Dispatcher ι} (hpast : d.run? before = some (d', past))
    (hlater : d'.run? after = some (last, later)) :
    d.run? (before ++ after) = some (last, past ++ later) := by
  induction before generalizing d past with
  | nil =>
    obtain ⟨rfl, rfl⟩ := Prod.mk.inj (Option.some.inj hpast)
    exact hlater
  | cons l before ih =>
    obtain ⟨next, now, rest, hstep, hrun, rfl⟩ := run?_cons_eq_some_iff.1 hpast
    refine run?_cons_eq_some_iff.2 ⟨next, now, rest ++ later, hstep, ih hrun, ?_⟩
    exact List.append_assoc now rest later

/-- After a shutdown nobody is accepted and nobody is started. -/
theorem Move.of_closed (hmove : d.Move l d' now) (hs : d.Staffed) (hclosed : d.closed = true) :
    d'.closed = true ∧ reached .accepted now = [] ∧ reached .started now = [] := by
  have hnotOpen : d.closed ≠ false := by
    rw [hclosed]
    exact Bool.noConfusion
  cases hmove with
  | queued i hopen hfull => exact absurd hopen hnotOpen
  | hired i hopen hroom => exact absurd hopen hnotOpen
  | started n i queue hready hqueue =>
    -- nothing waits any more
    exact absurd (hqueue.symm.trans (hs.empty_of_closed hclosed)) (List.cons_ne_nil i queue)
  | shut => simp [reached_dropped]
  | _ => simp [Event.reaches?, hclosed]

/-- What `Move.of_closed` says of a step, for a run. -/
theorem run_of_closed (hs : d.Staffed) (hclosed : d.closed = true)
    (h : d.run? labels = some (d', events)) :
    reached .accepted events = [] ∧ reached .started events = [] := by
  have hkept : d'.Staffed ∧ d'.closed = true ∧ reached .accepted events = [] ∧
      reached .started events = [] := by
    apply run_induction (P := fun _ x events => x.Staffed ∧ x.closed = true ∧
      reached .accepted events = [] ∧ reached .started events = []) ⟨hs, hclosed, rfl, rfl⟩ ?_ h
    intro _ x events _ x' now ⟨hx, hxclosed, haccepted, hstarted⟩ hmove
    obtain ⟨hnext, hnone, hidle⟩ := hmove.of_closed hx hxclosed
    refine ⟨hx.move hmove, hnext, ?_, ?_⟩
    · rw [reached_append, haccepted, hnone, List.append_nil]
    · rw [reached_append, hstarted, hidle, List.append_nil]
  exact hkept.2.2

/-- **What was accepted is started once, in the order of acceptance.** At any moment
    those accepted so far are, in this order, those started, those that wait and
    those dropped, and only a shutdown rejects or drops anybody. If nobody was submitted twice,
    nobody stands twice in this list; one that panicked is not started later, and one that
    was rejected is never started. After a shutdown nobody is accepted or started any more.
    When no worker is about to do anything and all of those started have ended, there is
    no worker and nothing waits, and everybody accepted was started, unless there was a
    shutdown. -/
theorem runs_once_in_order (cap : Nat) {before after : List (Label ι)} {d d' : Dispatcher ι}
    {past later : List (Event ι)} (hpast : (new cap).run? before = some (d, past))
    (hlater : d.run? after = some (d', later)) :
    reached .accepted past = reached .started past ++ d.queue ++ reached .dropped past ∧
    (reached .accepted past ++ reached .rejected past).Perm (submitted before) ∧
    (.shutdown ∉ before → reached .rejected past = [] ∧ reached .dropped past = []) ∧
    ((submitted (before ++ after)).Nodup →
      (reached .started past ++ d.queue ++ reached .dropped past).Nodup ∧
      (∀ i, .panicked i ∈ past → .started i ∉ later) ∧
      (∀ i, .rejected i ∈ past → .started i ∉ past ++ later)) ∧
    (.shutdown ∈ before → ∀ i, .accepted i ∉ later ∧ .started i ∉ later) ∧
    (d.isQuiet = true →
      (reached .started past).Perm (reached .returned past ++ reached .panicked past) →
      d.ready + d.running.length = 0 ∧ d.isIdle = true ∧
        (.shutdown ∉ before → reached .accepted past = reached .started past)) := by
  obtain ⟨hs, -⟩ := (Staffed.new cap).run hpast
  have hledger := Ledger.of_run cap hpast
  have hwhole := Ledger.of_run cap (run?_append hpast hlater)
  have hopen : .shutdown ∉ before → d.closed = false := by
    intro hno
    exact Bool.eq_false_iff.2 fun hclosed => hno (hledger.closed_iff.1 hclosed)
  refine ⟨hledger.accepted_eq, hledger.submitted_perm, ?_, ?_, ?_, ?_⟩
  · intro hno
    exact ⟨hledger.rejected_eq (hopen hno), hledger.dropped_eq (hopen hno)⟩
  · intro hnodup
    have hkept := hwhole.nodup_accepted hnodup
    refine ⟨?_, ?_, ?_⟩
    · have hbefore : (submitted before).Nodup := by
        rw [submitted_append] at hnodup
        exact hnodup.of_append_left
      rw [← hledger.accepted_eq]
      exact (hledger.nodup_accepted hbefore).of_append_left
    · intro i hi hagain
      -- it would have been started before it panicked, and then once more
      have hstarted : (reached .started past ++ reached .started later).Nodup := by
        have haccepted := hkept.of_append_left
        rw [hwhole.accepted_eq] at haccepted
        rw [← reached_append]
        exact haccepted.of_append_left.of_append_left
      have hfirst := hledger.started_of_panicked (mem_reached.2 hi)
      exact List.disjoint_of_nodup_append hstarted hfirst (mem_reached.2 hagain)
    · intro i hi hstarted
      have haccepted := hwhole.accepted_of_started (mem_reached.2 hstarted)
      have hrejected : i ∈ reached .rejected (past ++ later) :=
        mem_reached.2 (List.mem_append_left _ hi)
      exact List.disjoint_of_nodup_append hkept haccepted hrejected
  · intro hshut i
    obtain ⟨haccepted, hstarted⟩ := run_of_closed hs (hledger.closed_iff.2 hshut) hlater
    refine ⟨fun hi => ?_, fun hi => ?_⟩
    · exact List.not_mem_nil (haccepted ▸ mem_reached.2 hi)
    · exact List.not_mem_nil (hstarted ▸ mem_reached.2 hi)
  · intro hquiet hended
    have hrunning := hledger.running_eq_nil hended
    have hready : d.ready = 0 := eq_of_beq hquiet
    have hnobody : d.ready + d.running.length = 0 := by
      rw [hready, hrunning]
      rfl
    have hqueue : d.queue = [] := by
      by_contra hwaiting
      have hlive := hs.live_of_queue hwaiting
      omega
    refine ⟨hnobody, ?_, ?_⟩
    · have hworkers : d.workers = 0 := hs.counted.trans hnobody
      simp [isIdle, hworkers, hqueue]
    · intro hno
      rw [hledger.accepted_eq, hqueue, hledger.dropped_eq (hopen hno), List.append_nil,
        List.append_nil]

/-- One invocation returns; the next one panics with another waiting, which is then dropped; and
    the last one is too late. -/
def shutWhileWaiting : List (Label Nat) :=
  [.submit 6, .take, .returns 0, .submit 7, .submit 8, .take, .panics 0, .shutdown, .submit 9]

/-- What is seen of it. -/
def seenWhileWaiting : List (Event Nat) :=
  [.accepted 6, .started 6, .returned 6, .accepted 7, .accepted 8, .started 7, .panicked 7,
    .dropped 8, .rejected 9]

/-- In the end the last worker leaves. -/
theorem runs_once_in_order_shutWhileWaiting :
    (new 1).run? shutWhileWaiting =
      some ({ cap := 1, workers := 1, ready := 1, closed := true }, seenWhileWaiting) ∧
    ({ cap := 1, workers := 1, ready := 1, closed := true } : Dispatcher Nat).run? [.take] =
      some ({ cap := 1, closed := true }, [.left]) ∧
    ([6, 7] ++ [] ++ [8] : List Nat).Nodup ∧
    (reached .started (seenWhileWaiting ++ [.left])).Perm
      (reached .returned (seenWhileWaiting ++ [.left]) ++
        reached .panicked (seenWhileWaiting ++ [.left])) ∧
    ({ cap := 1, closed := true } : Dispatcher Nat).isIdle = true := by
  have hpast : (new 1).run? shutWhileWaiting =
      some ({ cap := 1, workers := 1, ready := 1, closed := true }, seenWhileWaiting) := by
    decide
  have hlater : ({ cap := 1, workers := 1, ready := 1, closed := true } : Dispatcher Nat).run?
      [.take] = some ({ cap := 1, closed := true }, [.left]) := by
    decide
  have hended : (reached .started (seenWhileWaiting ++ [.left])).Perm
      (reached .returned (seenWhileWaiting ++ [.left]) ++
        reached .panicked (seenWhileWaiting ++ [.left])) := by
    decide
  obtain ⟨-, -, -, hnodup, -⟩ := runs_once_in_order 1 hpast hlater
  have hdone : ({ cap := 1, closed := true } : Dispatcher Nat).run? [] =
      some ({ cap := 1, closed := true }, []) := rfl
  obtain ⟨-, -, -, -, -, hquiet⟩ := runs_once_in_order 1 (run?_append hpast hlater) hdone
  exact ⟨hpast, hlater, (hnodup (by decide)).1, hended, (hquiet rfl hended).2.1⟩

end Dispatcher

end Parley
