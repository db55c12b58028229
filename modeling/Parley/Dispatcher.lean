/-! # The dispatcher

  Invocations wait in a queue and are taken from its head by at most `cap`
  workers. A submission starts a worker while there are fewer; a worker takes
  one invocation after the other and leaves when it finds the queue empty. A
  worker whose invocation panics is gone, and is replaced if work is waiting.
  After a shutdown nothing is accepted any more, and what was waiting is dropped.

  The dispatcher is a **labelled step system**: every way in which the threads
  involved can interleave is a sequence of labels. A worker is either `ready`,
  about to take from the queue or to leave, or inside an invocation, and then
  the invocation is in `running`. A state is **quiet** when no worker is ready.
-/

namespace Parley

/-- A queue of invocations and its workers. -/
structure Dispatcher (ι : Type) where
  /-- The greatest number of workers. -/
  cap : Nat
  /-- The invocations that wait. -/
  queue : List ι := []
  /-- The number of workers, as it is counted. -/
  workers : Nat := 0
  /-- The workers about to take from the queue or to leave. -/
  ready : Nat := 0
  /-- The invocations that workers are inside of. -/
  running : List ι := []
  /-- Whether it has been shut down. -/
  closed : Bool := false
deriving DecidableEq, Repr

namespace Dispatcher

variable {ι : Type}

/-- The usual number of workers. -/
def defaultWorkers : UInt64 := 32

/-- A dispatcher with at most `cap` workers, and at least one. -/
def new (cap : Nat) : Dispatcher ι := { cap := max cap 1 }

/-! ### Labels and events -/

/-- What can happen. -/
inductive Label (ι : Type) where
  /-- An invocation is submitted. -/
  | submit (i : ι)
  /-- A ready worker takes from the queue, or leaves. -/
  | take
  /-- The invocation at a place among the running returns. -/
  | returns (place : Nat)
  /-- The invocation at a place among the running panics. -/
  | panics (place : Nat)
  /-- The dispatcher is shut down. -/
  | shutdown
deriving DecidableEq, Repr

/-- What is seen to happen. -/
inductive Event (ι : Type) where
  /-- An invocation was accepted. -/
  | accepted (i : ι)
  /-- An invocation was refused. -/
  | rejected (i : ι)
  /-- An invocation was started. -/
  | started (i : ι)
  /-- A worker left. -/
  | left
  /-- An invocation returned. -/
  | returned (i : ι)
  /-- An invocation panicked. -/
  | panicked (i : ι)
  /-- An invocation that waited was dropped. -/
  | dropped (i : ι)
deriving DecidableEq, Repr

/-! ### Steps -/

/-- Submits an invocation. -/
def submit (d : Dispatcher ι) (i : ι) : Dispatcher ι × List (Event ι) :=
  if d.closed then (d, [.rejected i])
  else
    let d := { d with queue := d.queue ++ [i] }
    (if d.workers < d.cap then { d with workers := d.workers + 1, ready := d.ready + 1 } else d,
      [.accepted i])

/-- Lets a ready worker take from the queue, or leave. -/
def take? (d : Dispatcher ι) : Option (Dispatcher ι × List (Event ι)) :=
  match d.ready, d.queue with
  | 0, _ => none
  | n + 1, [] => some ({ d with ready := n, workers := d.workers - 1 }, [.left])
  | n + 1, i :: queue => some ({ d with ready := n, queue, running := d.running ++ [i] }, [.started i])

/-- Lets a running invocation return. -/
def return? (d : Dispatcher ι) (place : Nat) : Option (Dispatcher ι × List (Event ι)) :=
  d.running[place]?.map fun i =>
    ({ d with running := d.running.eraseIdx place, ready := d.ready + 1 }, [.returned i])

/-- Lets a running invocation panic; its worker is replaced if work is waiting. -/
def panic? (d : Dispatcher ι) (place : Nat) : Option (Dispatcher ι × List (Event ι)) :=
  d.running[place]?.map fun i =>
    let d := { d with running := d.running.eraseIdx place, workers := d.workers - 1 }
    (if d.queue ≠ [] ∧ d.closed = false then
      { d with workers := d.workers + 1, ready := d.ready + 1 } else d,
      [.panicked i])

/-- Shuts the dispatcher down. -/
def shutdown (d : Dispatcher ι) : Dispatcher ι × List (Event ι) :=
  ({ d with closed := true, queue := [] }, d.queue.map .dropped)

/-- The step under a label, if it can be taken. -/
def step? (d : Dispatcher ι) : Label ι → Option (Dispatcher ι × List (Event ι))
  | .submit i => some (d.submit i)
  | .take => d.take?
  | .returns place => d.return? place
  | .panics place => d.panic? place
  | .shutdown => some d.shutdown

/-- Whether no worker is about to do anything by itself. -/
def isQuiet (d : Dispatcher ι) : Bool := d.ready == 0

/-- Whether nothing waits and nobody works. -/
def isIdle (d : Dispatcher ι) : Bool := d.workers == 0 && d.queue.isEmpty

/-! ### Running until quiet -/

/-- How an invocation ends. -/
inductive Ending where
  /-- It returns. -/
  | returns
  /-- It panics. -/
  | panics
  /-- It goes on until somebody ends it. -/
  | waits
deriving DecidableEq, Repr

/-- What happens to the invocation that was started last. -/
def finish (d : Dispatcher ι) (ending : Ending) : Dispatcher ι × List (Event ι) :=
  let last := d.running.length - 1
  match ending with
  | .returns => (d.return? last).getD (d, [])
  | .panics => (d.panic? last).getD (d, [])
  | .waits => (d, [])

/-- Lets ready workers go on until none is left. The first argument bounds the
    number of workers' steps. -/
def settleFor (ending : ι → Ending) : Nat → Dispatcher ι → Dispatcher ι × List (Event ι)
  | 0, d => (d, [])
  | fuel + 1, d =>
    match d.take? with
    | none => (d, [])
    | some (d, [.started i]) =>
      let (d, ended) := d.finish (ending i)
      let (d, later) := settleFor ending fuel d
      (d, .started i :: ended ++ later)
    | some (d, events) =>
      let (d, later) := settleFor ending fuel d
      (d, events ++ later)

/-- Lets ready workers go on until none is left: each step takes an invocation off
    the queue or a worker away. -/
def settle (ending : ι → Ending) (d : Dispatcher ι) : Dispatcher ι × List (Event ι) :=
  settleFor ending (d.queue.length + d.ready) d

end Dispatcher

end Parley
