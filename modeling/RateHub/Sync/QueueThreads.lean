import RateHub.Lib.Transition
import RateHub.Sync.BoundedQueue

/-!
# Threads that share the queue

`include/ratehub/bounded_queue.hpp` with its mutex and its condition variable. A call takes
the mutex, tests its wait predicate, and either goes on to the rest of its critical
section or gives the mutex back and goes to sleep, which is one step: nobody can come in
between. The test and the sleep are two steps, since `notify_one` does not need the
mutex. `push` and `pop` unlock before they notify; `close` notifies with the mutex held.

A notification goes to one of the sleepers, whichever the condition variable likes, and a
sleeper may also wake for no reason. Woken threads take the mutex and test again.
-/

namespace RateHub

/-- The three operations. -/
inductive QueueCall (α : Type) where
  | push (value : α)
  | pop
  | close
  deriving DecidableEq, Repr

/-- The predicate the call waits for; `close` does not wait. -/
def QueueCall.ready {α : Type} (capacity : Nat) (q : BoundedQueue α) : QueueCall α → Bool
  | .push _ => q.closed || decide (q.size < capacity)
  | .pop => q.closed || decide (0 < q.size)
  | .close => true

/-- Where a thread stands. -/
inductive QueuePc (α : Type) where
  | idle
  /-- About to take the mutex: at the start of a call, or woken. -/
  | lock (call : QueueCall α)
  /-- At the test of the predicate. -/
  | test (call : QueueCall α)
  /-- The predicate was false. -/
  | sleep (call : QueueCall α)
  | asleep (call : QueueCall α)
  /-- Past the wait, in the rest of the critical section. -/
  | body (call : QueueCall α)
  /-- Unlocked, before `notify_one`. -/
  | notifyOne
  /-- `closed_` is set, before `notify_all`. -/
  | notifyAll
  deriving DecidableEq, Repr

/-- With the mutex: `close` has nothing to wait for. -/
def QueueCall.locked {α : Type} : QueueCall α → QueuePc α
  | .close => .body .close
  | call => .test call

/-- A sleeper that wakes takes the mutex and tests again. -/
def QueuePc.woken {α : Type} : QueuePc α → QueuePc α
  | .asleep call => .lock call
  | pc => pc

/-- A critical section that has run, with what its call returns. -/
inductive Section (α : Type) where
  | pushed (value : α) (ok : Bool)
  | popped (value : Option α)
  | closed
  deriving DecidableEq, Repr

/-- The queue and the threads, named by `T`. -/
structure QueueThreads (T α : Type) where
  queue : BoundedQueue α
  /-- Who holds the mutex. -/
  holder : Option T
  /-- Who sleeps in the condition variable. -/
  sleepers : List T
  pc : T → QueuePc α
  /-- History: the critical sections, in the order they ran. -/
  log : List (Section α)

/-- Who moves. -/
inductive QueueAct (T α : Type) where
  | call (t : T) (call : QueueCall α)
  /-- One step of a call; `k` is the condition variable's choice among the sleepers. -/
  | run (t : T) (k : Nat)
  /-- A sleeper wakes for no reason. -/
  | spurious (t : T)
  deriving DecidableEq, Repr

namespace QueueThreads

variable {T α : Type} [DecidableEq T]

/-- The thread goes on at `pc`. -/
def goto (s : QueueThreads T α) (t : T) (pc : QueuePc α) : QueueThreads T α :=
  { s with pc := Function.update s.pc t pc }

/-- A sleeper leaves the condition variable. -/
def wake (s : QueueThreads T α) (t : T) : QueueThreads T α :=
  { s.goto t (s.pc t).woken with sleepers := s.sleepers.filter (· ≠ t) }

/-- `notify_one`: nobody, or one of the sleepers. -/
def notifyOne (s : QueueThreads T α) (k : Nat) : QueueThreads T α :=
  match s.sleepers[k % s.sleepers.length]? with
  | some u => s.wake u
  | none => s

/-- `notify_all`. -/
def notifyAll (s : QueueThreads T α) : QueueThreads T α :=
  { s with pc := fun u => (s.pc u).woken, sleepers := [] }

/-- The critical section ends: the mutex is free again. -/
def leave (s : QueueThreads T α) (t : T) (pc : QueuePc α) (q : BoundedQueue α) (e : Section α) :
    QueueThreads T α :=
  { s.goto t pc with queue := q, holder := none, log := s.log ++ [e] }

/-- What is left of the critical section once the predicate is true. -/
def body (capacity : Nat) (s : QueueThreads T α) (t : T) : QueueCall α → Option (QueueThreads T α)
  | .push value =>
      match s.queue.push capacity value with
      | some (true, q) => some (s.leave t .notifyOne q (.pushed value true))
      | some (false, q) => some (s.leave t .idle q (.pushed value false))
      | none => none
  | .pop =>
      match s.queue.pop capacity with
      | some (some value, q) => some (s.leave t .notifyOne q (.popped (some value)))
      | some (none, q) => some (s.leave t .idle q (.popped none))
      | none => none
  | .close =>
      some { s.goto t .notifyAll with queue := s.queue.close, log := s.log ++ [.closed] }

/-- One step of a thread's call. -/
def run (capacity : Nat) (s : QueueThreads T α) (t : T) (k : Nat) : Option (QueueThreads T α) :=
  match s.pc t with
  | .idle => none
  | .lock call =>
      if s.holder = none then
        some { s.goto t call.locked with holder := some t }
      else none
  | .test call => some (s.goto t (if call.ready capacity s.queue then .body call else .sleep call))
  | .sleep call =>
      some { s.goto t (.asleep call) with holder := none, sleepers := s.sleepers ++ [t] }
  | .asleep _ => none
  | .body call => s.body capacity t call
  | .notifyOne => some ((s.notifyOne k).goto t .idle)
  | .notifyAll => some { s.notifyAll.goto t .idle with holder := none }

/-- One step of the system. -/
def step (capacity : Nat) (s : QueueThreads T α) : QueueAct T α → Option (QueueThreads T α)
  | .call t call =>
      match s.pc t with
      | .idle => some (s.goto t (.lock call))
      | _ => none
  | .run t k => s.run capacity t k
  | .spurious t =>
      match s.pc t with
      | .asleep _ => some (s.wake t)
      | _ => none

/-- A fresh queue, nobody inside a call. -/
def start (zero : α) : QueueThreads T α :=
  { queue := BoundedQueue.init zero, holder := none, sleepers := [], pc := fun _ => .idle, log := [] }

/-- Every interleaving of any calls. -/
def Reachable (capacity : Nat) (zero : α) : QueueThreads T α → Prop :=
  Transition.Reachable (step capacity) (fun _ _ => True) (· = start zero)

/-! ## One thread on either side -/

/-- The thread that pushes and closes, and the thread that pops. -/
inductive Side where
  | pusher
  | popper
  deriving DecidableEq, Repr

def Side.other : Side → Side
  | .pusher => .popper
  | .popper => .pusher

/-- The calls of a side. -/
def Side.calls : Side → QueueCall α → Bool
  | .pusher, .pop => false
  | .pusher, _ => true
  | .popper, .pop => true
  | .popper, _ => false

/-- Each thread keeps to its side. -/
def keepsSide : QueueAct Side α → Bool
  | .call t call => t.calls call
  | _ => true

/-- Every interleaving of one pusher and one popper. -/
def ReachableSides (capacity : Nat) (zero : α) : QueueThreads Side α → Prop :=
  Transition.Reachable (step capacity) (fun _ a => keepsSide a = true) (· = start zero)

end QueueThreads

end RateHub
