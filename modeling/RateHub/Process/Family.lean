import RateHub.Process.ShmRegion

/-!
# Which process names what

`run_supervisor` makes up the name of its mapping from its process id and hands it to the
processes it forks; these attach to it. Any number of supervisors share the one name space, and
any of the processes can be killed at any time.

Here stands what concerns the name: `shm_create` at the beginning of `run_supervisor`, the calls
of `spawn_child` and `wait_child`, and `shm_close` at its end; in a worker or the observer,
`shm_open_existing` at the beginning and `shm_close` at the end, with nothing closed where
it returns early.
-/

namespace RateHub

/-- `"/rh-" + std::to_string(getpid())`. -/
def shmName (pid : Nat) : String := "/rh-" ++ toString pid

/-- The processes there ever are: their ids, and the supervisor that forks one. An id may be given
out again. -/
structure Family (P : Type) where
  pid : P → Nat
  parent : P → Option P

/-- What has become of a process. -/
inductive Life where
  | unborn
  | running
  | ended
  deriving DecidableEq, Repr

/-- The processes and the name space. -/
structure FamilyState (P : Type) where
  world : ShmWorld P
  life : P → Life
  /-- What a supervisor has forked and not yet waited for. -/
  children : P → List P

/-- Who does what. -/
inductive FamilyAct (P : Type) where
  /-- A supervisor is run. -/
  | start (p : P)
  | spawn (q c : P)
  | create (p : P)
  | attach (p : P)
  | detach (p : P)
  | call (p : P) (good : Bool)
  | wait (q c : P)
  /-- The process returns from `main` or is killed. -/
  | finish (p : P)
  deriving DecidableEq, Repr

namespace FamilyState

variable {P : Type} [DecidableEq P]

/-- The fate of a process changes. -/
def become (s : FamilyState P) (p : P) (life : Life) : FamilyState P :=
  { s with life := Function.update s.life p life }

/-- The list of a supervisor's children changes. -/
def setChildren (s : FamilyState P) (q : P) (l : List P) : FamilyState P :=
  { s with children := Function.update s.children q l }

/-- A step within the name space. -/
def on (s : FamilyState P) (a : ShmAct P) : Option (FamilyState P) :=
  (s.world.step a).map fun w => { s with world := w }

/-- Nobody has been run. -/
def Start (s : FamilyState P) : Prop :=
  s.world.Start ∧ (∀ p, s.life p = .unborn) ∧ (∀ p, s.children p = [])

end FamilyState

namespace Family

variable {P : Type} [DecidableEq P]

/-- The supervisor a process belongs to. -/
def root (t : Family P) (p : P) : P := (t.parent p).getD p

/-- The name a process goes by. -/
def nameOf (t : Family P) (p : P) : String := shmName (t.pid (t.root p))

/-- One step. -/
def step (t : Family P) (s : FamilyState P) : FamilyAct P → Option (FamilyState P)
  | .start p =>
      if t.parent p = none ∧ s.life p = .unborn then some (s.become p .running) else none
  | .spawn q c =>
      -- past `shm_create`, and before `shm_close`
      if t.parent c = some q ∧ t.parent q = none ∧ s.life q = .running ∧ s.life c = .unborn
          ∧ (s.world.procs q).pc = .idle ∧ (s.world.procs q).mapping.owner = true then
        some ((s.become c .running).setChildren q (c :: s.children q))
      else none
  | .create p =>
      if t.parent p = none ∧ s.life p = .running then s.on (.create p (t.nameOf p)) else none
  | .attach p =>
      if t.parent p ≠ none ∧ s.life p = .running then s.on (.attach p (t.nameOf p)) else none
  | .detach p =>
      -- a supervisor has waited for all it forked
      if s.life p = .running ∧ (t.parent p = none → s.children p = []) then s.on (.detach p)
      else none
  | .call p good => if s.life p = .running then s.on (.step p good) else none
  | .wait q c =>
      if s.life q = .running ∧ c ∈ s.children q ∧ s.life c = .ended then
        some (s.setChildren q ((s.children q).erase c))
      else none
  | .finish p =>
      if s.life p = .running then (s.become p .ended).on (.kill p) else none

/-- No supervisor gets a process id that is in the name of a process still running: nobody has it,
and whoever had it before has left no child behind. -/
def freshPid (t : Family P) (s : FamilyState P) (a : FamilyAct P) : Prop :=
  ∀ p, a = .start p → ∀ q, s.life q = .running → t.pid (t.root q) ≠ t.pid p

end Family

end RateHub
