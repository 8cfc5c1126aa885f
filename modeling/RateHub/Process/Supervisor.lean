import RateHub.Layout

/-!
# The supervisor's own program

`src/supervisor.cpp`: `run_once_pipeline` statement by statement, and the helpers it is made
of. The supervisor sees a child through `posix_spawn` and `waitpid` only, so a child is
one of four things to it: not started, never started, running, or ended with a wait status.
-/

namespace RateHub

/-- `kMaxComputeAttempts`. -/
def kMaxComputeAttempts : Nat := 3

/-- What `waitpid` reports. -/
inductive WaitStatus where
  | exited (code : UInt32)
  | signaled
  deriving DecidableEq, Repr

/-- A child process. -/
inductive Child (P : Type) where
  | unborn
  /-- `posix_spawn` failed: the supervisor holds the pid -1. -/
  | failed
  | running (p : P)
  | ended (status : WaitStatus)

/-- `wait_child`: the status, or `none` while `waitpid` blocks. -/
def Child.wait {P : Type} : Child P → Option UInt32
  | .unborn => none
  | .failed => some 1
  | .running _ => none
  | .ended (.exited code) => some code
  | .ended .signaled => some 1

/-- Where `run_once_pipeline` stands. A `pid` of `none` is the -1 of a failed spawn. -/
inductive SupPc where
  | spawnIngest
  | storeIngestPid (pid : Option UInt32)
  | spawnPublish
  | storePublishPid (pid : Option UInt32)
  | spawnCompute (attempt : Nat)
  | storeComputePid (attempt : Nat) (pid : Option UInt32)
  | waitCompute (attempt : Nat)
  | storeComputeExit (attempt : Nat) (status : UInt32)
  | addGeneration (attempt : Nat)
  | storeShutdown (computeOk : Bool)
  | waitIngest (computeOk : Bool)
  | storeIngestExit (computeOk : Bool) (ingestStatus : UInt32)
  | waitPublish (computeOk : Bool) (ingestStatus : UInt32)
  | storePublishExit (computeOk : Bool) (ingestStatus publishStatus : UInt32)
  | returned (code : UInt32)
  deriving DecidableEq, Repr

/-- `store_pid`: a pid of -1 is not stored. -/
def storePid (slot : UInt32) : Option UInt32 → UInt32
  | none => slot
  | some pid => pid

/-- The tail of the attempt loop's body: what follows the store of `compute_exit`. -/
def SupPc.afterCompute (attempt : Nat) (status : UInt32) : SupPc :=
  if status = 0 then .storeShutdown true
  else if attempt = kMaxComputeAttempts then .storeShutdown false
  else .addGeneration attempt

/-- The value `run_once_pipeline` returns. -/
def pipelineResult (computeOk : Bool) (ingestStatus publishStatus : UInt32) : UInt32 :=
  if computeOk = false ∨ ingestStatus ≠ 0 ∨ publishStatus ≠ 0 then 1 else 0

/-- `reset_control`. Every child has been waited for when it runs. -/
def resetControl (l : Layout) : Layout :=
  { l with
    control :=
      { l.control with
        shutdown := 0, ingestDone := 0, fastDone := 0, windowDone := 0, snapshotDone := 0
        computeDone := 0, fault := 0, overrunFast := 0, overrunWindow := 0, overrunSnapshot := 0
        heartbeatIngest := 0, heartbeatCompute := 0, heartbeatPublish := 0, heartbeatFast := 0
        heartbeatWindow := 0, heartbeatSnapshot := 0, generation := l.control.generation + 1 }
    supervisor :=
      { l.supervisor with
        ingestPid := 0, computePid := 0, publishPid := 0, ingestExit := 0, computeExit := 0
        publishExit := 0 } }

/-- One step of `run_once_pipeline` that neither spawns nor waits. -/
def supStep (l : Layout) : SupPc → Option (Layout × SupPc)
  | .storeIngestPid pid =>
      some ({ l with supervisor := { l.supervisor with
                ingestPid := storePid l.supervisor.ingestPid pid } }, .spawnPublish)
  | .storePublishPid pid =>
      some ({ l with supervisor := { l.supervisor with
                publishPid := storePid l.supervisor.publishPid pid } }, .spawnCompute 1)
  | .storeComputePid attempt pid =>
      some ({ l with supervisor := { l.supervisor with
                computePid := storePid l.supervisor.computePid pid } }, .waitCompute attempt)
  | .storeComputeExit attempt status =>
      some ({ l with supervisor := { l.supervisor with computeExit := status } },
        .afterCompute attempt status)
  | .addGeneration attempt =>
      some ({ l with control := { l.control with generation := l.control.generation + 1 } },
        .spawnCompute (attempt + 1))
  | .storeShutdown ok =>
      some ({ l with control := { l.control with shutdown := 1 } }, .waitIngest ok)
  | .storeIngestExit ok status =>
      some ({ l with supervisor := { l.supervisor with ingestExit := status } },
        .waitPublish ok status)
  | .storePublishExit ok ingestStatus status =>
      some ({ l with supervisor := { l.supervisor with publishExit := status } },
        .returned (pipelineResult ok ingestStatus status))
  | .spawnIngest => none
  | .spawnPublish => none
  | .spawnCompute _ => none
  | .waitCompute _ => none
  | .waitIngest _ => none
  | .waitPublish _ _ => none
  | .returned _ => none

end RateHub
