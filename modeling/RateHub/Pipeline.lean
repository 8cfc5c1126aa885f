import RateHub.Process.Compute
import RateHub.Process.Ingest
import RateHub.Process.Publish
import RateHub.Process.Supervisor

/-!
# The whole system

The supervisor inside `run_once_pipeline`, the three children, the mapping and the clock.
A label names the thread that moves; what the operating system decides (whether a
spawn succeeds, whether a child attaches, when a child is killed, how far the clock
has come) is a label too. So a run is one interleaving together with everything that
goes wrong in it.
-/

namespace RateHub

/-- The state of the system. -/
structure Pipeline where
  layout : Layout
  clock : UInt64
  sup : SupPc
  ingest : Child Ingest
  compute : Child Compute
  publish : Child Publish
  /-- The bytes of the replay file. -/
  replay : List UInt8
  /-- The text of the output file; `none` until some publish has opened it. -/
  outFile : Option String
  /-- History: the wait statuses of the compute attempts so far. -/
  exits : List UInt32
  /-- History: each snapshot handed to `snapshots.publish()`, with the number of the
  attempt that did, counted over all runs. -/
  handed : List (Nat × Snapshot)
  /-- History: the snapshot whose text this run's publish wrote out. -/
  written : Option Snapshot

/-- Who moves. -/
inductive Act where
  | tick (now : UInt64)
  /-- The supervisor. If the step is a spawn it succeeds and the child has this pid. -/
  | sup (pid : UInt32)
  | spawnFails
  | source
  | frames
  | ingestMain
  | ingestRefused
  | fast
  | window
  | snapshot
  | watchdog
  | computeMain
  | computeCrash
  | computeRefused
  | publish
  | publishRefused
  | openFails
  | killIngest
  | killCompute
  | killPublish
  /-- The supervisor's outer loop starts another pipeline on the same mapping. -/
  | rerun
  deriving DecidableEq, Repr

namespace Pipeline

/-- The number of the attempt in progress, counted over all runs. -/
def attempt (s : Pipeline) : Nat := s.exits.length + 1

/-- A child's step, on the system. -/
def withIngest (s : Pipeline) (r : Layout × Ingest) : Pipeline :=
  { s with layout := r.1, ingest := .running r.2 }

def withCompute (s : Pipeline) (r : Layout × Compute) : Pipeline :=
  { s with layout := r.1, compute := .running r.2 }

def withPublish (s : Pipeline) (r : Layout × Publish) : Pipeline :=
  { s with layout := r.1, publish := .running r.2 }

/-- The attempt in progress hands a snapshot over. -/
def hand (s : Pipeline) (snap : Snapshot) : Pipeline :=
  { s with handed := s.handed ++ [(s.attempt, snap)] }

/-- The output file is opened: whatever was in it is gone. -/
def openOut (s : Pipeline) : Pipeline := { s with outFile := some "", written := none }

/-- The output file is closed: the text is in it. -/
def write (s : Pipeline) (last : Snapshot) : Pipeline :=
  { s with outFile := some last.render, written := some last }

/-- A step of ingest's source or frames thread: the threads exist from the attach on. -/
def stepIngest (s : Pipeline) (f : Layout → Ingest → Option (Layout × Ingest)) :
    Option Pipeline :=
  match s.ingest with
  | .running p => if p.main = .attach then none else (f s.layout p).map s.withIngest
  | _ => none

/-- A step of one of compute's threads. -/
def stepCompute (s : Pipeline) (f : UInt64 → Layout → Compute → Option (Layout × Compute)) :
    Option Pipeline :=
  match s.compute with
  | .running p => (f s.clock s.layout p).map s.withCompute
  | _ => none

/-- A step of ingest's main thread. -/
def stepIngestMain (s : Pipeline) : Option Pipeline :=
  match s.ingest with
  | .running p =>
      match p.main with
      | .attach => some (s.withIngest (s.layout, { p with main := .joinSource }))
      | .exit => some { s with ingest := .ended (.exited 0) }
      | _ => (p.stepMain s.layout).map s.withIngest
  | _ => none

/-- A step of compute's main thread. -/
def stepComputeMain (s : Pipeline) : Option Pipeline :=
  match s.compute with
  | .running p =>
      match p.main with
      | .exit code => some { s with compute := .ended (.exited code) }
      | _ => (p.stepMain s.layout).map s.withCompute
  | _ => none

/-- A step of the snapshot thread; the exchange is what hands the snapshot over. -/
def stepSnapshot (s : Pipeline) : Option Pipeline :=
  match s.compute with
  | .running p =>
      match p.snapshot.pc with
      | .publish .exchange =>
          (p.stepSnapshot s.clock s.layout).map fun r => (s.withCompute r).hand p.snapshot.snap
      | _ => (p.stepSnapshot s.clock s.layout).map s.withCompute
  | _ => none

/-- A step of publish. -/
def stepPublish (s : Pipeline) : Option Pipeline :=
  match s.publish with
  | .running p =>
      match p.pc with
      | .openFile => (p.step s.layout).map fun r => (s.withPublish r).openOut
      | .write => (p.step s.layout).map fun r => (s.withPublish r).write p.last
      | .exit code => some { s with publish := .ended (.exited code) }
      | _ => (p.step s.layout).map s.withPublish
  | _ => none

/-- A step of the supervisor; `pid` is what a spawn yields. -/
def stepSup (s : Pipeline) (pid : Option UInt32) : Option Pipeline :=
  match s.sup with
  | .spawnIngest =>
      some { s with sup := .storeIngestPid pid
                    ingest := if pid.isSome then .running (Ingest.init s.replay) else .failed }
  | .spawnPublish =>
      some { s with sup := .storePublishPid pid
                    publish := if pid.isSome then .running Publish.init else .failed }
  | .spawnCompute attempt =>
      some { s with sup := .storeComputePid attempt pid
                    compute := if pid.isSome then .running Compute.init else .failed }
  | .waitCompute attempt =>
      s.compute.wait.map fun status =>
        { s with sup := .storeComputeExit attempt status, exits := s.exits ++ [status] }
  | .waitIngest ok => s.ingest.wait.map fun status => { s with sup := .storeIngestExit ok status }
  | .waitPublish ok ingestStatus =>
      s.publish.wait.map fun status => { s with sup := .storePublishExit ok ingestStatus status }
  | pc => (supStep s.layout pc).map fun r => { s with layout := r.1, sup := r.2 }

/-- The supervisor is at a `posix_spawn`. -/
def spawning (s : Pipeline) : Bool :=
  match s.sup with
  | .spawnIngest => true
  | .spawnPublish => true
  | .spawnCompute _ => true
  | _ => false

/-- One step of the system. -/
def step (s : Pipeline) : Act → Option Pipeline
  | .tick now => if s.clock ≤ now then some { s with clock := now } else none
  | .sup pid => s.stepSup (some pid)
  | .spawnFails => if s.spawning then s.stepSup none else none
  | .source => s.stepIngest fun l p => p.stepSource l
  | .frames => s.stepIngest fun l p => p.stepFrames l
  | .ingestMain => s.stepIngestMain
  | .ingestRefused =>
      match s.ingest with
      | .running p => if p.main = .attach then some { s with ingest := .ended (.exited 1) } else none
      | _ => none
  | .fast => s.stepCompute fun clock l p => p.stepFast clock l
  | .window => s.stepCompute fun clock l p => p.stepWindow clock l
  | .snapshot => s.stepSnapshot
  | .watchdog => s.stepCompute fun clock l p => p.stepWatchdog clock l
  | .computeMain => s.stepComputeMain
  | .computeCrash =>
      match s.compute with
      | .running p => if p.main = .crash then some { s with compute := .ended (.exited 2) } else none
      | _ => none
  | .computeRefused =>
      match s.compute with
      | .running p => if p.main = .attach then some { s with compute := .ended (.exited 1) } else none
      | _ => none
  | .publish => s.stepPublish
  | .publishRefused =>
      match s.publish with
      | .running p => if p.pc = .attach then some { s with publish := .ended (.exited 1) } else none
      | _ => none
  | .openFails =>
      match s.publish with
      | .running p =>
          if p.pc = .openFile then some { s with publish := .running { p with pc := .exit 1 } }
          else none
      | _ => none
  | .killIngest =>
      match s.ingest with
      | .running _ => some { s with ingest := .ended .signaled }
      | _ => none
  | .killCompute =>
      match s.compute with
      | .running _ => some { s with compute := .ended .signaled }
      | _ => none
  | .killPublish =>
      match s.publish with
      | .running _ => some { s with publish := .ended .signaled }
      | _ => none
  | .rerun =>
      match s.sup with
      | .returned _ =>
          some { s with layout := resetControl s.layout, sup := .spawnIngest
                        ingest := .unborn, compute := .unborn, publish := .unborn
                        written := none }
      | _ => none

/-- The supervisor enters `run_once_pipeline` on a freshly constructed mapping. -/
def start (replay : List UInt8) (clock : UInt64) : Pipeline :=
  { layout := Layout.init, clock := clock, sup := .spawnIngest
    ingest := .unborn, compute := .unborn, publish := .unborn
    replay := replay, outFile := none, exits := [], handed := [], written := none }

/-- The initial states: any replay file, any time. -/
def Start (s : Pipeline) : Prop := ∃ replay clock, s = start replay clock

/-- `run_once_pipeline` has returned. -/
def hasReturned (s : Pipeline) : Bool :=
  match s.sup with
  | .returned _ => true
  | _ => false

end Pipeline

end RateHub
