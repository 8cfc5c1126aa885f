import RateHub.Pipeline

/-!
# The crash switch

`src/compute.cpp`, `crash_requested`: the environment variable `RATEHUB_CRASH` makes compute
attempts end before they attach, every one of them or one. The one attempt leaves a marker
file behind, whose name is made of the mapping's. Looking for the marker and creating it are
two operations on the file system, and the attempt can be killed between them.

Nobody but the attempts of this supervisor is taken to touch the marker: its name holds the
supervisor's process id.
-/

namespace RateHub

/-- The marker's path. -/
def crashMarker (shm : String) : String :=
  "/tmp/ratehub-once" ++ shm.map fun c => if c = '/' then '_' else c

/-- Where the `crash_requested` of the attempt in progress stands. -/
inductive CrashPc where
  | ask
  /-- The marker was not there. -/
  | create
  | answered (crash : Bool)
  deriving DecidableEq, Repr

/-- The answer for a value of the variable, or the step that decides it. -/
def crashAsked (crash : Option String) (marked : Bool) : CrashPc :=
  match crash with
  | none => .answered false
  | some value =>
      if value = "always" then .answered true
      else if value ≠ "once" then .answered false
      else if marked then .answered false
      else .create

/-- A pipeline whose attempts look at the switch. -/
structure Switched where
  system : Pipeline
  /-- The files that can be opened for reading. -/
  files : String → Bool
  pc : CrashPc

/-- Who moves. -/
inductive SwitchedAct where
  | system (a : Act)
  | ask
  /-- The marker is opened for writing, and the stream is good or not. -/
  | create (good : Bool)
  deriving DecidableEq, Repr

namespace Switched

/-- The attempt in progress is inside `crash_requested`. -/
def asking (x : Switched) : Bool :=
  match x.system.compute with
  | .running p => decide (p.main = .crash)
  | _ => false

/-- What the attempt does with the answer. -/
def permits (x : Switched) : Act → Bool
  | .computeCrash => decide (x.pc = .answered true)
  | .computeMain => !x.asking || decide (x.pc = .answered false)
  | _ => true

/-- The step starts a compute attempt. -/
def spawns (x : Switched) : Act → Bool
  | .sup _ =>
      match x.system.sup with
      | .spawnCompute _ => true
      | _ => false
  | _ => false

/-- One step, for a value of the variable and a name of the mapping. -/
def step (crash : Option String) (shm : String) (x : Switched) : SwitchedAct → Option Switched
  | .system a =>
      if x.permits a then
        (x.system.step a).map fun s =>
          { x with system := s, pc := if x.spawns a then .ask else x.pc }
      else none
  | .ask =>
      if x.asking ∧ x.pc = .ask then
        some { x with pc := crashAsked crash (x.files (crashMarker shm)) }
      else none
  | .create good =>
      if x.asking ∧ x.pc = .create then
        if good then
          some { x with pc := .answered true
                        files := Function.update x.files (crashMarker shm) true }
        else some { x with pc := .answered false }
      else none

/-- The initial states: any replay file, any time, any files. -/
def Start (x : Switched) : Prop := Pipeline.Start x.system ∧ x.pc = .ask

/-- The states of the runs under a value of the variable. -/
def Reachable (crash : Option String) (shm : String) : Switched → Prop :=
  Transition.Reachable (step crash shm) (fun _ _ => True) Start

end Switched

end RateHub
