import RateHub.Pipeline

/-!
# The supervisor's outer loop

`src/supervisor.cpp`, `run_supervisor`: one pipeline after another on one mapping. After a
pipeline, with an observer attached and pacing on, the supervisor holds the mapping
until a stop signal arrives or the observer asks for another run. The pipeline is the
one of `RateHub.Pipeline`; the children move whenever they like, the supervisor's own
steps inside it only while `run_once_pipeline` is what it executes.

A signal is handled between any two steps. `hold_signal` is installed on the way into
the first hold; before that a stop signal has its default effect.
-/

namespace RateHub

/-- Where `run_supervisor` stands. -/
inductive RunPc where
  | spawnObserve
  | storeObservePid (pid : Option UInt32)
  /-- Inside `run_once_pipeline`. -/
  | pipeline
  | testHold
  /-- `g_hold_stop = 0`. -/
  | clearStop
  | installInt
  | installTerm
  /-- `while (g_hold_stop == 0)`. -/
  | testStop
  | takeRerun
  | nap
  /-- The top of the next pass, with `first` false. -/
  | reset
  | release
  | waitObserve
  | returned (code : UInt32)
  /-- A stop signal without a handler. -/
  | killed
  deriving DecidableEq, Repr

/-- The signals that stop the supervisor. -/
inductive StopSignal where
  | int
  | term
  deriving DecidableEq, Repr

/-- The supervisor with its pipeline and its observer. -/
structure RunSupervisor where
  pipeline : Pipeline
  pc : RunPc
  /-- `pacing_enabled()`. -/
  paced : Bool
  observe : Child Unit
  /-- `g_hold_stop != 0`. -/
  holdStop : Bool
  /-- The signals `hold_signal` is installed for. -/
  handler : StopSignal → Bool
  lastStatus : UInt32
  /-- History: `hold_signal` has run. -/
  handled : Bool

/-- Who moves. -/
inductive RunAct where
  /-- A step inside the pipeline. -/
  | pipe (a : Act)
  /-- The supervisor outside it. If the step is a spawn it succeeds and yields this pid. -/
  | main (pid : UInt32)
  | observeFails
  | signal (sig : StopSignal)
  /-- The observer serves a `POST /reset`. -/
  | request
  | observeEnds (status : WaitStatus)
  deriving DecidableEq, Repr

namespace RunSupervisor

/-- The mapping changes outside the pipeline's own steps. -/
def withSupervisorState (s : RunSupervisor) (sv : SupervisorState) : RunSupervisor :=
  { s with pipeline := { s.pipeline with layout := { s.pipeline.layout with supervisor := sv } } }

/-- `observe < 0`. -/
def unobserved (s : RunSupervisor) : Bool :=
  match s.observe with
  | .unborn => true
  | .failed => true
  | _ => false

/-- A step of the supervisor outside `run_once_pipeline`. -/
def stepMain (s : RunSupervisor) (pid : Option UInt32) : Option RunSupervisor :=
  match s.pc with
  | .spawnObserve =>
      some { s with pc := .storeObservePid pid
                    observe := if pid.isSome then .running () else .failed }
  | .storeObservePid p =>
      let sv := s.pipeline.layout.supervisor
      some { s.withSupervisorState { sv with observePid := storePid sv.observePid p } with
             pc := .pipeline }
  | .pipeline =>
      match s.pipeline.sup with
      | .returned code => some { s with pc := .testHold, lastStatus := code }
      | _ => none
  | .testHold =>
      if s.unobserved || !s.paced then some { s with pc := .release }
      else some { s with pc := .clearStop }
  | .clearStop => some { s with pc := .installInt, holdStop := false }
  | .installInt =>
      some { s with pc := .installTerm, handler := Function.update s.handler .int true }
  | .installTerm =>
      some { s with pc := .testStop, handler := Function.update s.handler .term true }
  | .testStop =>
      if s.holdStop then some { s with pc := .release } else some { s with pc := .takeRerun }
  | .takeRerun =>
      let sv := s.pipeline.layout.supervisor
      -- the exchange clears the request in either case
      some { s.withSupervisorState { sv with rerunRequest := 0 } with
             pc := if sv.rerunRequest ≠ 0 then .reset else .nap }
  | .nap => some { s with pc := .testStop }
  | .reset => (s.pipeline.step .rerun).map fun p => { s with pipeline := p, pc := .pipeline }
  | .release =>
      if s.unobserved then
        some { s with pc := .returned (if s.lastStatus ≠ 0 then 1 else 0) }
      else
        let sv := s.pipeline.layout.supervisor
        some { s.withSupervisorState { sv with observeRelease := 1 } with pc := .waitObserve }
  | .waitObserve =>
      s.observe.wait.map fun (status : UInt32) =>
        { s with pc := .returned (if s.lastStatus ≠ 0 ∨ status ≠ 0 then 1 else 0) }
  | .returned _ => none
  | .killed => none

/-- The label is a step of `run_once_pipeline` itself. -/
def inside : Act → Bool
  | .sup _ => true
  | .spawnFails => true
  | _ => false

/-- One step. -/
def step (s : RunSupervisor) : RunAct → Option RunSupervisor
  | .pipe a =>
      -- `rerun` is the supervisor's step at `reset`
      if a = .rerun ∨ (inside a ∧ s.pc ≠ .pipeline) then none
      else (s.pipeline.step a).map fun p => { s with pipeline := p }
  | .main pid => s.stepMain (some pid)
  | .observeFails => if s.pc = .spawnObserve then s.stepMain none else none
  | .signal sig =>
      if s.handler sig then some { s with holdStop := true, handled := true }
      else some { s with pc := .killed }
  | .request =>
      match s.observe with
      | .running _ =>
          some (s.withSupervisorState { s.pipeline.layout.supervisor with rerunRequest := 1 })
      | _ => none
  | .observeEnds status =>
      match s.observe with
      | .running _ => some { s with observe := .ended status }
      | _ => none

/-- `run_supervisor`, on a freshly constructed mapping. -/
def start (replay : List UInt8) (clock : UInt64) (observed paced : Bool) : RunSupervisor :=
  { pipeline := Pipeline.start replay clock
    pc := if observed then .spawnObserve else .pipeline
    paced := paced, observe := .unborn, holdStop := false, handler := fun _ => false
    lastStatus := 1, handled := false }

/-- The initial states: any replay file, any time, with and without an observer and pacing. -/
def Start (s : RunSupervisor) : Prop :=
  ∃ replay clock observed paced, s = start replay clock observed paced

/-- Every run, with signals delivered at any moment. -/
def Reachable : RunSupervisor → Prop := Transition.Reachable step (fun _ _ => True) Start

end RunSupervisor

end RateHub
