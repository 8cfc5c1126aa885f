import RateHub.Pipeline

/-!
# The observers of a pipeline

`src/telemetry.cpp`, `collect_telemetry`: a sample of the whole mapping, one load at a time.
The words of the control block and of the supervisor's block come first, then the
window slots. The function takes the mapping as `const`, and in the model a step of it
takes a `Layout` and gives none back.

`Observed` is a pipeline with any number of observers that take their steps between those
of the pipeline.
-/

namespace RateHub

/-- `TelemetrySnapshot::SourcePoint`. -/
structure SourcePoint where
  id : UInt32 := 0
  x : Int32 := 0
  y : Int32 := 0
  publishes : UInt32 := 0
  sequence : UInt32 := 0
  deriving DecidableEq, Repr

/-- `TelemetrySnapshot::kMaxPoints`. -/
abbrev kMaxPoints : Nat := 16

/-- `TelemetrySnapshot`. -/
structure TelemetrySnapshot where
  tsNs : UInt64 := 0
  generation : UInt32 := 0
  shutdown : UInt32 := 0
  fault : UInt32 := 0
  idle : UInt32 := 0
  ringOccupied : UInt32 := 0
  ringCapacity : UInt32 := 0
  overrunFast : UInt32 := 0
  overrunWindow : UInt32 := 0
  overrunSnapshot : UInt32 := 0
  ingestDone : UInt32 := 0
  fastDone : UInt32 := 0
  windowDone : UInt32 := 0
  snapshotDone : UInt32 := 0
  computeDone : UInt32 := 0
  hbIngest : UInt64 := 0
  hbCompute : UInt64 := 0
  hbPublish : UInt64 := 0
  hbFast : UInt64 := 0
  hbWindow : UInt64 := 0
  hbSnapshot : UInt64 := 0
  ingestPid : UInt32 := 0
  computePid : UInt32 := 0
  publishPid : UInt32 := 0
  observePid : UInt32 := 0
  ingestExit : UInt32 := 0
  computeExit : UInt32 := 0
  publishExit : UInt32 := 0
  sources : Fin kMaxPoints → SourcePoint := fun _ => {}
  sourceCount : Nat := 0

/-- Where `collect_telemetry` stands. -/
inductive CollectPc where
  | idle
  /-- The `k`-th of the loads before the loop. -/
  | word (k : Nat)
  | row (id : Fin kMaxSources) (row : WindowState) (call : Seqlock.LoadPc WindowState)

/-- An observer: the call in progress, and the samples its calls returned, oldest first. -/
structure Observer where
  pc : CollectPc
  snap : TelemetrySnapshot
  /-- `write` in `occupied()`. -/
  write : UInt32
  collected : List TelemetrySnapshot

/-- Outside any call. -/
def Observer.init : Observer := { pc := .idle, snap := {}, write := 0, collected := [] }

/-- A load into the sample. -/
def Observer.into (f : Layout → TelemetrySnapshot → TelemetrySnapshot) (l : Layout)
    (o : Observer) : Observer := { o with snap := f l o.snap }

/-- The loads before the loop, in the order of the source. `ring.occupied()` is two of them. -/
def collectWords : List (Layout → Observer → Observer) :=
  [Observer.into fun l snap => { snap with generation := l.control.generation },
    Observer.into fun l snap => { snap with shutdown := l.control.shutdown },
    Observer.into fun l snap => { snap with fault := l.control.fault },
    fun l o => { o with write := l.ring.write },
    fun l o => { o with snap := { o.snap with
                   ringOccupied := (o.write - l.ring.read) &&& kRingCapacity.mask
                   ringCapacity := kRingCapacity.val - 1 } },
    Observer.into fun l snap => { snap with overrunFast := l.control.overrunFast },
    Observer.into fun l snap => { snap with overrunWindow := l.control.overrunWindow },
    Observer.into fun l snap => { snap with overrunSnapshot := l.control.overrunSnapshot },
    Observer.into fun l snap => { snap with ingestDone := l.control.ingestDone },
    Observer.into fun l snap => { snap with fastDone := l.control.fastDone },
    Observer.into fun l snap => { snap with windowDone := l.control.windowDone },
    Observer.into fun l snap => { snap with snapshotDone := l.control.snapshotDone },
    Observer.into fun l snap => { snap with computeDone := l.control.computeDone },
    Observer.into fun l snap => { snap with hbIngest := l.control.heartbeatIngest },
    Observer.into fun l snap => { snap with hbCompute := l.control.heartbeatCompute },
    Observer.into fun l snap => { snap with hbPublish := l.control.heartbeatPublish },
    Observer.into fun l snap => { snap with hbFast := l.control.heartbeatFast },
    Observer.into fun l snap => { snap with hbWindow := l.control.heartbeatWindow },
    Observer.into fun l snap => { snap with hbSnapshot := l.control.heartbeatSnapshot },
    Observer.into fun l snap => { snap with ingestPid := l.supervisor.ingestPid },
    Observer.into fun l snap => { snap with computePid := l.supervisor.computePid },
    Observer.into fun l snap => { snap with publishPid := l.supervisor.publishPid },
    Observer.into fun l snap => { snap with observePid := l.supervisor.observePid },
    Observer.into fun l snap => { snap with ingestExit := l.supervisor.ingestExit },
    Observer.into fun l snap => { snap with computeExit := l.supervisor.computeExit },
    Observer.into fun l snap => { snap with publishExit := l.supervisor.publishExit }]

/-- `snap.idle`, computed from what was loaded. -/
def TelemetrySnapshot.settleIdle (snap : TelemetrySnapshot) : TelemetrySnapshot :=
  { snap with
    idle := if snap.shutdown ≠ 0 ∧ snap.ingestDone ≠ 0 ∧ snap.computeDone ≠ 0 then 1 else 0 }

/-- `snap.sources[snap.source_count++]`, filled from a row. -/
def TelemetrySnapshot.addPoint (snap : TelemetrySnapshot) (id : Fin kMaxSources)
    (row : WindowState) : TelemetrySnapshot :=
  { snap with
    sources := fun i =>
      if i.val = snap.sourceCount then
        { id := UInt32.ofNat id.val, x := row.posX, y := row.posY, publishes := row.publishes
          sequence := row.sequence }
      else snap.sources i
    sourceCount := snap.sourceCount + 1 }

/-- The call returns its sample. -/
def Observer.finish (o : Observer) : Observer :=
  { o with pc := .idle, collected := o.collected ++ [o.snap] }

/-- `++id`: the next row, or the end of the loop. -/
def Observer.next (o : Observer) (id : Fin kMaxSources) : Observer :=
  if h : id.val + 1 < kMaxSources then { o with pc := .row ⟨id.val + 1, h⟩ {} (.loadBegin 0) }
  else o.finish

/-- `collect_telemetry(layout, now_ns)` is called. -/
def Observer.call (o : Observer) (nowNs : UInt64) : Observer :=
  { o with pc := .word 0, snap := { tsNs := nowNs } }

/-- One load of `collect_telemetry`. -/
def Observer.step (l : Layout) (o : Observer) : Option Observer :=
  match o.pc with
  | .idle => none
  | .word k =>
      match collectWords[k]? with
      | some load =>
          if k + 1 < collectWords.length then some { load l o with pc := .word (k + 1) }
          else some { load l o with pc := .row (sourceIndex 0) {} (.loadBegin 0)
                                    snap := (load l o).snap.settleIdle }
      | none => none
  | .row id row call =>
      match Seqlock.loadStep (l.window id) row call with
      | (row', call', none) => some { o with pc := .row id row' call' }
      | (row', _, some ok) =>
          if ok = false ∨ row'.publishes = 0 then some (o.next id)
          else if kMaxPoints ≤ o.snap.sourceCount then some o.finish
          else some ({ o with snap := o.snap.addPoint id row' }.next id)

/-! ## A pipeline and its observers -/

/-- The pipeline, with observers named by `R`. -/
structure Observed (R : Type) where
  system : Pipeline
  observers : R → Observer

/-- Who moves. -/
inductive ObservedAct (R : Type) where
  | system (a : Act)
  /-- An observer reads the clock and calls `collect_telemetry`. -/
  | collect (r : R)
  | observe (r : R)
  deriving DecidableEq, Repr

namespace Observed

variable {R : Type} [DecidableEq R]

/-- One step of the pipeline or of an observer. -/
def step (s : Observed R) : ObservedAct R → Option (Observed R)
  | .system a => (s.system.step a).map fun system => { s with system := system }
  | .collect r =>
      match (s.observers r).pc with
      | .idle =>
          some { s with observers :=
                   Function.update s.observers r ((s.observers r).call s.system.clock) }
      | _ => none
  | .observe r =>
      ((s.observers r).step s.system.layout).map fun o =>
        { s with observers := Function.update s.observers r o }

/-- A pipeline at its start, nobody inside a call. -/
def Start (s : Observed R) : Prop :=
  Pipeline.Start s.system ∧ ∀ r, s.observers r = Observer.init

end Observed

end RateHub
