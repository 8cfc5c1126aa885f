import RateHub.Fleet
import RateHub.Layout
import RateHub.Pace

/-!
# The compute process

`src/compute.cpp`. Four threads and the main thread that joins them. As in ingest, one
step is one access to something shared; reading the clock is a step of its own,
since time passes between a reading and the store that follows it.

The fast thread drains the ring and publishes per-source states; the window
thread copies those to the window slots; the snapshot thread collects the window
slots into one snapshot once the window thread is done; the watchdog compares
heartbeats with the clock. The pacing sleeps have no access in them and are left out.
-/

namespace RateHub

/-! ## The fast thread -/

/-- Where the fast thread stands. -/
inductive FastPc where
  | test
  | beat
  | storeBeat (now : UInt64)
  | start
  | pop (call : SpscRing.PopPc Record)
  | publish (id : Fin kMaxSources) (call : Seqlock.PubPc SourceState) (count : UInt32)
  | heartbeat (count : UInt32)
  | work
  | testDone (work : Int64)
  | finish (work : Int64)
  | storeDone
  | done

/-- The fast thread with its working set. -/
structure Fast where
  pc : FastPc
  fleet : FleetSoA
  publishes : Fin kMaxSources → UInt32
  started : UInt64
  drained : Bool
  /-- History: the records passed to `integrate`, oldest first. -/
  integrated : List Record

/-- The thread as it starts. -/
def Fast.init : Fast :=
  { pc := .test, fleet := FleetSoA.init, publishes := fun _ => 0, started := 0, drained := false
    integrated := [] }

/-- The state published for a source. -/
def FleetSoA.state (fleet : FleetSoA) (id : Fin kMaxSources) (count : UInt32) : SourceState :=
  { posX := fleet.posX id, posY := fleet.posY id, velX := fleet.velX id, velY := fleet.velY id
    sequence := fleet.sequence id, publishes := count, timeNs := fleet.timeNs id, valid := 1 }

/-- The loop body up to the first access of `publish`: integrate, and on success count. -/
def Fast.absorb (t : Fast) (record : Record) : Fast :=
  match integrate t.fleet record kFastPeriodNs with
  | (.ok, fleet) =>
      { t with
        pc := .publish (sourceIndex record.sourceId)
          (.loadSeq (fleet.state (sourceIndex record.sourceId)
            (t.publishes (sourceIndex record.sourceId) + 1)))
          (t.publishes (sourceIndex record.sourceId) + 1)
        fleet := fleet
        publishes := Function.update t.publishes (sourceIndex record.sourceId)
          (t.publishes (sourceIndex record.sourceId) + 1)
        drained := true
        integrated := t.integrated ++ [record] }
  | (_, fleet) =>
      { t with pc := .pop .loadRead, fleet := fleet, drained := true
               integrated := t.integrated ++ [record] }

/-- `finish_cycle`'s `fetch_add`: one more overrun when the work exceeded the period. -/
def countOverrun (overruns : UInt32) (workNs periodNs : Int64) : UInt32 :=
  if budgetOverrun workNs periodNs then overruns + 1 else overruns

/-- One step of the fast thread. -/
def fastStep (clock : UInt64) (l : Layout) (t : Fast) : Option (Layout × Fast) :=
  match t.pc with
  | .test =>
      if l.control.shutdown ≠ 0 then some (l, { t with pc := .storeDone })
      else some (l, { t with pc := .beat })
  | .beat => some (l, { t with pc := .storeBeat clock })
  | .storeBeat now =>
      some ({ l with control := { l.control with heartbeatFast := now } }, { t with pc := .start })
  | .start => some (l, { t with pc := .pop .loadRead, started := clock, drained := false })
  | .pop call =>
      match SpscRing.popStep l.ring call with
      | (ring, call', none) => some ({ l with ring := ring }, { t with pc := .pop call' })
      | (ring, _, some none) => some ({ l with ring := ring }, { t with pc := .work })
      | (ring, _, some (some record)) => some ({ l with ring := ring }, t.absorb record)
  | .publish id call count =>
      match Seqlock.publishStep (l.latest id) call with
      | (lock, .idle) =>
          some ({ l with latest := Function.update l.latest id lock },
            { t with pc := .heartbeat count })
      | (lock, call') =>
          some ({ l with latest := Function.update l.latest id lock },
            { t with pc := .publish id call' count })
  | .heartbeat count =>
      some ({ l with control := { l.control with heartbeatCompute := count.toUInt64 } },
        { t with pc := .pop .loadRead })
  | .work =>
      -- `!drained` is tested first, so a cycle that drained something skips the load
      if t.drained then some (l, { t with pc := .finish (clock - t.started).toInt64 })
      else some (l, { t with pc := .testDone (clock - t.started).toInt64 })
  | .testDone work =>
      if l.control.ingestDone ≠ 0 then some (l, { t with pc := .storeDone })
      else some (l, { t with pc := .finish work })
  | .finish work =>
      some ({ l with control := { l.control with
                overrunFast := countOverrun l.control.overrunFast work kFastPeriodNs } },
        { t with pc := .test })
  | .storeDone =>
      some ({ l with control := { l.control with fastDone := 1 } }, { t with pc := .done })
  | .done => none

/-! ## The window thread -/

/-- Where the window thread stands. `publish_windows` runs in two places: `last` tells the
call after the loop from the calls inside it. -/
inductive WindowPc where
  | testFast
  | testStop
  | beat
  | storeBeat (now : UInt64)
  | start
  | load (last : Bool) (id : Fin kMaxSources) (source : SourceState)
      (call : Seqlock.LoadPc SourceState)
  | publish (last : Bool) (id : Fin kMaxSources) (call : Seqlock.PubPc WindowState)
  | work
  | finish (work : Int64)
  | lastBeat
  | storeLastBeat (now : UInt64)
  | storeDone
  | done

/-- The window thread. -/
structure Window where
  pc : WindowPc
  started : UInt64

/-- The thread as it starts. -/
def Window.init : Window := { pc := .testFast, started := 0 }

/-- `publish_windows` enters its loop. -/
def WindowPc.enter (last : Bool) : WindowPc :=
  .load last ⟨0, by decide⟩ {} (.loadBegin 0)

/-- `++id`: the next source, or the end of `publish_windows`. -/
def WindowPc.next (last : Bool) (id : Fin kMaxSources) : WindowPc :=
  if h : id.val + 1 < kMaxSources then .load last ⟨id.val + 1, h⟩ {} (.loadBegin 0)
  else if last then .lastBeat else .work

/-- The window sample of a source. -/
def SourceState.window (source : SourceState) : WindowState :=
  { posX := source.posX, posY := source.posY, sequence := source.sequence
    publishes := source.publishes }

/-- One step of the window thread. -/
def windowStep (clock : UInt64) (l : Layout) (t : Window) : Option (Layout × Window) :=
  match t.pc with
  | .testFast =>
      if l.control.fastDone ≠ 0 then some (l, { t with pc := .enter true })
      else some (l, { t with pc := .testStop })
  | .testStop =>
      if l.control.shutdown ≠ 0 then some (l, { t with pc := .enter true })
      else some (l, { t with pc := .beat })
  | .beat => some (l, { t with pc := .storeBeat clock })
  | .storeBeat now =>
      some ({ l with control := { l.control with heartbeatWindow := now } },
        { t with pc := .start })
  | .start => some (l, { pc := .enter false, started := clock })
  | .load last id source call =>
      match Seqlock.loadStep (l.latest id) source call with
      | (source', call', none) => some (l, { t with pc := .load last id source' call' })
      | (source', _, some ok) =>
          if ok = false ∨ source'.valid = 0 then some (l, { t with pc := .next last id })
          else some (l, { t with pc := .publish last id (.loadSeq source'.window) })
  | .publish last id call =>
      match Seqlock.publishStep (l.window id) call with
      | (lock, .idle) =>
          some ({ l with window := Function.update l.window id lock },
            { t with pc := .next last id })
      | (lock, call') =>
          some ({ l with window := Function.update l.window id lock },
            { t with pc := .publish last id call' })
  | .work => some (l, { t with pc := .finish (clock - t.started).toInt64 })
  | .finish work =>
      some ({ l with control := { l.control with
                overrunWindow := countOverrun l.control.overrunWindow work kWindowPeriodNs } },
        { t with pc := .testFast })
  | .lastBeat => some (l, { t with pc := .storeLastBeat clock })
  | .storeLastBeat now =>
      some ({ l with control := { l.control with heartbeatWindow := now } },
        { t with pc := .storeDone })
  | .storeDone =>
      some ({ l with control := { l.control with windowDone := 1 } }, { t with pc := .done })
  | .done => none

/-! ## The snapshot thread -/

/-- Where the snapshot thread stands. -/
inductive SnapshotPc where
  | testWindow
  | testStop
  | beat
  | storeBeat (now : UInt64)
  | start
  | work
  | finish (work : Int64)
  | loadGeneration
  | load (id : Fin kMaxSources) (row : WindowState) (call : Seqlock.LoadPc WindowState)
  /-- The parts of `snap` below `k` are in the write slot. -/
  | fill (k : Nat)
  | publish (call : TripleBuffer.PubPc)
  | lastBeat
  | storeLastBeat (now : UInt64)
  | storeDone
  | done

/-- The snapshot thread. -/
structure SnapshotThread where
  pc : SnapshotPc
  started : UInt64
  snap : Snapshot

/-- The thread as it starts. -/
def SnapshotThread.init : SnapshotThread := { pc := .testWindow, started := 0, snap := {} }

/-- `++id`: the next row, or the store to the write slot. -/
def SnapshotPc.next (id : Fin kMaxSources) : SnapshotPc :=
  if h : id.val + 1 < kMaxSources then .load ⟨id.val + 1, h⟩ {} (.loadBegin 0) else .fill 0

/-- `snap.rows[id] = row`. -/
def Snapshot.setRow (snap : Snapshot) (id : Fin kMaxSources) (row : WindowState) : Snapshot :=
  { snap with rows := Function.update snap.rows id row }

/-- One step of the snapshot thread. -/
def snapshotStep (clock : UInt64) (l : Layout) (t : SnapshotThread) :
    Option (Layout × SnapshotThread) :=
  match t.pc with
  | .testWindow =>
      if l.control.windowDone ≠ 0 then some (l, { t with pc := .loadGeneration })
      else some (l, { t with pc := .testStop })
  | .testStop =>
      if l.control.shutdown ≠ 0 then some (l, { t with pc := .loadGeneration })
      else some (l, { t with pc := .beat })
  | .beat => some (l, { t with pc := .storeBeat clock })
  | .storeBeat now =>
      some ({ l with control := { l.control with heartbeatSnapshot := now } },
        { t with pc := .start })
  | .start => some (l, { t with pc := .work, started := clock })
  | .work => some (l, { t with pc := .finish (clock - t.started).toInt64 })
  | .finish work =>
      some ({ l with control := { l.control with
                overrunSnapshot :=
                  countOverrun l.control.overrunSnapshot work kSnapshotPeriodNs } },
        { t with pc := .testWindow })
  | .loadGeneration =>
      some (l, { t with pc := .load ⟨0, by decide⟩ {} (.loadBegin 0)
                        snap := { generation := l.control.generation } })
  | .load id row call =>
      match Seqlock.loadStep (l.window id) row call with
      | (row', call', none) => some (l, { t with pc := .load id row' call' })
      | (row', _, some true) => some (l, { t with pc := .next id, snap := t.snap.setRow id row' })
      | (_, _, some false) => some (l, { t with pc := .next id })
  | .fill k =>
      some ({ l with snapshots := l.snapshots.fill fun slot => t.snap.copyPart slot k },
        { t with pc := if k + 1 < Snapshot.parts then .fill (k + 1) else .publish .exchange })
  | .publish call =>
      match TripleBuffer.publishStep l.snapshots call with
      | (buf, .idle) => some ({ l with snapshots := buf }, { t with pc := .lastBeat })
      | (buf, call') => some ({ l with snapshots := buf }, { t with pc := .publish call' })
  | .lastBeat => some (l, { t with pc := .storeLastBeat clock })
  | .storeLastBeat now =>
      some ({ l with control := { l.control with heartbeatSnapshot := now } },
        { t with pc := .storeDone })
  | .storeDone =>
      some ({ l with control := { l.control with snapshotDone := 1 } }, { t with pc := .done })
  | .done => none

/-! ## The watchdog -/

/-- Where the watchdog stands, with what the sample has read so far. -/
inductive WatchdogPc where
  | testSnapshot
  | testStop
  | now
  | loadFastDone (now : UInt64)
  | loadWindowDone (now : UInt64) (fastDone : Bool)
  | loadFast (now : UInt64) (fastDone windowDone : Bool)
  | loadWindow (now : UInt64) (lateFast windowDone : Bool)
  | loadSnapshot (now : UInt64) (lateFast lateWindow : Bool)
  | storeFault
  | done
  deriving DecidableEq, Repr

/-- One step of the watchdog. -/
def watchdogStep (clock : UInt64) (l : Layout) (pc : WatchdogPc) : Option (Layout × WatchdogPc) :=
  match pc with
  | .testSnapshot =>
      if l.control.snapshotDone ≠ 0 then some (l, .done) else some (l, .testStop)
  | .testStop => if l.control.shutdown ≠ 0 then some (l, .done) else some (l, .now)
  | .now => some (l, .loadFastDone clock)
  | .loadFastDone now => some (l, .loadWindowDone now (decide (l.control.fastDone ≠ 0)))
  | .loadWindowDone now fastDone =>
      some (l, .loadFast now fastDone (decide (l.control.windowDone ≠ 0)))
  | .loadFast now fastDone windowDone =>
      some (l, .loadWindow now
        (heartbeatStalled now l.control.heartbeatFast (stallLimitNs kFastPeriodNs) fastDone)
        windowDone)
  | .loadWindow now lateFast windowDone =>
      some (l, .loadSnapshot now lateFast
        (heartbeatStalled now l.control.heartbeatWindow (stallLimitNs kWindowPeriodNs)
          windowDone))
  | .loadSnapshot now lateFast lateWindow =>
      if lateFast || lateWindow || heartbeatStalled now l.control.heartbeatSnapshot
          (stallLimitNs kSnapshotPeriodNs) false then some (l, .storeFault)
      else some (l, .testSnapshot)
  | .storeFault => some ({ l with control := { l.control with fault := 1 } }, .testSnapshot)
  | .done => none

/-! ## The process -/

/-- Where `run_compute` itself stands. -/
inductive ComputeMainPc where
  | crash
  | attach
  | joinFast
  | joinWindow
  | joinSnapshot
  | joinWatchdog
  | storeDone
  | loadFault
  | exit (code : UInt32)
  deriving DecidableEq, Repr

/-- The compute process. -/
structure Compute where
  fast : Fast
  window : Window
  snapshot : SnapshotThread
  watchdog : WatchdogPc
  main : ComputeMainPc

/-- `ratehub compute <shm>`. -/
def Compute.init : Compute :=
  { fast := Fast.init, window := Window.init, snapshot := SnapshotThread.init
    watchdog := .testSnapshot, main := .crash }

/-- The threads exist: past the attach and before the end. -/
def Compute.attached (p : Compute) : Bool :=
  match p.main with
  | .crash => false
  | .attach => false
  | .exit _ => false
  | _ => true

def FastPc.isDone : FastPc → Bool
  | .done => true
  | _ => false

def WindowPc.isDone : WindowPc → Bool
  | .done => true
  | _ => false

def SnapshotPc.isDone : SnapshotPc → Bool
  | .done => true
  | _ => false

/-- One step of `run_compute`'s own thread, with no crash requested and the mapping
opened. `none` while a join waits. -/
def computeMainStep (l : Layout) (p : Compute) : Option (Layout × ComputeMainPc) :=
  match p.main with
  | .crash => some (l, .attach)
  | .attach => some (l, .joinFast)
  | .joinFast => if p.fast.pc.isDone then some (l, .joinWindow) else none
  | .joinWindow => if p.window.pc.isDone then some (l, .joinSnapshot) else none
  | .joinSnapshot => if p.snapshot.pc.isDone then some (l, .joinWatchdog) else none
  | .joinWatchdog => if p.watchdog = .done then some (l, .storeDone) else none
  | .storeDone => some ({ l with control := { l.control with computeDone := 1 } }, .loadFault)
  | .loadFault => some (l, .exit (if l.control.fault ≠ 0 then 3 else 0))
  | .exit _ => none

/-- The fast thread's step, on the process. -/
def Compute.stepFast (clock : UInt64) (l : Layout) (p : Compute) : Option (Layout × Compute) :=
  if p.attached then (fastStep clock l p.fast).map fun r => (r.1, { p with fast := r.2 })
  else none

/-- The window thread's step, on the process. -/
def Compute.stepWindow (clock : UInt64) (l : Layout) (p : Compute) : Option (Layout × Compute) :=
  if p.attached then (windowStep clock l p.window).map fun r => (r.1, { p with window := r.2 })
  else none

/-- The snapshot thread's step, on the process. -/
def Compute.stepSnapshot (clock : UInt64) (l : Layout) (p : Compute) :
    Option (Layout × Compute) :=
  if p.attached then
    (snapshotStep clock l p.snapshot).map fun r => (r.1, { p with snapshot := r.2 })
  else none

/-- The watchdog's step, on the process. -/
def Compute.stepWatchdog (clock : UInt64) (l : Layout) (p : Compute) :
    Option (Layout × Compute) :=
  if p.attached then
    (watchdogStep clock l p.watchdog).map fun r => (r.1, { p with watchdog := r.2 })
  else none

/-- The main thread's step, on the process. -/
def Compute.stepMain (l : Layout) (p : Compute) : Option (Layout × Compute) :=
  (computeMainStep l p).map fun r => (r.1, { p with main := r.2 })

end RateHub
