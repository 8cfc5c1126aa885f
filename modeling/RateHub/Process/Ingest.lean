import RateHub.Frame
import RateHub.Layout
import RateHub.Sync.BoundedQueue

/-!
# The ingest process

`src/ingest.cpp`. The source thread cuts the replay file into frames and pushes them
through the queue; the frames thread pops, decodes and pushes records into the
ring; the main thread joins both and stores `ingest_done`. One step of a thread is
one access to something shared (the queue, the ring, a control word), with the
thread's own computation up to the next access folded into it.
-/

namespace RateHub

/-- The queue between the two threads: `BoundedQueue<std::array<std::uint8_t, kFrameBytes>, 64>`. -/
abbrev kQueueCapacity : Nat := 64

/-- Where the source thread stands. -/
inductive SourcePc where
  | read
  | testStop (frame : List UInt8)
  | push (frame : List UInt8)
  | beat
  | close
  | done
  deriving DecidableEq, Repr

/-- The source thread: `rest` is what the stream has not read yet. -/
structure Source where
  pc : SourcePc
  rest : List UInt8
  beats : UInt64

/-- Where the frames thread stands. -/
inductive FramesPc where
  | pop
  | decode (frame : List UInt8)
  | push (record : Record) (call : SpscRing.PushPc Record)
  | testStop (record : Record)
  | done
  deriving DecidableEq, Repr

/-- Where `run_ingest` itself stands. -/
inductive IngestMainPc where
  | attach
  | joinSource
  | joinFrames
  | storeDone
  | exit
  deriving DecidableEq, Repr

/-- The ingest process. -/
structure Ingest where
  source : Source
  frames : FramesPc
  main : IngestMainPc
  queue : BoundedQueue (List UInt8)

/-- `ratehub ingest <shm> <replay>`, on a replay file with the given bytes. A file
that cannot be opened reads like an empty one. -/
def Ingest.init (replay : List UInt8) : Ingest :=
  { source := { pc := .read, rest := replay, beats := 0 }
    frames := .pop
    main := .attach
    queue := BoundedQueue.init [] }

/-- One step of the source thread. -/
def sourceStep (l : Layout) (q : BoundedQueue (List UInt8)) (t : Source) :
    Option (Layout × BoundedQueue (List UInt8) × Source) :=
  match t.pc with
  | .read =>
      -- a short read sets eofbit and failbit, and ends the loop
      if t.rest.length < kFrameBytes then some (l, q, { t with pc := .close, rest := [] })
      else
        some (l, q, { t with pc := .testStop (t.rest.take kFrameBytes)
                             rest := t.rest.drop kFrameBytes })
  | .testStop frame =>
      if l.control.shutdown ≠ 0 then some (l, q, { t with pc := .close })
      else some (l, q, { t with pc := .push frame })
  | .push frame =>
      match q.push kQueueCapacity frame with
      | none => none
      | some (true, q') => some (l, q', { t with pc := .beat })
      | some (false, q') => some (l, q', { t with pc := .close })
  | .beat =>
      some ({ l with control := { l.control with heartbeatIngest := t.beats + 1 } }, q,
        { t with pc := .read, beats := t.beats + 1 })
  | .close => some (l, q.close, { t with pc := .done })
  | .done => none

/-- One step of the frames thread; `push_record` is the loop between `push` and `testStop`. -/
def framesStep (l : Layout) (q : BoundedQueue (List UInt8)) (pc : FramesPc) :
    Option (Layout × BoundedQueue (List UInt8) × FramesPc) :=
  match pc with
  | .pop =>
      match q.pop kQueueCapacity with
      | none => none
      | some (none, q') => some (l, q', .done)
      | some (some frame, q') => some (l, q', .decode frame)
  | .decode frame =>
      match decodeFrame frame {} with
      | (.ok, record) => some (l, q, .push record (.loadWrite record))
      | _ => some (l, q, .pop)
  | .push record call =>
      match SpscRing.pushStep l.ring call with
      | (ring, call', none) => some ({ l with ring := ring }, q, .push record call')
      | (ring, _, some true) => some ({ l with ring := ring }, q, .pop)
      | (ring, _, some false) => some ({ l with ring := ring }, q, .testStop record)
  | .testStop record =>
      if l.control.shutdown ≠ 0 then some (l, q, .done)
      else some (l, q, .push record (.loadWrite record))
  | .done => none

/-- One step of `run_ingest`'s own thread, past the attach. `none` while a join waits. -/
def ingestMainStep (l : Layout) (p : Ingest) : Option (Layout × IngestMainPc) :=
  match p.main with
  | .attach => none
  | .joinSource => if p.source.pc = .done then some (l, .joinFrames) else none
  | .joinFrames => if p.frames = .done then some (l, .storeDone) else none
  | .storeDone => some ({ l with control := { l.control with ingestDone := 1 } }, .exit)
  | .exit => none

/-- The source thread's step, on the process. -/
def Ingest.stepSource (l : Layout) (p : Ingest) : Option (Layout × Ingest) :=
  (sourceStep l p.queue p.source).map fun r => (r.1, { p with queue := r.2.1, source := r.2.2 })

/-- The frames thread's step, on the process. -/
def Ingest.stepFrames (l : Layout) (p : Ingest) : Option (Layout × Ingest) :=
  (framesStep l p.queue p.frames).map fun r => (r.1, { p with queue := r.2.1, frames := r.2.2 })

/-- The main thread's step, on the process. -/
def Ingest.stepMain (l : Layout) (p : Ingest) : Option (Layout × Ingest) :=
  (ingestMainStep l p).map fun r => (r.1, { p with main := r.2 })

/-! ## What a step may touch -/

/-- The source thread stores its heartbeat and nothing else. -/
theorem Ingest.stepSource_layout {l l' : Layout} {p p' : Ingest}
    (h : p.stepSource l = some (l', p')) :
    ∃ n, l' = { l with control := { l.control with heartbeatIngest := n } } := by
  simp only [Ingest.stepSource, Option.map_eq_some_iff, Prod.mk.injEq] at h
  obtain ⟨⟨l₁, q₁, t₁⟩, hstep, rfl, _⟩ := h
  unfold sourceStep at hstep
  repeat' split at hstep
  all_goals simp only [Option.some.injEq, Prod.mk.injEq, reduceCtorEq] at hstep
  all_goals exact ⟨_, hstep.1.symm⟩

/-- The frames thread works on the ring and nothing else. -/
theorem Ingest.stepFrames_layout {l l' : Layout} {p p' : Ingest}
    (h : p.stepFrames l = some (l', p')) : ∃ r, l' = { l with ring := r } := by
  simp only [Ingest.stepFrames, Option.map_eq_some_iff, Prod.mk.injEq] at h
  obtain ⟨⟨l₁, q₁, f₁⟩, hstep, rfl, _⟩ := h
  unfold framesStep at hstep
  repeat' split at hstep
  all_goals simp only [Option.some.injEq, Prod.mk.injEq, reduceCtorEq] at hstep
  all_goals exact ⟨_, hstep.1.symm⟩

/-- The main thread stores `ingest_done` and nothing else. -/
theorem Ingest.stepMain_layout {l l' : Layout} {p p' : Ingest}
    (h : p.stepMain l = some (l', p')) :
    ∃ n, l' = { l with control := { l.control with ingestDone := n } } := by
  simp only [Ingest.stepMain, Option.map_eq_some_iff, Prod.mk.injEq] at h
  obtain ⟨⟨l₁, m₁⟩, hstep, rfl, _⟩ := h
  unfold ingestMainStep at hstep
  repeat' split at hstep
  all_goals simp only [Option.some.injEq, Prod.mk.injEq, reduceCtorEq] at hstep
  all_goals exact ⟨_, hstep.1.symm⟩

/-! ## The process with its two neighbours

Ingest, once attached, together with whoever pops the ring and with the
supervisor's one store that concerns it. -/

/-- Ingest, the mapping and the call in progress of the ring's consumer. -/
structure IngestRun where
  layout : Layout
  ingest : Ingest
  consumer : SpscRing.PopPc Record

/-- Who moves. -/
inductive IngestAct where
  | source
  | frames
  | main
  | consumer
  | setShutdown
  deriving DecidableEq, Repr

/-- One step. The consumer calls `try_pop` whenever it likes. -/
def IngestRun.step (s : IngestRun) : IngestAct → Option IngestRun
  | .source => (s.ingest.stepSource s.layout).map fun r => { s with layout := r.1, ingest := r.2 }
  | .frames => (s.ingest.stepFrames s.layout).map fun r => { s with layout := r.1, ingest := r.2 }
  | .main => (s.ingest.stepMain s.layout).map fun r => { s with layout := r.1, ingest := r.2 }
  | .consumer =>
      match s.consumer with
      | .idle => some { s with consumer := .loadRead }
      | pc =>
          some { s with layout := { s.layout with ring := (SpscRing.popStep s.layout.ring pc).1 }
                        consumer := (SpscRing.popStep s.layout.ring pc).2.1 }
  | .setShutdown =>
      some { s with layout := { s.layout with
                                control := { s.layout.control with shutdown := 1 } } }

/-- The threads have just been started on a freshly constructed mapping. -/
def IngestRun.start (replay : List UInt8) : IngestRun :=
  { layout := Layout.init
    ingest := { Ingest.init replay with main := .joinSource }
    consumer := .idle }

end RateHub
