import RateHub.Proof.IngestMoves

/-!
# When ingest wakes on shutdown

The queue is closed by the source thread and by nobody else, so a source blocked in
`queue.push` depends on the frames thread to pop. The frames thread has two ways
out of its loop. The one through `pop` is harmless: it needs the queue closed, and
then the source is past its last push. The other one, `push_record` finding the
ring full and the shutdown flag set, leaves the queue as it is.

After that exit the source can still make the one push it was already committed
to; its next look at the flag ends its loop. So everything depends on whether that
one push finds room, which is a condition on the state the frames thread leaves.
-/

namespace RateHub

/-! ## The invariant -/

/-- A frames thread that is gone without the queue being closed has left room for one push. -/
structure WakeInv (flag : UInt32) (p : Ingest) : Prop extends QueueInv flag p where
  room : p.frames = .done → p.queue.closed = true
    ∨ (p.pushing = true → p.queue.size < kQueueCapacity)

theorem wakeInv_init (flag : UInt32) (replay : List UInt8) : WakeInv flag (Ingest.init replay) where
  toQueueInv := queueInv_init flag replay
  room := by intro h; simp [Ingest.init] at h

/-- **The source thread keeps it.** -/
theorem WakeInv.source {l l' : Layout} {p p' : Ingest} (h : WakeInv l.control.shutdown p)
    (hm : SourceMove l p l' p') : WakeInv l.control.shutdown p' := by
  refine ⟨h.toQueueInv.source hm, ?_⟩
  cases hm with
  | go hpc hflag =>
      -- the flag was clear, so the frames thread is still there
      intro hf
      exact absurd hflag (h.flag_of_gone (by simp [hpc]) hf)
  | close hpc => exact fun _ => Or.inl rfl
  | _ => exact fun _ => Or.inr (by simp [Ingest.pushing])

/-- **The frames thread keeps it**, unless it gives up on a source that found the queue full. -/
theorem WakeInv.frames {l l' : Layout} {p p' : Ingest} (h : WakeInv l.control.shutdown p)
    (hroom : p.givingUp = true → l.control.shutdown ≠ 0 → p.pushing = true →
      p.queueFull = false)
    (hm : FramesMove l p l' p') : WakeInv l.control.shutdown p' := by
  refine ⟨h.toQueueInv.frames hm, ?_⟩
  cases hm with
  | last hpc hpop =>
      rcases BoundedQueue.pop_spec hpop with ⟨_, hc, _, rfl⟩ | ⟨hv, _⟩
      · exact fun _ => Or.inl hc
      · exact absurd hv (by simp)
  | stop hpc hflag =>
      intro _
      cases hc : p.queue.closed with
      | true => exact Or.inl rfl
      | false =>
          refine Or.inr fun hp => ?_
          have hnf := hroom (by simp [Ingest.givingUp, hpc]) hflag hp
          simp only [Ingest.queueFull, hc, Bool.not_false, Bool.and_true,
            decide_eq_false_iff_not] at hnf
          have := h.size_le
          simp only
          omega
  | _ =>
      intro hd
      cases hd

theorem WakeInv.main {flag : UInt32} {l l' : Layout} {p p' : Ingest} (h : WakeInv flag p)
    (hs : p.stepMain l = some (l', p')) : WakeInv flag p' := by
  refine ⟨h.toQueueInv.main hs, ?_⟩
  simp only [Ingest.stepMain, Option.map_eq_some_iff, Prod.mk.injEq] at hs
  obtain ⟨⟨l₁, m₁⟩, _, _, rfl⟩ := hs
  exact h.room

/-! ## Every run -/

namespace IngestRun

/-- The frames thread is gone and the source thread is blocked for good. -/
def stuck (s : IngestRun) : Bool :=
  decide (s.ingest.frames = .done) && s.ingest.pushing && s.ingest.queueFull

/-- The step is not the frames thread giving up, on finding the flag set, on a
source thread that is inside `queue.push` on a full queue. -/
def leavesRoom (s : IngestRun) : IngestAct → Bool
  | .frames =>
      !(s.ingest.givingUp && decide (s.layout.control.shutdown ≠ 0) && s.ingest.pushing
        && s.ingest.queueFull)
  | _ => true

/-- Every state of every interleaving on a replay file. -/
def Reachable (replay : List UInt8) : IngestRun → Prop :=
  Transition.Reachable IngestRun.step (fun _ _ => True) (· = IngestRun.start replay)

/-- The same, over the runs whose steps leave room. -/
def ReachableRoom (replay : List UInt8) : IngestRun → Prop :=
  Transition.Reachable IngestRun.step (fun s a => s.leavesRoom a = true)
    (· = IngestRun.start replay)

end IngestRun

theorem wakeInv_step {s s' : IngestRun} {a : IngestAct}
    (h : WakeInv s.layout.control.shutdown s.ingest) (hr : s.leavesRoom a = true)
    (hs : s.step a = some s') : WakeInv s'.layout.control.shutdown s'.ingest := by
  cases a with
  | source =>
      simp only [IngestRun.step, Option.map_eq_some_iff] at hs
      obtain ⟨⟨l', p'⟩, hstep, rfl⟩ := hs
      obtain ⟨n, rfl⟩ := Ingest.stepSource_layout hstep
      exact h.source (Ingest.sourceMove hstep)
  | frames =>
      simp only [IngestRun.step, Option.map_eq_some_iff] at hs
      obtain ⟨⟨l', p'⟩, hstep, rfl⟩ := hs
      obtain ⟨r, rfl⟩ := Ingest.stepFrames_layout hstep
      refine h.frames ?_ (Ingest.framesMove hstep)
      intro hg hflag hp
      simpa [IngestRun.leavesRoom, hg, hflag, hp] using hr
  | main =>
      simp only [IngestRun.step, Option.map_eq_some_iff] at hs
      obtain ⟨⟨l', p'⟩, hstep, rfl⟩ := hs
      obtain ⟨n, rfl⟩ := Ingest.stepMain_layout hstep
      exact h.main hstep
  | consumer =>
      simp only [IngestRun.step] at hs
      split at hs <;> obtain rfl := Option.some.inj hs <;> exact h
  | setShutdown =>
      obtain rfl := Option.some.inj hs
      exact ⟨h.toQueueInv.set_flag (by simp), h.room⟩

/--
**Ingest wakes on shutdown in every run that leaves room.**

For every replay file and every interleaving of the two threads with the ring's
consumer and with the flag being set at any moment: as long as the frames thread
does not give up on a source thread that is already inside `queue.push` on a full
queue, no state has the frames thread terminated and the source thread blocked.
-/
theorem never_stuck_with_room {replay : List UInt8} {s : IngestRun}
    (h : IngestRun.ReachableRoom replay s) : s.stuck = false := by
  have hi : WakeInv s.layout.control.shutdown s.ingest := by
    refine Transition.Reachable.invariant
      (I := fun s => WakeInv s.layout.control.shutdown s.ingest) ?_ ?_ h
    · rintro s rfl
      have hinit := wakeInv_init 0 replay
      exact ⟨⟨hinit.closed_iff, hinit.gone, hinit.size_le⟩, hinit.room⟩
    · intro s a s' hi hr hs
      exact wakeInv_step hi hr hs
  cases hst : s.stuck with
  | false => rfl
  | true =>
      simp only [IngestRun.stuck, Ingest.queueFull, Bool.and_eq_true, decide_eq_true_eq,
        Bool.not_eq_true'] at hst
      obtain ⟨⟨hf, hp⟩, hfull, hopen⟩ := hst
      rcases hi.room hf with hc | hlt
      · rw [hopen] at hc
        exact absurd hc (by simp)
      · have := hlt hp
        omega

/-- A short run with the flag set while the source is inside `queue.push`: the queue has room,
the frames thread drops the one bad frame, and both threads end. -/
theorem never_stuck_one_frame :
    ∃ s, IngestRun.ReachableRoom (List.replicate 38 0) s ∧ s.layout.control.shutdown = 1
      ∧ s.ingest.frames = .done ∧ s.ingest.source.pc = .done ∧ s.stuck = false := by
  have h : ∃ s, Transition.execWhen IngestRun.step IngestRun.leavesRoom
      (IngestRun.start (List.replicate 38 0))
      [.source, .source, .setShutdown, .source, .frames, .frames, .source, .source, .source,
        .frames] = some s
      ∧ s.layout.control.shutdown = 1 ∧ s.ingest.frames = .done ∧ s.ingest.source.pc = .done :=
    ⟨_, rfl, rfl, rfl, rfl⟩
  obtain ⟨s, hrun, hflag, hf, hsrc⟩ := h
  have hr : IngestRun.ReachableRoom (List.replicate 38 0) s :=
    Transition.Reachable.execWhen (g := IngestRun.leavesRoom) (fun _ _ hg => hg) _ (.init rfl) hrun
  exact ⟨s, hr, hflag, hf, hsrc, never_stuck_with_room hr⟩

/-! ## The run that gets stuck

One valid frame, often enough to fill the ring, the hands of the frames thread,
the queue and the hands of the source thread: 1023 + 1 + 64 + 1 copies. Nobody
pops the ring. -/

namespace IngestRun

/-- A frame that decodes. -/
def wire : List UInt8 :=
  [0xA1, 0x5C, 0, 3, 0, 1, 0, 0, 0, 0, 0, 1, 0, 0, 0, 0, 0, 0, 0, 0, 0, 0, 3, 0xE8, 0, 0, 0, 0,
    0, 0, 7, 0xD0, 0, 0, 0, 0, 12, 174]

/-- The record it carries. -/
def sample : Record := { sourceId := 1, sequence := 1, posX := 1000, velX := 2000 }

theorem decode_wire : decodeFrame wire {} = (.ok, sample) := by decide +kernel

/-- A replay file of `n` such frames. -/
def copies : Nat → List UInt8
  | 0 => []
  | n + 1 => wire ++ copies n

/-- The states of the run: what varies is the ring, the queue, the source thread and
the frames thread. -/
def feeding (flag : UInt32) (hb : UInt64) (ring : SpscRing Record kRingCapacity)
    (queue : BoundedQueue (List UInt8)) (source : Source) (frames : FramesPc) : IngestRun :=
  { layout := { Layout.init with
                control := { shutdown := flag, heartbeatIngest := hb }, ring := ring }
    ingest := { source := source, frames := frames, main := .joinSource, queue := queue }
    consumer := .idle }

variable {replay : List UInt8} {hb : UInt64} {ring : SpscRing Record kRingCapacity}
  {queue : BoundedQueue (List UInt8)} {rest : List UInt8} {beats : UInt64} {frames : FramesPc}

/-- The source reads a frame and commits to pushing it. -/
theorem offer (h : Reachable replay (feeding 0 hb ring queue ⟨.read, wire ++ rest, beats⟩ frames)) :
    Reachable replay (feeding 0 hb ring queue ⟨.push wire, rest, beats⟩ frames) := by
  have hlen : ¬ (wire ++ rest).length < kFrameBytes := by
    rw [List.length_append]
    exact Nat.not_lt.mpr (Nat.le_add_right 38 _)
  have htake : (wire ++ rest).take kFrameBytes = wire := List.take_left' rfl
  have hdrop : (wire ++ rest).drop kFrameBytes = rest := List.drop_left' rfl
  refine (h.tail trivial (a := .source)
    (t := feeding 0 hb ring queue ⟨.testStop wire, rest, beats⟩ frames) ?_).tail trivial
    (a := .source) rfl
  simp only [IngestRun.step, feeding, Ingest.stepSource, sourceStep, if_neg hlen, htake, hdrop,
    Option.map_some]

/-- With room in the queue, the push goes through. -/
theorem deliver (h : Reachable replay (feeding 0 hb ring queue ⟨.read, wire ++ rest, beats⟩ frames))
    (hopen : queue.closed = false) (hroom : queue.size < kQueueCapacity) :
    ∃ hb' q' beats', Reachable replay (feeding 0 hb' ring q' ⟨.read, rest, beats'⟩ frames)
      ∧ q'.size = queue.size + 1 ∧ q'.closed = false ∧ q'.head = queue.head
      ∧ q'.slots ((queue.head + queue.size) % kQueueCapacity) = wire := by
  obtain ⟨q', hpush, hspec⟩ := BoundedQueue.push_room wire hopen hroom
  refine ⟨beats + 1, q', beats + 1, ((offer h).tail trivial (a := .source)
    (t := feeding 0 hb ring q' ⟨.beat, rest, beats⟩ frames) ?_).tail
    trivial (a := .source) rfl, hspec⟩
  simp only [IngestRun.step, feeding, Ingest.stepSource, sourceStep, hpush, Option.map_some]

/-- The frames thread takes the frame at the head of the queue and decodes it. -/
theorem take (h : Reachable replay (feeding 0 hb ring queue ⟨.read, rest, beats⟩ .pop))
    (hsize : 0 < queue.size) (hslot : queue.slots queue.head = wire) :
    ∃ q', Reachable replay (feeding 0 hb ring q' ⟨.read, rest, beats⟩
        (.push sample (.loadRead sample ring.write)))
      ∧ q'.size = queue.size - 1 ∧ q'.closed = queue.closed ∧ q'.head < kQueueCapacity := by
  obtain ⟨q', hpop, hspec⟩ := BoundedQueue.pop_some (c := kQueueCapacity) (by decide) hsize
  rw [hslot] at hpop
  have h₁ := h.tail trivial (a := .frames)
    (t := feeding 0 hb ring q' ⟨.read, rest, beats⟩ (.decode wire)) (by
      simp only [IngestRun.step, feeding, Ingest.stepFrames, framesStep, hpop, Option.map_some])
  have h₂ := h₁.tail trivial (a := .frames)
    (t := feeding 0 hb ring q' ⟨.read, rest, beats⟩ (.push sample (.loadWrite sample))) (by
      simp only [IngestRun.step, feeding, Ingest.stepFrames, framesStep, decode_wire,
        Option.map_some])
  exact ⟨q', h₂.tail trivial (a := .frames) rfl, hspec⟩

/-- With room in the ring, its push goes through. -/
theorem forward (h : Reachable replay (feeding 0 hb ring queue ⟨.read, rest, beats⟩
      (.push sample (.loadRead sample ring.write))))
    (hroom : SpscRing.next kRingCapacity ring.write ≠ ring.read) :
    Reachable replay (feeding 0 hb (SpscRing.pushStep
        (ring.setSlot ring.write sample) (.storeWrite sample ring.write)).1 queue
      ⟨.read, rest, beats⟩ .pop) := by
  have hload : SpscRing.pushStep ring (.loadRead sample ring.write)
      = (ring, .copy sample ring.write, none) := if_neg hroom
  have h₁ := h.tail trivial (a := .frames) (t := feeding 0 hb ring queue ⟨.read, rest, beats⟩
    (.push sample (.copy sample ring.write))) (by
      simp only [IngestRun.step, feeding, Ingest.stepFrames, framesStep, hload, Option.map_some])
  exact (h₁.tail trivial (a := .frames) rfl).tail trivial (a := .frames) rfl

/-- A run that feeds `n` records into the ring and leaves `m` frames in the file. -/
theorem fill_ring (n m : Nat) (hn : n + 1 ≤ kRingCapacity.size) :
    ∃ hb ring queue beats,
      Reachable (copies (n + m)) (feeding 0 hb ring queue ⟨.read, copies m, beats⟩ .pop)
        ∧ ring.Inv ∧ ring.pushed.length = n ∧ ring.popped = []
        ∧ queue.size = 0 ∧ queue.closed = false ∧ queue.head < kQueueCapacity := by
  induction n generalizing m with
  | zero =>
      refine ⟨0, SpscRing.init {}, BoundedQueue.init [], 0, ?_, SpscRing.inv_init _, rfl, rfl,
        rfl, rfl, by decide⟩
      rw [Nat.zero_add]
      exact .init rfl
  | succ n ih =>
      obtain ⟨hb, ring, queue, beats, h, hinv, hlen, hpop, hsize, hopen, hhead⟩ :=
        ih (m + 1) (by omega)
      rw [show n + (m + 1) = n + 1 + m by omega] at h
      obtain ⟨hb₁, q₁, beats₁, h₁, hsize₁, hopen₁, hhead₁, hslot₁⟩ :=
        deliver h hopen (by rw [hsize]; decide)
      rw [hsize, Nat.add_zero, Nat.mod_eq_of_lt hhead, ← hhead₁] at hslot₁
      obtain ⟨q₂, h₂, hsize₂, hopen₂, hhead₂⟩ := take h₁ (by omega) hslot₁
      have hne : SpscRing.next kRingCapacity ring.write ≠ ring.read := by
        rw [Ne, hinv.full_iff, hlen, hpop, List.length_nil]
        omega
      refine ⟨hb₁, _, q₂, beats₁, forward h₂ hne, ?_, ?_, hpop, by omega, hopen₂.trans hopen₁,
        hhead₂⟩
      · -- the ring's own invariant, through the last two accesses of the call
        have hroom : ring.pushed.length + 1 < ring.popped.length + kRingCapacity.size := by
          rw [hpop, hlen, List.length_nil]
          omega
        have hcall : SpscRing.CallInv ring (.copy sample ring.write) .idle :=
          ⟨hinv, ⟨rfl, hroom⟩, trivial⟩
        exact hcall.pushStep.pushStep.ring
      · simp [SpscRing.pushStep, SpscRing.setSlot, hlen]

/-- A run from there that feeds `k` frames into the queue. -/
theorem fill_queue {ring : SpscRing Record kRingCapacity} (k m : Nat) (hk : k ≤ kQueueCapacity)
    (h : Reachable replay (feeding 0 hb ring queue ⟨.read, copies (k + m), beats⟩ frames))
    (hsize : queue.size = 0) (hopen : queue.closed = false) :
    ∃ hb queue beats, Reachable replay (feeding 0 hb ring queue ⟨.read, copies m, beats⟩ frames)
      ∧ queue.size = k ∧ queue.closed = false := by
  induction k generalizing m with
  | zero =>
      rw [Nat.zero_add] at h
      exact ⟨hb, queue, beats, h, hsize, hopen⟩
  | succ k ih =>
      rw [show k + 1 + m = k + (m + 1) by omega] at h
      obtain ⟨hb₁, q₁, beats₁, h₁, hsize₁, hopen₁⟩ := ih (m + 1) (by omega) h
      obtain ⟨hb₂, q₂, beats₂, h₂, hsize₂, hopen₂, _⟩ := deliver h₁ hopen₁ (by omega)
      exact ⟨hb₂, q₂, beats₂, h₂, by omega, hopen₂⟩

end IngestRun

/-- On a replay of 1089 valid frames, with the ring not being popped when the flag is
set, the frames thread ends and the source thread stays blocked in `queue.push`. -/
theorem stuck_on_full_queue :
    ∃ s, IngestRun.Reachable (IngestRun.copies 1089) s ∧ s.stuck = true := by
  obtain ⟨hb, ring, queue, beats, h, hinv, hlen, hpop, hsize, hopen, hhead⟩ :=
    IngestRun.fill_ring 1023 66 (by decide)
  -- one more record for the frames thread, which finds the ring full
  obtain ⟨hb₁, q₁, beats₁, h₁, hsize₁, hopen₁, hhead₁, hslot₁⟩ :=
    IngestRun.deliver h hopen (by rw [hsize]; decide)
  rw [hsize, Nat.add_zero, Nat.mod_eq_of_lt hhead, ← hhead₁] at hslot₁
  obtain ⟨q₂, h₂, hsize₂, hopen₂, _⟩ := IngestRun.take h₁ (by omega) hslot₁
  have hfull : SpscRing.next kRingCapacity ring.write = ring.read := by
    rw [hinv.full_iff, hlen, hpop]
    rfl
  have hload : SpscRing.pushStep ring (.loadRead IngestRun.sample ring.write)
      = (ring, .idle, some false) := if_pos hfull
  have h₃ := h₂.tail trivial (a := .frames)
    (t := IngestRun.feeding 0 hb₁ ring q₂ ⟨.read, IngestRun.copies 65, beats₁⟩
      (.testStop IngestRun.sample)) (by
      simp only [IngestRun.step, IngestRun.feeding, Ingest.stepFrames, framesStep,
        hload, Option.map_some])
  -- the source fills the queue and commits to one push more
  obtain ⟨hb₄, q₄, beats₄, h₄, hsize₄, hopen₄⟩ :=
    IngestRun.fill_queue 64 1 (by decide) h₃ (by omega) (hopen₂.trans hopen₁)
  have h₅ := IngestRun.offer h₄
  -- the flag is set, and the frames thread gives up
  have h₆ := h₅.tail trivial (a := .setShutdown) rfl
  refine ⟨_, h₆.tail trivial (a := .frames) rfl, ?_⟩
  simp [IngestRun.stuck, IngestRun.feeding, Ingest.pushing, Ingest.queueFull, hsize₄, hopen₄]

end RateHub
