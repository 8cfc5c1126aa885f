import RateHub.Proof.IngestWakes
import RateHub.Proof.System
import RateHub.Sync.BoundedQueueProof

/-!
# Ingest is chunk and filter

What ingest is for, without threads and queues: cut the replay file into frames and
keep the records of the good ones. `replayRecords` says so, and `Traced` accounts for every
frame on its way: pushed into the ring, in the hands of the frames thread, in the queue,
in the hands of the source thread, or not read yet. Only the shutdown flag makes either
thread drop what it holds.
-/

namespace RateHub

/-! ## The specification -/

/-- The file cut into consecutive frames; a shorter tail is dropped. -/
def cutFrames (bytes : List UInt8) : List (List UInt8) :=
  (List.range (bytes.length / kFrameBytes)).map fun i =>
    (bytes.drop (kFrameBytes * i)).take kFrameBytes

/-- The record of a frame that `decode_frame` accepts. -/
def goodRecord (frame : List UInt8) : Option Record :=
  match decodeFrame frame {} with
  | (.ok, record) => some record
  | _ => none

/-- The records of a replay file. -/
def replayRecords (bytes : List UInt8) : List Record := (cutFrames bytes).filterMap goodRecord

theorem cutFrames_short {bytes : List UInt8} (h : bytes.length < kFrameBytes) :
    cutFrames bytes = [] := by
  simp [cutFrames, Nat.div_eq_of_lt h]

theorem cutFrames_cons {bytes : List UInt8} (h : ¬ bytes.length < kFrameBytes) :
    cutFrames bytes = bytes.take kFrameBytes :: cutFrames (bytes.drop kFrameBytes) := by
  have hlen : bytes.length / kFrameBytes = (bytes.length - kFrameBytes) / kFrameBytes + 1 := by
    rw [Nat.div_eq_sub_div (by decide) (by omega)]
  simp only [cutFrames, hlen, List.range_succ_eq_map, List.map_cons, List.map_map, Nat.mul_zero,
    List.drop_zero, List.length_drop]
  congr 1
  refine List.map_congr_left ?_
  intro i _
  simp only [Function.comp_apply, List.drop_drop, Nat.succ_eq_add_one, Nat.mul_add, Nat.mul_one,
    Nat.add_comm kFrameBytes]

/-! ## What is on its way -/

/-- The frame the source thread has read and not queued. -/
def Source.held (t : Source) : List (List UInt8) :=
  match t.pc with
  | .testStop frame => [frame]
  | .push frame => [frame]
  | _ => []

/-- The record the frames thread has taken out of the queue and not pushed. -/
def FramesPc.held : FramesPc → List Record
  | .decode frame => (goodRecord frame).toList
  | .push record _ => [record]
  | .testStop record => [record]
  | _ => []

/-- The `try_push` in progress is one of `record`. -/
def SpscRing.PushPc.Carries (record : Record) : SpscRing.PushPc Record → Prop
  | .idle => False
  | .loadWrite v => v = record
  | .loadRead v _ => v = record
  | .copy v _ => v = record
  | .storeWrite v _ => v = record

/-- Every frame of the file is accounted for. -/
structure Traced (replay : List UInt8) (flag : UInt32) (pushed : List Record) (p : Ingest) :
    Prop extends QueueInv flag p where
  fifo : BoundedQueue.Fifo kQueueCapacity p.queue
  /-- Up to the queue: only a source thread that saw the flag leaves frames behind. -/
  cut : ∃ tail, cutFrames replay = p.queue.accepted ++ p.source.held ++ tail
    ∧ (flag = 0 ∨ (p.source.pc ≠ .close ∧ p.source.pc ≠ .done) → tail = cutFrames p.source.rest)
  rest : p.source.pc = .close ∨ p.source.pc = .done → flag = 0 → p.source.rest = []
  /-- From the queue on: only a frames thread that saw the flag drops its record. -/
  kept : ∃ lost, p.queue.taken.filterMap goodRecord = pushed ++ p.frames.held ++ lost
    ∧ (lost = [] ∨ (p.frames = .done ∧ flag ≠ 0))
  carries : ∀ record call, p.frames = .push record call → call.Carries record
  drained : p.frames = .done → flag = 0 → p.queue.size = 0

theorem traced_start (replay : List UInt8) :
    Traced replay 0 [] { Ingest.init replay with main := .joinSource } where
  closed_iff := (queueInv_init 0 replay).closed_iff
  gone := (queueInv_init 0 replay).gone
  size_le := (queueInv_init 0 replay).size_le
  fifo := BoundedQueue.fifo_init _ (by decide)
  cut := ⟨cutFrames replay, rfl, fun _ => rfl⟩
  rest := by intro h; rcases h with h | h <;> cases h
  kept := ⟨[], rfl, Or.inl rfl⟩
  carries := by intro record call h; cases h
  drained := by intro h; cases h

namespace Traced

variable {replay : List UInt8} {flag : UInt32} {pushed : List Record} {l l' : Layout}
  {p p' : Ingest}

/-- The flag is only ever set. -/
theorem set_flag {flag' : UInt32} (h : Traced replay flag pushed p) (hset : flag ≠ 0 → flag' ≠ 0) :
    Traced replay flag' pushed p where
  toQueueInv := h.toQueueInv.set_flag hset
  fifo := h.fifo
  cut := by
    obtain ⟨tail, hcut, htail⟩ := h.cut
    refine ⟨tail, hcut, fun hor => htail (hor.imp_left ?_)⟩
    intro h0
    by_contra hne
    exact hset hne h0
  rest hpc h0 := h.rest hpc (by by_contra hne; exact hset hne h0)
  kept := by
    obtain ⟨lost, hkept, hlost⟩ := h.kept
    exact ⟨lost, hkept, hlost.imp_right fun hl => ⟨hl.1, hset hl.2⟩⟩
  carries := h.carries
  drained hf h0 := h.drained hf (by by_contra hne; exact hset hne h0)

/-- While the source reads on, what is behind it is the rest of the file. -/
theorem cut_open (h : Traced replay flag pushed p)
    (hpc : p.source.pc ≠ .close ∧ p.source.pc ≠ .done) :
    cutFrames replay = p.queue.accepted ++ p.source.held ++ cutFrames p.source.rest := by
  obtain ⟨tail, hcut, htail⟩ := h.cut
  rw [hcut, htail (Or.inr hpc)]

/-- **The source thread accounts for its frames.** -/
theorem source (h : Traced replay l.control.shutdown pushed p) (hm : SourceMove l p l' p') :
    Traced replay l.control.shutdown pushed p' := by
  have hq := h.toQueueInv.source hm
  cases hm with
  | short hpc hlen =>
      have hcut := h.cut_open (by simp [hpc])
      refine ⟨hq, h.fifo, ⟨[], ?_, fun _ => (cutFrames_short (by simp)).symm⟩, fun _ _ => rfl,
        h.kept, h.carries, h.drained⟩
      rw [hcut, cutFrames_short hlen]
      simp [Source.held, hpc]
  | read hpc hlen =>
      have hcut := h.cut_open (by simp [hpc])
      refine ⟨hq, h.fifo, ⟨_, ?_, fun _ => rfl⟩, by simp, h.kept, h.carries, h.drained⟩
      rw [hcut, cutFrames_cons hlen]
      simp [Source.held, hpc]
  | @stop frame hpc hflag =>
      -- the frame in hand stays behind
      have hcut := h.cut_open (by simp [hpc])
      refine ⟨hq, h.fifo, ⟨frame :: cutFrames p.source.rest, ?_, by simp [hflag]⟩,
        fun _ h0 => absurd h0 hflag, h.kept, h.carries, h.drained⟩
      rw [hcut]
      simp [Source.held, hpc]
  | @go frame hpc hflag =>
      have hcut := h.cut_open (by simp [hpc])
      refine ⟨hq, h.fifo, ⟨cutFrames p.source.rest, ?_, fun _ => rfl⟩, by simp, h.kept, h.carries,
        h.drained⟩
      rw [hcut]
      simp [Source.held, hpc]
  | @push frame q' hpc hpush =>
      have hcut := h.cut_open (by simp [hpc])
      obtain ⟨hfifo, htaken, hacc⟩ := h.fifo.push hpush
      refine ⟨hq, hfifo, ⟨cutFrames p.source.rest, ?_, fun _ => rfl⟩, by simp, ?_, h.carries, ?_⟩
      · rw [hcut, hacc]
        simp [Source.held, hpc]
      · rw [htaken]
        exact h.kept
      · -- a frames thread that is gone while the source runs has seen the flag
        intro hf h0
        exact absurd h0 (h.toQueueInv.flag_of_gone (by simp [hpc]) hf)
  | refused hpc hpush =>
      rcases BoundedQueue.push_spec hpush with ⟨_, hc, _⟩ | ⟨hok, _⟩
      · exact absurd hc (by simp [h.toQueueInv.not_closed (by simp [hpc])])
      · exact absurd hok (by simp)
  | beat hpc =>
      have hcut := h.cut_open (by simp [hpc])
      refine ⟨hq, h.fifo, ⟨cutFrames p.source.rest, ?_, fun _ => rfl⟩, by simp, h.kept, h.carries,
        h.drained⟩
      rw [hcut]
      simp [Source.held, hpc]
  | close hpc =>
      obtain ⟨tail, hcut, htail⟩ := h.cut
      refine ⟨hq, h.fifo.close, ⟨tail, ?_, ?_⟩, fun _ => h.rest (Or.inl hpc), h.kept, h.carries,
        h.drained⟩
      · rw [hcut]
        simp [Source.held, hpc, BoundedQueue.close]
      · intro hor
        refine htail (hor.imp_right ?_)
        intro hne
        exact absurd rfl hne.2

/-- The frames thread moves on without taking a frame. -/
theorem move_frames (h : Traced replay flag pushed p) (hnd : p.frames ≠ .done)
    {f : FramesPc} {pushed' : List Record} (hq : QueueInv flag { p with frames := f })
    (hheld : pushed' ++ f.held = pushed ++ p.frames.held)
    (hcall : ∀ record call, f = .push record call → call.Carries record) (hf : f ≠ .done) :
    Traced replay flag pushed' { p with frames := f } where
  toQueueInv := hq
  fifo := h.fifo
  cut := h.cut
  rest := h.rest
  kept := by
    obtain ⟨lost, hkept, hlost⟩ := h.kept
    rcases hlost with rfl | hlost
    · exact ⟨[], by rw [hheld]; exact hkept, Or.inl rfl⟩
    · exact absurd hlost.1 hnd
  carries := hcall
  drained hd := absurd hd hf

/-- **The frames thread accounts for its records.** -/
theorem frames (h : Traced replay l.control.shutdown l.ring.pushed p) (hm : FramesMove l p l' p') :
    Traced replay l.control.shutdown l'.ring.pushed p' := by
  have hq := h.toQueueInv.frames hm
  cases hm with
  | last hpc hpop =>
      obtain ⟨hfifo, hacc, htaken⟩ := h.fifo.pop hpop
      rcases BoundedQueue.pop_spec hpop with ⟨_, _, hsize, rfl⟩ | ⟨hv, _⟩
      · refine ⟨hq, hfifo, h.cut, h.rest, ?_, by simp, fun _ _ => hsize⟩
        obtain ⟨lost, hkept, hlost⟩ := h.kept
        refine ⟨lost, ?_, hlost.imp_right fun hl => ⟨rfl, hl.2⟩⟩
        rw [hkept]
        simp [FramesPc.held, hpc]
      · exact absurd hv (by simp)
  | @pop frame q' hpc hpop =>
      obtain ⟨hfifo, hacc, htaken⟩ := h.fifo.pop hpop
      refine ⟨hq, hfifo, by rw [hacc]; exact h.cut, h.rest, ?_, by simp, by simp⟩
      obtain ⟨lost, hkept, hlost⟩ := h.kept
      rcases hlost with rfl | hlost
      · refine ⟨[], ?_, Or.inl rfl⟩
        rw [htaken, List.filterMap_append, hkept]
        cases hg : goodRecord frame <;> simp [FramesPc.held, hpc, hg]
      · exact absurd hlost.1 (by simp [hpc])
  | @record frame record hpc hd =>
      refine h.move_frames (by simp [hpc]) hq ?_ ?_ (by simp)
      · simp [FramesPc.held, hpc, goodRecord, hd]
      · rintro _ _ ⟨⟩
        rfl
  | @skip frame hpc hd =>
      have hnone : goodRecord frame = none := by
        unfold goodRecord
        split
        · rename_i hok
          exact absurd (by rw [hok]) hd
        · rfl
      refine h.move_frames (by simp [hpc]) hq ?_ (by simp) (by simp)
      simp [FramesPc.held, hpc, hnone]
  | @access record call call' ring hpc hr =>
      have hcar := h.carries record call hpc
      have hboth : ring.pushed = l.ring.pushed ∧ call'.Carries record := by
        cases call with
        | idle => exact absurd hcar id
        | loadRead v w =>
            simp only [SpscRing.pushStep] at hr
            split at hr
            · exact absurd hr (by simp)
            · simp only [Prod.mk.injEq] at hr
              obtain ⟨rfl, rfl, _⟩ := hr
              exact ⟨rfl, hcar⟩
        | storeWrite v w => exact absurd hr (by simp [SpscRing.pushStep])
        | _ =>
            simp only [SpscRing.pushStep, Prod.mk.injEq] at hr
            obtain ⟨rfl, rfl, _⟩ := hr
            exact ⟨rfl, hcar⟩
      refine h.move_frames (by simp [hpc]) hq ?_ ?_ (by simp)
      · simp [FramesPc.held, hpc, hboth.1]
      · rintro _ _ ⟨⟩
        exact hboth.2
  | @pushed record call call' ring hpc hr =>
      -- the index store is what makes the record part of the ring
      have hcar := h.carries record call hpc
      have hring : ring.pushed = l.ring.pushed ++ [record] := by
        cases call with
        | storeWrite v w =>
            simp only [SpscRing.pushStep, Prod.mk.injEq] at hr
            obtain ⟨rfl, _⟩ := hr
            rw [← (hcar : v = record)]
        | loadRead v w =>
            simp only [SpscRing.pushStep] at hr
            split at hr <;> exact absurd hr (by simp)
        | _ => exact absurd hr (by simp [SpscRing.pushStep])
      refine h.move_frames (by simp [hpc]) hq ?_ (by simp) (by simp)
      simp [FramesPc.held, hpc, hring]
  | @full record call call' ring hpc hr =>
      have hring : ring.pushed = l.ring.pushed := by
        cases call with
        | loadRead v w =>
            simp only [SpscRing.pushStep] at hr
            split at hr
            · simp only [Prod.mk.injEq] at hr
              rw [hr.1]
            · exact absurd hr (by simp)
        | _ => exact absurd hr (by simp [SpscRing.pushStep])
      refine h.move_frames (by simp [hpc]) hq ?_ (by simp) (by simp)
      simp [FramesPc.held, hpc, hring]
  | @stop record hpc hflag =>
      -- the record in hand is dropped
      refine ⟨hq, h.fifo, h.cut, h.rest, ?_, by simp, fun _ h0 => absurd h0 hflag⟩
      obtain ⟨lost, hkept, hlost⟩ := h.kept
      refine ⟨record :: lost, ?_, Or.inr ⟨rfl, hflag⟩⟩
      rw [hkept]
      simp [FramesPc.held, hpc]
  | @retry record hpc hflag =>
      refine h.move_frames (by simp [hpc]) hq ?_ ?_ (by simp)
      · simp [FramesPc.held, hpc]
      · rintro _ _ ⟨⟩
        rfl

theorem main (h : Traced replay flag pushed p) (hs : p.stepMain l = some (l', p')) :
    Traced replay flag pushed p' := by
  have hq := h.toQueueInv.main hs
  simp only [Ingest.stepMain, Option.map_eq_some_iff, Prod.mk.injEq] at hs
  obtain ⟨⟨l₁, m₁⟩, _, _, rfl⟩ := hs
  exact ⟨hq, h.fifo, h.cut, h.rest, h.kept, h.carries, h.drained⟩

/-- What has been pushed is a prefix of what the file holds. -/
theorem pushed_prefix (h : Traced replay flag pushed p) : pushed <+: replayRecords replay := by
  obtain ⟨tail, hcut, _⟩ := h.cut
  obtain ⟨lost, hkept, _⟩ := h.kept
  refine ⟨p.frames.held ++ lost ++ (p.queue.contents kQueueCapacity).filterMap goodRecord
    ++ (p.source.held ++ tail).filterMap goodRecord, ?_⟩
  rw [replayRecords, hcut, h.fifo.accepted]
  simp only [List.filterMap_append, hkept, List.append_assoc]

/-- Two threads that ended without the flag have delivered everything. -/
theorem pushed_all (h : Traced replay 0 pushed p) (hsource : p.source.pc = .done)
    (hframes : p.frames = .done) : pushed = replayRecords replay := by
  obtain ⟨tail, hcut, htail⟩ := h.cut
  obtain ⟨lost, hkept, hlost⟩ := h.kept
  have hrest := h.rest (Or.inr hsource) rfl
  have hnone : tail = [] := by
    rw [htail (Or.inl rfl), hrest]
    rfl
  have hempty : lost = [] := by
    rcases hlost with hl | ⟨_, hne⟩
    · exact hl
    · exact absurd rfl hne
  have htaken := h.fifo.taken_of_empty (h.drained hframes rfl)
  rw [replayRecords, hcut, hnone, ← htaken]
  simp [Source.held, hsource, hkept, hempty, hframes, FramesPc.held]

end Traced

/-! ## Every run -/

namespace IngestRun

/-- The consumer of the ring pushes nothing. -/
theorem popStep_pushed (r : SpscRing Record kRingCapacity) (c : SpscRing.PopPc Record) :
    (SpscRing.popStep r c).1.pushed = r.pushed := (SpscRing.popStep_history rfl).1

/-- The invariant over the runs of ingest with its two neighbours. -/
structure Refined (replay : List UInt8) (s : IngestRun) : Prop where
  traced : Traced replay s.layout.control.shutdown s.layout.ring.pushed s.ingest
  joins : Joins s.layout s.ingest

theorem refined_start (replay : List UInt8) : Refined replay (start replay) where
  traced := traced_start replay
  joins := by
    refine ⟨?_, ?_, ?_⟩
    · intro h; rcases h with h | h | h <;> cases h
    · intro h; rcases h with h | h <;> cases h
    · simp [start, Layout.init]

theorem refined_step {replay : List UInt8} {s s' : IngestRun} {a : IngestAct}
    (h : Refined replay s) (hs : s.step a = some s') : Refined replay s' := by
  cases a with
  | source =>
      simp only [step, Option.map_eq_some_iff] at hs
      obtain ⟨⟨l', p'⟩, hst, rfl⟩ := hs
      have hj := h.joins.stepSource hst
      have ht := h.traced.source (Ingest.sourceMove hst)
      obtain ⟨n, rfl⟩ := Ingest.stepSource_layout hst
      exact ⟨ht, hj⟩
  | frames =>
      simp only [step, Option.map_eq_some_iff] at hs
      obtain ⟨⟨l', p'⟩, hst, rfl⟩ := hs
      have hj := h.joins.stepFrames hst
      have ht := h.traced.frames (Ingest.framesMove hst)
      obtain ⟨r, rfl⟩ := Ingest.stepFrames_layout hst
      exact ⟨ht, hj⟩
  | main =>
      simp only [step, Option.map_eq_some_iff] at hs
      obtain ⟨⟨l', p'⟩, hst, rfl⟩ := hs
      have hj := h.joins.stepMain hst
      have ht := h.traced.main hst
      obtain ⟨n, rfl⟩ := Ingest.stepMain_layout hst
      exact ⟨ht, hj⟩
  | consumer =>
      simp only [step] at hs
      split at hs
      · obtain rfl := Option.some.inj hs
        exact ⟨h.traced, h.joins⟩
      · obtain rfl := Option.some.inj hs
        refine ⟨?_, h.joins.frame rfl⟩
        show Traced replay s.layout.control.shutdown (SpscRing.popStep s.layout.ring _).1.pushed _
        rw [popStep_pushed]
        exact h.traced
  | setShutdown =>
      obtain rfl := Option.some.inj hs
      exact ⟨h.traced.set_flag (by simp), h.joins.frame rfl⟩

/--
**Ingest refines chunk and filter.**

For every replay file and every interleaving of the two threads with the ring's consumer
and with the flag being set at any moment: the records pushed so far are a prefix of the
file's good records, and when `run_ingest` has returned with the flag still clear they
are all of them.
-/
theorem ingest_refines {replay : List UInt8} {s : IngestRun} (h : Reachable replay s) :
    s.layout.ring.pushed <+: replayRecords replay
      ∧ (s.ingest.main = .exit → s.layout.control.shutdown = 0 →
          s.layout.ring.pushed = replayRecords replay) := by
  have hi : Refined replay s := by
    refine Transition.Reachable.invariant ?_ (fun _ _ _ hi _ hs => refined_step hi hs) h
    rintro s rfl
    exact refined_start replay
  refine ⟨hi.traced.pushed_prefix, ?_⟩
  intro hexit hflag
  have ht := hi.traced
  rw [hflag] at ht
  exact ht.pushed_all (hi.joins.source (Or.inr (Or.inr hexit))) (hi.joins.frames (Or.inr hexit))

/-- Two frames, the second one bad, and a tail that is too short for a third. -/
theorem ingest_refines_one_of_two :
    ∃ s, Reachable (wire ++ List.replicate 38 0 ++ [1, 2]) s ∧ s.ingest.main = .exit
      ∧ s.layout.control.shutdown = 0
      ∧ s.layout.ring.pushed = replayRecords (wire ++ List.replicate 38 0 ++ [1, 2])
      ∧ s.layout.ring.pushed = [sample] := by
  have h : (Transition.exec step (start (wire ++ List.replicate 38 0 ++ [1, 2]))
      (List.replicate 10 IngestAct.source ++ List.replicate 9 IngestAct.frames
        ++ List.replicate 3 IngestAct.main)).any
      (fun s => decide (s.ingest.main = .exit) && decide (s.layout.control.shutdown = 0)
        && decide (s.layout.ring.pushed = [sample])) = true := by
    decide +kernel
  obtain ⟨s, hrun, hs⟩ := Option.any_eq_true _ _ |>.mp h
  simp only [Bool.and_eq_true, decide_eq_true_eq] at hs
  have hr : Reachable (wire ++ List.replicate 38 0 ++ [1, 2]) s :=
    Transition.Reachable.exec (fun _ _ => trivial) _ (.init rfl) hrun
  exact ⟨s, hr, hs.1.1, hs.1.2, (ingest_refines hr).2 hs.1.1 hs.1.2, hs.2⟩

end IngestRun

end RateHub
