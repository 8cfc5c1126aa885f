import RateHub.Proof.Finish

/-!
# Ingest can finish

Two situations. While a compute process is running, ingest can always be run to its
last store: if the ring is full, the fast thread is still in its loop and pops
(`Feeding.ends`). Once the shutdown flag is set nobody pops any more, and ingest can be
run to its end unless it is jammed: the source thread waits in `queue.push` on a full
queue, and the frames thread is gone or will give up on the record it holds
(`Stopping.ends`). A jam lasts (`Ingest.jammed_frames`).
-/

namespace RateHub

/-- The next push would find no room. -/
def SpscRing.full {α : Type} {C : Capacity} (r : SpscRing α C) : Bool :=
  decide (SpscRing.next C r.write = r.read)

theorem SpscRing.Inv.full_eq {α : Type} {C : Capacity} {r : SpscRing α C} (h : SpscRing.Inv r) :
    r.full = decide (r.pushed.length + 1 = r.popped.length + C.size) := by
  unfold SpscRing.full
  exact decide_eq_decide.mpr h.full_iff

/-! ## Jams -/

/-- A `try_push` that has not compared the indexes yet. -/
def checking : SpscRing.PushPc Record → Bool
  | .idle => false
  | .loadWrite _ => true
  | .loadRead _ _ => true
  | .copy _ _ => false
  | .storeWrite _ _ => false

/-- The frames thread has a record and does not know yet whether the ring has room for it. -/
def Ingest.holding (p : Ingest) : Bool :=
  match p.frames with
  | .pop => false
  | .done => false
  | .decode frame => decide ((decodeFrame frame {}).1 = .ok)
  | .push _ call => checking call
  | .testStop _ => true

/-- With nobody popping the ring: the source thread waits on a full queue, and the frames thread
is gone, or holds a record that the full ring will not take, or has seen the ring full
and is about to see the flag. -/
def Ingest.jammed (l : Layout) (p : Ingest) : Bool :=
  p.pushing && p.queueFull
    && (decide (p.frames = .done) || (p.holding && l.ring.full)
      || (p.givingUp && decide (l.control.shutdown ≠ 0)))

theorem Ingest.jammed_iff {l : Layout} {p : Ingest} : p.jammed l = true ↔
    p.pushing = true ∧ p.queueFull = true
      ∧ (p.frames = .done ∨ (p.holding = true ∧ l.ring.full = true)
        ∨ (p.givingUp = true ∧ l.control.shutdown ≠ 0)) := by
  simp [Ingest.jammed, and_assoc, or_assoc]

/-- A jammed ingest's source thread cannot move, nor can its main thread. -/
theorem Ingest.jammed_source {l : Layout} {p : Ingest} (h : p.jammed l = true) :
    p.stepSource l = none := by
  obtain ⟨hp, hq, _⟩ := Ingest.jammed_iff.mp h
  simp only [Ingest.queueFull, Bool.and_eq_true, decide_eq_true_eq, Bool.not_eq_true'] at hq
  unfold Ingest.pushing at hp
  split at hp
  · rename_i frame hpc
    simp [Ingest.stepSource, sourceStep, hpc, BoundedQueue.push, hq.1, hq.2]
  · cases hp

/-- **What the frames thread does in a jam does not end it.** -/
theorem Ingest.jammed_frames {l l' : Layout} {p p' : Ingest} (h : p.jammed l = true)
    (hok : SpscRing.PushOk l.ring p.pushCall) (hm : FramesMove l p l' p') :
    p'.jammed l' = true := by
  obtain ⟨hp, hq, hcase⟩ := Ingest.jammed_iff.mp h
  cases hm with
  | last hpc hpop => simp [Ingest.holding, Ingest.givingUp, hpc] at hcase
  | pop hpc hpop => simp [Ingest.holding, Ingest.givingUp, hpc] at hcase
  | record hpc hd =>
      simp only [hpc, reduceCtorEq, Ingest.givingUp, Bool.false_eq_true, false_and, or_false,
        false_or] at hcase
      exact Ingest.jammed_iff.mpr ⟨hp, hq, Or.inr (Or.inl ⟨rfl, hcase.2⟩)⟩
  | skip hpc hd => simp [Ingest.holding, Ingest.givingUp, hpc, hd] at hcase
  | @access record call call' ring hpc hr =>
      simp only [hpc, reduceCtorEq, Ingest.givingUp, Bool.false_eq_true, false_and, or_false,
        false_or, Ingest.holding] at hcase
      cases call with
      | loadWrite v =>
          simp only [SpscRing.pushStep, Prod.mk.injEq] at hr
          obtain ⟨rfl, rfl, _⟩ := hr
          exact Ingest.jammed_iff.mpr ⟨hp, hq, Or.inr (Or.inl ⟨rfl, hcase.2⟩)⟩
      | loadRead v w =>
          -- the check fails, so this is not the access after it
          have hw : w = l.ring.write := by
            simpa [Ingest.pushCall, hpc, SpscRing.PushOk] using hok
          have hfull : SpscRing.next kRingCapacity w = l.ring.read := by
            rw [hw]
            exact of_decide_eq_true hcase.2
          simp [SpscRing.pushStep, hfull] at hr
      | _ => simp [checking] at hcase
  | @pushed record call call' ring hpc hr =>
      simp only [hpc, reduceCtorEq, Ingest.givingUp, Bool.false_eq_true, false_and, or_false,
        false_or, Ingest.holding] at hcase
      cases call with
      | loadRead v w =>
          simp only [SpscRing.pushStep] at hr
          split at hr <;> simp at hr
      | loadWrite v => simp [SpscRing.pushStep] at hr
      | _ => simp [checking] at hcase
  | @full record call call' ring hpc hr =>
      simp only [hpc, reduceCtorEq, Ingest.givingUp, Bool.false_eq_true, false_and, or_false,
        false_or, Ingest.holding] at hcase
      cases call with
      | loadRead v w =>
          simp only [SpscRing.pushStep] at hr
          split at hr
          · simp only [Prod.mk.injEq] at hr
            obtain ⟨rfl, _, _⟩ := hr
            exact Ingest.jammed_iff.mpr ⟨hp, hq, Or.inr (Or.inl ⟨rfl, hcase.2⟩)⟩
          · simp at hr
      | loadWrite v => simp [SpscRing.pushStep] at hr
      | _ => simp [checking] at hcase
  | stop hpc hflag => exact Ingest.jammed_iff.mpr ⟨hp, hq, Or.inl rfl⟩
  | retry hpc hflag =>
      have hfull : l.ring.full = true := by
        rcases hcase with hd | ⟨_, hfull⟩ | ⟨_, hstop⟩
        · rw [hpc] at hd
          cases hd
        · exact hfull
        · exact absurd hflag hstop
      exact Ingest.jammed_iff.mpr ⟨hp, hq, Or.inr (Or.inl ⟨rfl, hfull⟩)⟩

/-- With the flag set the source thread does not enter `queue.push` any more. -/
theorem SourceMove.not_jammed {l l' : Layout} {p p' : Ingest} (hflag : l.control.shutdown ≠ 0)
    (hm : SourceMove l p l' p') : p'.jammed l' = false := by
  have hout : p'.pushing = false := by
    cases hm with
    | go hpc hclear => exact absurd hclear hflag
    | _ => rfl
  simp [Ingest.jammed, hout]

/-- With the flag set the frames thread makes no jam that was not there. -/
theorem FramesMove.jammed_before {l l' : Layout} {p p' : Ingest} (hflag : l.control.shutdown ≠ 0)
    (hinv : QueueInv l.control.shutdown p) (hok : SpscRing.PushOk l.ring p.pushCall)
    (hm : FramesMove l p l' p') (h : p'.jammed l' = true) : p.jammed l = true := by
  obtain ⟨hp, hq, hcase⟩ := Ingest.jammed_iff.mp h
  have hsize := hinv.size_le
  cases hm with
  | last hpc hpop =>
      rcases BoundedQueue.pop_spec hpop with ⟨_, hc, _, rfl⟩ | ⟨hv, _⟩
      · simp [Ingest.queueFull, hc] at hq
      · cases hv
  | pop hpc hpop =>
      -- after a pop the queue is not full
      rcases BoundedQueue.pop_spec hpop with ⟨hv, _⟩ | ⟨_, _, hsz, _⟩
      · cases hv
      · simp only [Ingest.queueFull, Bool.and_eq_true, decide_eq_true_eq] at hq
        omega
  | record hpc hd =>
      have hfull : l.ring.full = true := by
        simpa [Ingest.givingUp, Ingest.holding, checking] using hcase
      exact Ingest.jammed_iff.mpr
        ⟨hp, hq, Or.inr (Or.inl ⟨by simp [Ingest.holding, hpc, hd], hfull⟩)⟩
  | skip hpc hd => simp [Ingest.holding, Ingest.givingUp] at hcase
  | @access record call call' ring hpc hr =>
      cases call with
      | loadWrite v =>
          simp only [SpscRing.pushStep, Prod.mk.injEq] at hr
          obtain ⟨rfl, rfl, _⟩ := hr
          have hfull : l.ring.full = true := by
            simpa [Ingest.givingUp, Ingest.holding, checking] using hcase
          exact Ingest.jammed_iff.mpr
            ⟨hp, hq, Or.inr (Or.inl ⟨by simp [Ingest.holding, hpc, checking], hfull⟩)⟩
      | loadRead v w =>
          simp only [SpscRing.pushStep] at hr
          split at hr
          · simp at hr
          · simp only [Prod.mk.injEq] at hr
            obtain ⟨rfl, rfl, _⟩ := hr
            simp [Ingest.givingUp, Ingest.holding, checking] at hcase
      | _ =>
          simp only [SpscRing.pushStep, Prod.mk.injEq, reduceCtorEq, and_false] at hr
          all_goals
            obtain ⟨rfl, rfl, _⟩ := hr
            simp [Ingest.givingUp, Ingest.holding, checking] at hcase
  | pushed hpc hr => simp [Ingest.holding, Ingest.givingUp] at hcase
  | @full record call call' ring hpc hr =>
      cases call with
      | loadRead v w =>
          have hw : w = l.ring.write := by
            simpa [Ingest.pushCall, hpc, SpscRing.PushOk] using hok
          simp only [SpscRing.pushStep] at hr
          split at hr
          · rename_i hfull
            rw [hw] at hfull
            exact Ingest.jammed_iff.mpr ⟨hp, hq, Or.inr (Or.inl
              ⟨by simp [Ingest.holding, hpc, checking], decide_eq_true hfull⟩)⟩
          · simp at hr
      | _ => simp [SpscRing.pushStep] at hr
  | stop hpc _ =>
      -- gone after giving up: it was about to see the flag
      exact Ingest.jammed_iff.mpr
        ⟨hp, hq, Or.inr (Or.inr ⟨by simp [Ingest.givingUp, hpc], hflag⟩)⟩
  | retry hpc hclear => exact absurd hclear hflag

/-! ## The queue in the system -/

namespace Pipeline

/-- What holds in every run, with what the ranks need. -/
structure Live (s : Pipeline) : Prop where
  sound : Sound s
  engaged : Engaged s
  queue : ∀ p, s.ingest = .running p → QueueInv s.layout.control.shutdown p

/-- A step that leaves ingest alone, or ends it. -/
theorem Live.queue_frame {s s' : Pipeline} (h : Live s)
    (hflag : s.layout.control.shutdown ≠ 0 → s'.layout.control.shutdown ≠ 0)
    (hi : ∀ p, s'.ingest = .running p → s.ingest = .running p) (p : Ingest)
    (hp : s'.ingest = .running p) : QueueInv s'.layout.control.shutdown p :=
  (h.queue p (hi p hp)).set_flag hflag

theorem live_step {s s' : Pipeline} {a : Act} (h : Live s) (hs : s.step a = some s') :
    Live s' := by
  refine ⟨sound_step h.sound hs, engaged_step h.engaged hs, ?_⟩
  cases move_of_step hs with
  | source hp hm hst =>
      have hq := (h.queue _ hp).source (Ingest.sourceMove hst)
      obtain ⟨n, rfl⟩ := Ingest.stepSource_layout hst
      intro q hq'
      obtain rfl := Child.running.inj hq'
      exact hq
  | frames hp hm hst =>
      have hq := (h.queue _ hp).frames (Ingest.framesMove hst)
      obtain ⟨r, rfl⟩ := Ingest.stepFrames_layout hst
      intro q hq'
      obtain rfl := Child.running.inj hq'
      exact hq
  | ingestAttach hp hm =>
      have hq := h.queue _ hp
      intro q hq'
      obtain rfl := Child.running.inj hq'
      exact ⟨hq.closed_iff, hq.gone, hq.size_le⟩
  | ingestMain hp hst =>
      have hq := (h.queue _ hp).main hst
      obtain ⟨n, rfl⟩ := Ingest.stepMain_layout hst
      intro q hq'
      obtain rfl := Child.running.inj hq'
      exact hq
  | spawnIngest hsup =>
      intro q hq
      obtain rfl := Child.running.inj hq
      exact queueInv_init _ _
  | store hst =>
      refine h.queue_frame ?_ (fun p hp => hp)
      intro hflag
      rcases (supStep_stored hst).shutdown with ⟨hsame, _⟩ | ⟨hset, _⟩
      · exact hsame.symm ▸ hflag
      · show _ ≠ (0 : UInt32)
        rw [hset]
        decide
  | fast hp ha hst =>
      obtain ⟨hb, hc, ov, fd, r, la, rfl⟩ := fastStep_layout hst
      exact h.queue_frame id (fun p hp => hp)
  | window hp ha hst =>
      obtain ⟨hb, ov, wd, wi, rfl⟩ := windowStep_layout hst
      exact h.queue_frame id (fun p hp => hp)
  | snapshot hp ha hpc hst =>
      obtain ⟨hb, ov, sd, b, rfl⟩ := snapshotStep_layout hst
      exact h.queue_frame id (fun p hp => hp)
  | handOver hp ha hpc hst =>
      obtain ⟨hb, ov, sd, b, rfl⟩ := snapshotStep_layout hst
      exact h.queue_frame id (fun p hp => hp)
  | watchdog hp ha hst =>
      obtain ⟨f, rfl⟩ := watchdogStep_layout hst
      exact h.queue_frame id (fun p hp => hp)
  | computeMain hp hst =>
      obtain ⟨cd, rfl⟩ := computeMainStep_layout hst
      exact h.queue_frame id (fun p hp => hp)
  | publish hp hw hst =>
      obtain ⟨hb, b, rfl⟩ := Publish.step_layout hst
      exact h.queue_frame id (fun p hp => hp)
  | rerun hsup =>
      intro q hq
      cases hq
  | _ =>
      refine h.queue_frame id ?_
      intro q hq
      first
      | exact hq
      | cases hq

theorem live_reachable {ok : Pipeline → Act → Prop} {s : Pipeline}
    (h : Transition.Reachable step ok Start s) : Live s := by
  refine Transition.Reachable.invariant ?_ (fun _ _ _ hi _ hs => live_step hi hs) h
  rintro _ ⟨replay, clock, rfl⟩
  refine ⟨sound_start replay clock, engaged_start replay clock, ?_⟩
  intro p hp
  cases hp

/-! ## While a compute process runs -/

/-- Ingest has not stored its flag and a compute process is there to pop the ring. -/
structure Feeding (q : Ingest) (s : Pipeline) : Prop where
  live : Live s
  ingest : s.ingest = .running q
  ingestDone : s.layout.control.ingestDone = 0
  compute : ∃ p, s.compute = .running p ∧ p.attached = true

variable {may : Act → Prop} {q : Ingest} {s : Pipeline}

theorem Feeding.no_shutdown (h : Feeding q s) : s.layout.control.shutdown = 0 := by
  obtain ⟨p, hp, _⟩ := h.compute
  exact h.live.sound.skeleton.no_shutdown hp

/-- How far the fast thread is from making room. -/
def roomRank (s : Pipeline) : Nat :=
  match s.compute with
  | .running p => if s.layout.ring.full then p.fast.popPlace + 1 else 0
  | _ => 0

/-- **The fast thread can make room in the ring.** -/
theorem Feeding.make_room (hmay : may .fast) (h : Feeding q s) :
    Transition.CanReach step may (fun s' => Feeding q s' ∧ s'.layout.ring.full = false) s := by
  refine Transition.CanReach.of_rank_step (P := Feeding q) roomRank ?_ h
  intro s h
  by_cases hfull : s.layout.ring.full = true
  · right
    obtain ⟨p, hp, ha⟩ := h.compute
    have hstages := h.live.sound.stages p hp
    have hcalls := h.live.sound.calls
    rw [popCall_running hp] at hcalls
    have hcount : s.layout.ring.pushed.length + 1
        = s.layout.ring.popped.length + kRingCapacity.size := by
      rw [hcalls.ring.full_eq] at hfull
      exact of_decide_eq_true hfull
    have hcap : kRingCapacity.size = 1024 := rfl
    -- ingest has not stored its flag, so the fast thread is still in its loop
    have hin : p.fast.pc.left = false :=
      Bool.eq_false_iff.mpr fun hl => hstages.left hl h.ingestDone
    obtain ⟨l', t', hst, hpop⟩ := fastStep_pops s.clock h.ingestDone h.no_shutdown hcalls
      (by omega) hin (h.live.engaged.compute p hp).1
    have hs : s.step .fast = some (s.withCompute (l', { p with fast := t' })) := by
      simp [step, stepCompute, hp, Compute.stepFast, ha, hst]
    have hnext : Feeding q (s.withCompute (l', { p with fast := t' })) := by
      refine ⟨live_step h.live hs, h.ingest, ?_, _, rfl, ha⟩
      obtain ⟨hb, hc, ov, fd, r, la, rfl⟩ := fastStep_layout hst
      exact h.ingestDone
    refine ⟨.fast, _, hmay, hs, hnext, ?_⟩
    have hfull' : l'.ring.full
        = decide (l'.ring.pushed.length + 1 = l'.ring.popped.length + kRingCapacity.size) :=
      hnext.live.sound.calls.ring.full_eq
    simp only [roomRank, hp, withCompute, hfull, if_true, hfull', decide_eq_true_eq]
    rcases hpop.closer with ⟨_, hlt⟩ | hpopped
    · split <;> omega
    · -- one record less than the ring holds at most
      rw [hpop.pushed, hpopped, if_neg (by omega)]
      omega
  · exact Or.inl ⟨h, by simpa using hfull⟩

/-- A step of one of ingest's threads, in the system. -/
theorem step_source {l' : Layout} {q' : Ingest} (hq : s.ingest = .running q)
    (ha : q.main ≠ .attach) (hst : q.stepSource s.layout = some (l', q')) :
    s.step .source = some (s.withIngest (l', q')) := by
  simp [step, stepIngest, hq, ha, hst]

theorem step_frames {l' : Layout} {q' : Ingest} (hq : s.ingest = .running q)
    (ha : q.main ≠ .attach) (hst : q.stepFrames s.layout = some (l', q')) :
    s.step .frames = some (s.withIngest (l', q')) := by
  simp [step, stepIngest, hq, ha, hst]

theorem step_ingestMain {l' : Layout} {q' : Ingest} (hq : s.ingest = .running q)
    (hst : q.stepMain s.layout = some (l', q')) :
    s.step .ingestMain = some (s.withIngest (l', q')) := by
  simp only [step, stepIngestMain, hq]
  split
  · rename_i hm
    simp [Ingest.stepMain, ingestMainStep, hm] at hst
  · rename_i hm
    simp [Ingest.stepMain, ingestMainStep, hm] at hst
  · simp [hst]

theorem Feeding.frames {l' : Layout} {q' : Ingest} (h : Feeding q s) (ha : q.main ≠ .attach)
    (hst : q.stepFrames s.layout = some (l', q')) : Feeding q' (s.withIngest (l', q')) := by
  refine ⟨live_step h.live (step_frames h.ingest ha hst), rfl, ?_, h.compute⟩
  obtain ⟨r, rfl⟩ := Ingest.stepFrames_layout hst
  exact h.ingestDone

/-- A push that failed can be made good. -/
theorem Feeding.push_again (hfast : may .fast) (hframes : may .frames) (h : Feeding q s)
    (ha : q.main ≠ .attach) {record : Record} (hpc : q.frames = .testStop record) :
    Transition.CanReach step may (fun s' => ∃ q', Feeding q' s' ∧ q'.rank < q.rank) s := by
  refine (h.make_room hfast).trans ?_
  rintro s ⟨h, hroom⟩
  have hne : ¬ SpscRing.next kRingCapacity s.layout.ring.write = s.layout.ring.read :=
    of_decide_eq_false hroom
  -- the three steps up to the copy into the slot
  have h₁ : q.stepFrames s.layout
      = some (s.layout, { q with frames := .push record (.loadWrite record) }) := by
    simp [Ingest.stepFrames, framesStep, hpc, h.no_shutdown]
  have hf₁ := h.frames ha h₁
  have h₂ : ({ q with frames := .push record (.loadWrite record) } : Ingest).stepFrames s.layout
      = some (s.layout,
        { q with frames := .push record (.loadRead record s.layout.ring.write) }) := by
    simp [Ingest.stepFrames, framesStep, SpscRing.pushStep]
  have hf₂ := hf₁.frames ha h₂
  have h₃ : ({ q with frames := .push record (.loadRead record s.layout.ring.write) } :
      Ingest).stepFrames s.layout
      = some (s.layout, { q with frames := .push record (.copy record s.layout.ring.write) }) := by
    simp [Ingest.stepFrames, framesStep, SpscRing.pushStep, hne]
  have hf₃ := hf₂.frames ha h₃
  refine .step hframes (step_frames h.ingest ha h₁) ?_
  refine .step hframes (step_frames hf₁.ingest ha h₂) ?_
  refine .step hframes (step_frames hf₂.ingest ha h₃) (.here ⟨_, hf₃, ?_⟩)
  simp only [Ingest.rank, FramesPc.rank, hpc, pushRank]
  omega

/-- What ingest has left, in the system. -/
def ingestRank (s : Pipeline) : Nat :=
  match s.ingest with
  | .running q => q.rank
  | _ => 0

/-- Ingest has stored its flag and compute goes on. -/
structure Fed (s : Pipeline) : Prop where
  live : Live s
  ingestDone : s.layout.control.ingestDone ≠ 0
  compute : ∃ p, s.compute = .running p ∧ p.attached = true

/-- **While compute runs, ingest can be run to its last store.** -/
theorem Feeding.ends (hsource : may .source) (hframes : may .frames) (hmain : may .ingestMain)
    (hfast : may .fast) (h : Feeding q s) : Transition.CanReach step may Fed s := by
  refine Transition.CanReach.of_rank (P := fun s => Fed s ∨ ∃ q, Feeding q s) ingestRank ?_
    (Or.inr ⟨q, h⟩)
  rintro s (hfed | ⟨q, h⟩)
  · exact Or.inl hfed
  right
  have hrank : s.ingestRank = q.rank := by simp [ingestRank, h.ingest]
  have hjoins := h.live.sound.joins q h.ingest
  have hqueue := h.live.queue q h.ingest
  by_cases ha : q.main = .attach
  · -- ingest attaches
    have hs : s.step .ingestMain
        = some (s.withIngest (s.layout, { q with main := .joinSource })) := by
      simp [step, stepIngestMain, h.ingest, ha]
    refine .step hmain hs (.here ⟨Or.inr ⟨_, live_step h.live hs, rfl, h.ingestDone, h.compute⟩, ?_⟩)
    rw [hrank]
    simp only [ingestRank, withIngest, Ingest.rank, IngestMainPc.rank, ha]
    omega
  have hx : q.main ≠ .exit := fun hm => hjoins.flag.mpr hm h.ingestDone
  -- the frames thread leaves a queue open only on the flag, and the flag is clear
  have hstuck : ¬ (q.pushing = true ∧ q.queueFull = true ∧ q.frames = .done) := by
    rintro ⟨_, hfull, hf⟩
    simp only [Ingest.queueFull, Bool.and_eq_true, Bool.not_eq_true'] at hfull
    rcases hqueue.gone hf with hc | hflag
    · rw [hfull.2] at hc
      cases hc
    · exact hflag h.no_shutdown
  rcases hqueue.moves s.layout ha hx hstuck with hm | hm | hm
  · obtain ⟨⟨l', q'⟩, hst⟩ := Option.isSome_iff_exists.mp hm
    have hs := step_source h.ingest ha hst
    refine .step hsource hs (.here ⟨Or.inr ⟨q', live_step h.live hs, rfl, ?_, h.compute⟩, ?_⟩)
    · obtain ⟨n, rfl⟩ := Ingest.stepSource_layout hst
      exact h.ingestDone
    · rw [hrank]
      exact (Ingest.sourceMove hst).rank_lt
  · by_cases hgive : q.givingUp = true
    · -- the one step that leads back: wait for room, then push
      unfold Ingest.givingUp at hgive
      split at hgive
      · rename_i record hpc
        refine (h.push_again hfast hframes ha hpc).imp ?_
        rintro s' ⟨q', h', hlt⟩
        refine ⟨Or.inr ⟨q', h'⟩, ?_⟩
        rw [hrank]
        simpa [ingestRank, h'.ingest] using hlt
      · cases hgive
    · obtain ⟨⟨l', q'⟩, hst⟩ := Option.isSome_iff_exists.mp hm
      refine .step hframes (step_frames h.ingest ha hst)
        (.here ⟨Or.inr ⟨q', h.frames ha hst⟩, ?_⟩)
      rw [hrank]
      exact (Ingest.framesMove hst).rank_lt (h.live.engaged.frames q h.ingest)
        fun hg => absurd hg hgive
  · obtain ⟨⟨l', q'⟩, hst⟩ := Option.isSome_iff_exists.mp hm
    have hs := step_ingestMain h.ingest hst
    have hlive := live_step h.live hs
    refine .step hmain hs (.here ⟨?_, ?_⟩)
    · -- the step may be the store of the flag
      by_cases hdone : l'.control.ingestDone = 0
      · exact Or.inr ⟨q', hlive, rfl, hdone, h.compute⟩
      · exact Or.inl ⟨hlive, hdone, h.compute⟩
    · rw [hrank]
      exact Ingest.stepMain_rank_lt hst

/-! ## Once the flag is set -/

/-- Ingest is running, the flag is set and there is no jam. -/
structure Stopping (q : Ingest) (s : Pipeline) : Prop where
  live : Live s
  ingest : s.ingest = .running q
  flag : s.layout.control.shutdown ≠ 0
  clear : q.jammed s.layout = false

/-- **Once the flag is set, an ingest that is not jammed can be run to its end.** -/
theorem Stopping.ends (hsource : may .source) (hframes : may .frames) (hmain : may .ingestMain)
    (h : Stopping q s) : Transition.CanReach step may (fun s' => s'.ingest = .ended (.exited 0)) s := by
  have hexit : Transition.CanReach step may
      (fun s' => ∃ q', s'.ingest = .running q' ∧ q'.main = .exit) s := by
    refine Transition.CanReach.of_rank_step (P := fun s => ∃ q, Stopping q s) ingestRank ?_ ⟨q, h⟩
    rintro s ⟨q, h⟩
    have hrank : s.ingestRank = q.rank := by simp [ingestRank, h.ingest]
    have hqueue := h.live.queue q h.ingest
    have hpush := h.live.sound.calls.push
    rw [pushCall_running h.ingest] at hpush
    by_cases hx : q.main = .exit
    · exact Or.inl ⟨q, h.ingest, hx⟩
    right
    by_cases ha : q.main = .attach
    · have hs : s.step .ingestMain
          = some (s.withIngest (s.layout, { q with main := .joinSource })) := by
        simp [step, stepIngestMain, h.ingest, ha]
      refine ⟨.ingestMain, _, hmain, hs, ⟨_, live_step h.live hs, rfl, h.flag, h.clear⟩, ?_⟩
      rw [hrank]
      simp only [ingestRank, withIngest, Ingest.rank, IngestMainPc.rank, ha]
      omega
    have hstuck : ¬ (q.pushing = true ∧ q.queueFull = true ∧ q.frames = .done) := by
      rintro ⟨hp, hfull, hf⟩
      have hjam : q.jammed s.layout = true := Ingest.jammed_iff.mpr ⟨hp, hfull, Or.inl hf⟩
      rw [h.clear] at hjam
      cases hjam
    rcases hqueue.moves s.layout ha hx hstuck with hm | hm | hm
    · obtain ⟨⟨l', q'⟩, hst⟩ := Option.isSome_iff_exists.mp hm
      have hs := step_source h.ingest ha hst
      have hmove := Ingest.sourceMove hst
      refine ⟨.source, _, hsource, hs, ⟨q', live_step h.live hs, rfl, ?_, hmove.not_jammed h.flag⟩, ?_⟩
      · obtain ⟨n, rfl⟩ := Ingest.stepSource_layout hst
        exact h.flag
      · rw [hrank]
        exact hmove.rank_lt
    · obtain ⟨⟨l', q'⟩, hst⟩ := Option.isSome_iff_exists.mp hm
      have hs := step_frames h.ingest ha hst
      have hmove := Ingest.framesMove hst
      refine ⟨.frames, _, hframes, hs, ⟨q', live_step h.live hs, rfl, ?_, ?_⟩, ?_⟩
      · obtain ⟨r, rfl⟩ := Ingest.stepFrames_layout hst
        exact h.flag
      · -- a jam after the step would have been one before it
        refine Bool.eq_false_iff.mpr fun hjam => ?_
        have hbefore := hmove.jammed_before h.flag hqueue hpush hjam
        rw [h.clear] at hbefore
        cases hbefore
      · rw [hrank]
        exact hmove.rank_lt (h.live.engaged.frames q h.ingest) fun _ => h.flag
    · obtain ⟨⟨l', q'⟩, hst⟩ := Option.isSome_iff_exists.mp hm
      have hs := step_ingestMain h.ingest hst
      refine ⟨.ingestMain, _, hmain, hs, ⟨q', live_step h.live hs, rfl, ?_, ?_⟩, ?_⟩
      · obtain ⟨n, rfl⟩ := Ingest.stepMain_layout hst
        exact h.flag
      · obtain ⟨n, hl⟩ := Ingest.stepMain_layout hst
        simp only [Ingest.stepMain, Option.map_eq_some_iff, Prod.mk.injEq] at hst
        obtain ⟨_, _, _, rfl⟩ := hst
        show Ingest.jammed l' _ = false
        rw [hl]
        exact h.clear
      · rw [hrank]
        exact Ingest.stepMain_rank_lt hst
  refine hexit.trans ?_
  rintro s' ⟨q', hq', hm⟩
  have hs : s'.step .ingestMain = some { s' with ingest := .ended (.exited 0) } := by
    simp [step, stepIngestMain, hq', hm]
  exact .step hmain hs (.here rfl)

end Pipeline

end RateHub
