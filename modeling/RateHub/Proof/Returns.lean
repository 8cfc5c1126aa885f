import RateHub.Proof.IngestEnd

/-!
# When `run_once_pipeline` can return

The supervisor waits for its children in a fixed order: compute, ingest, publish. Two
situations keep it waiting for good, whatever happens next short of another death.

* *Starved*: a compute process is running and ingest is gone without its flag. The
  fast thread leaves its loop on the flag or on shutdown, and shutdown is stored only
  after compute has been waited for.
* *Jammed*: the last compute attempt is over, nobody pops the ring any more, and ingest
  cannot end: its source thread waits on a full queue.

Both last (`starved_step`, `jammed_step`). From every other state there is a way to the end
(`advance`): each statement of the supervisor either goes through or waits for a child
that can be run to its end.
-/

namespace RateHub

/-- The child exists and has not ended. -/
def Child.isRunning {P : Type} : Child P → Bool
  | .unborn => false
  | .failed => false
  | .running _ => true
  | .ended _ => false

/-- No child is killed, crashes or is refused the mapping. -/
def calm : Act → Prop
  | .killIngest => False
  | .killCompute => False
  | .killPublish => False
  | .computeCrash => False
  | .ingestRefused => False
  | .computeRefused => False
  | .publishRefused => False
  | _ => True

/-- A step of a running child. -/
def ofChild : Act → Prop
  | .source => True
  | .frames => True
  | .ingestMain => True
  | .fast => True
  | .window => True
  | .snapshot => True
  | .watchdog => True
  | .computeMain => True
  | .publish => True
  | _ => False

theorem calm_of_child (a : Act) (h : ofChild a) : calm a := by
  cases a <;> trivial

namespace Pipeline

/-- A compute process waits for an ingest that is gone. -/
def starved (s : Pipeline) : Bool :=
  match s.compute with
  | .running _ => decide (s.layout.control.ingestDone = 0) && !s.ingest.isRunning
  | _ => false

/-- The attempt that ends with this status is the last one. -/
def isLast (n : Nat) (status : UInt32) : Bool :=
  decide (status = 0) || decide (n = kMaxComputeAttempts)

/-- No compute process is running and none will be started, and ingest has not been waited for. -/
def attemptsOver (s : Pipeline) : Bool :=
  match s.sup with
  | .storeComputePid n _ => s.compute.wait.any (isLast n)
  | .waitCompute n => s.compute.wait.any (isLast n)
  | .storeComputeExit n status => isLast n status
  | .storeShutdown _ => true
  | .waitIngest _ => true
  | _ => false

/-- Ingest cannot end any more. -/
def jammed (s : Pipeline) : Bool :=
  match s.ingest with
  | .running q => s.attemptsOver && q.jammed s.layout
  | _ => false

theorem starved_iff {s : Pipeline} : s.starved = true ↔
    (∃ p, s.compute = .running p) ∧ s.layout.control.ingestDone = 0
      ∧ ∀ q, s.ingest ≠ .running q := by
  unfold starved
  cases hc : s.compute <;> cases hi : s.ingest <;> simp [Child.isRunning]

theorem jammed_iff {s : Pipeline} : s.jammed = true ↔
    ∃ q, s.ingest = .running q ∧ s.attemptsOver = true ∧ q.jammed s.layout = true := by
  unfold jammed
  cases hi : s.ingest <;> simp

/-! ## Starved for good -/

/-- **Short of another death, a starved compute stays starved.** -/
theorem starved_step {s s' : Pipeline} {a : Act} (hl : Live s) (h : s.starved = true)
    (ha : calm a) (hs : s.step a = some s') : s'.starved = true := by
  obtain ⟨⟨p, hp⟩, hi, hgone⟩ := starved_iff.mp h
  have hawait := hl.sound.skeleton.running p hp
  have hstages := hl.sound.stages p hp
  have hkeep : ∀ t : Pipeline, t.compute = s.compute → t.ingest = s.ingest →
      t.layout.control.ingestDone = s.layout.control.ingestDone → t.starved = true := by
    intro t hc hing hdone
    exact starved_iff.mpr ⟨⟨p, hc.trans hp⟩, hdone.trans hi, fun q hq => hgone q (hing ▸ hq)⟩
  have hthread : ∀ {l' : Layout} {p' : Compute}, l'.control.ingestDone = 0 →
      (s.withCompute (l', p')).starved = true :=
    fun hdone => starved_iff.mpr ⟨⟨_, rfl⟩, hdone, hgone⟩
  cases move_of_step hs with
  | tick _ => exact hkeep _ rfl rfl rfl
  | spawnIngest hsup => simp [hsup, SupPc.awaiting] at hawait
  | noIngest hsup => simp [hsup, SupPc.awaiting] at hawait
  | spawnPublish hsup => simp [hsup, SupPc.awaiting] at hawait
  | noPublish hsup => simp [hsup, SupPc.awaiting] at hawait
  | spawnCompute hsup => simp [hsup, SupPc.awaiting] at hawait
  | noCompute hsup => simp [hsup, SupPc.awaiting] at hawait
  -- the wait for compute does not return
  | reapCompute hsup hw => simp [hp, Child.wait] at hw
  | reapIngest hsup hw => exact hkeep _ rfl rfl rfl
  | reapPublish hsup hw => exact hkeep _ rfl rfl rfl
  | store hst =>
      obtain ⟨sh, g, sv, rfl⟩ := (supStep_stored hst).layout
      exact hkeep _ rfl rfl rfl
  | rerun hsup => simp [hsup, SupPc.awaiting] at hawait
  | source hq hm hst => exact absurd hq (hgone _)
  | frames hq hm hst => exact absurd hq (hgone _)
  | ingestAttach hq hm => exact absurd hq (hgone _)
  | ingestMain hq hst => exact absurd hq (hgone _)
  | ingestExit hq hm => exact absurd hq (hgone _)
  | fast hp' hatt hst =>
      obtain ⟨hb, hc, ov, fd, r, la, rfl⟩ := fastStep_layout hst
      exact hthread hi
  | window hp' hatt hst =>
      obtain ⟨hb, ov, wd, wi, rfl⟩ := windowStep_layout hst
      exact hthread hi
  | snapshot hp' hatt hpc hst =>
      obtain ⟨hb, ov, sd, b, rfl⟩ := snapshotStep_layout hst
      exact hthread hi
  | handOver hp' hatt hpc hst =>
      obtain ⟨hb, ov, sd, b, rfl⟩ := snapshotStep_layout hst
      exact starved_iff.mpr ⟨⟨_, rfl⟩, hi, hgone⟩
  | watchdog hp' hatt hst =>
      obtain ⟨f, rfl⟩ := watchdogStep_layout hst
      exact hthread hi
  | computeMain hp' hst =>
      obtain ⟨cd, rfl⟩ := computeMainStep_layout hst
      exact hthread hi
  | computeExit hp' hm =>
      -- at its exit compute has joined a fast thread that saw the flag
      obtain rfl := Child.running.inj (hp.symm.trans hp')
      exact absurd hi (hstages.flag_of_exit hm)
  | publish hq hw hst =>
      obtain ⟨hb, b, rfl⟩ := Publish.step_layout hst
      exact hkeep _ rfl rfl rfl
  | publishOpen hq hc => exact hkeep _ rfl rfl rfl
  | publishWrite hq hw => exact hkeep _ rfl rfl rfl
  | publishExit hq hc => exact hkeep _ rfl rfl rfl
  | openFails hq hc => exact hkeep _ rfl rfl rfl
  | _ => exact ha.elim

/-! ## Jammed for good -/

/-- Once the attempts are over no compute process is running. -/
theorem not_running_of_over {s : Pipeline} (hl : Live s) (h : s.attemptsOver = true)
    (p : Compute) : s.compute ≠ .running p := by
  intro hp
  have hawait := hl.sound.skeleton.running p hp
  cases hsup : s.sup <;> simp [attemptsOver, hsup, hp, Child.wait, SupPc.awaiting] at h hawait

/-- The flag being set makes no difference to a jam that is there. -/
theorem jammed_set_flag {l l' : Layout} {q : Ingest} (hring : l'.ring = l.ring)
    (hflag : l.control.shutdown ≠ 0 → l'.control.shutdown ≠ 0) (h : q.jammed l = true) :
    q.jammed l' = true := by
  obtain ⟨hp, hq, hcase⟩ := Ingest.jammed_iff.mp h
  refine Ingest.jammed_iff.mpr ⟨hp, hq, ?_⟩
  rw [hring]
  rcases hcase with hd | hold | ⟨hg, hstop⟩
  · exact Or.inl hd
  · exact Or.inr (Or.inl hold)
  · exact Or.inr (Or.inr ⟨hg, hflag hstop⟩)

/-- The supervisor's stores do not start another attempt. -/
theorem attemptsOver_store {s : Pipeline} {l' : Layout} {pc' : SupPc} (h : s.attemptsOver = true)
    (hst : supStep s.layout s.sup = some (l', pc')) :
    ({ s with layout := l', sup := pc' } : Pipeline).attemptsOver = true := by
  unfold attemptsOver at h ⊢
  cases hsup : s.sup with
  | storeComputePid n pid =>
      simp only [hsup, supStep, Option.some.injEq, Prod.mk.injEq] at hst h
      obtain ⟨rfl, rfl⟩ := hst
      exact h
  | storeComputeExit n status =>
      simp only [hsup, supStep, Option.some.injEq, Prod.mk.injEq] at hst h
      obtain ⟨rfl, rfl⟩ := hst
      simp only [isLast, Bool.or_eq_true, decide_eq_true_eq] at h
      unfold SupPc.afterCompute
      rcases h with rfl | rfl
      · rfl
      · by_cases hz : status = 0 <;> simp [hz]
  | storeShutdown ok =>
      simp only [hsup, supStep, Option.some.injEq, Prod.mk.injEq] at hst
      obtain ⟨rfl, rfl⟩ := hst
      rfl
  | _ => simp [hsup, supStep] at hst h

/-- **Short of another death, a jammed ingest stays jammed.** -/
theorem jammed_step {s s' : Pipeline} {a : Act} (hl : Live s) (h : s.jammed = true)
    (ha : calm a) (hs : s.step a = some s') : s'.jammed = true := by
  obtain ⟨q, hq, hover, hjam⟩ := jammed_iff.mp h
  have hnone := not_running_of_over hl hover
  have hjoins := hl.sound.joins q hq
  have hkeep : ∀ t : Pipeline, t.sup = s.sup → t.compute = s.compute → t.ingest = s.ingest →
      t.layout.ring = s.layout.ring →
      t.layout.control.shutdown = s.layout.control.shutdown → t.jammed = true := by
    intro t hsup hc hi hring hflag
    refine jammed_iff.mpr ⟨q, hi.trans hq, ?_, jammed_set_flag hring (by rw [hflag]; exact id) hjam⟩
    unfold attemptsOver
    rw [hsup, hc]
    exact hover
  have hingest : ∀ {l' : Layout} {q' : Ingest}, q'.jammed l' = true →
      (s.withIngest (l', q')).jammed = true :=
    fun hj => jammed_iff.mpr ⟨_, rfl, hover, hj⟩
  cases move_of_step hs with
  | tick _ => exact hkeep _ rfl rfl rfl rfl rfl
  | spawnIngest hsup => simp [attemptsOver, hsup] at hover
  | noIngest hsup => simp [attemptsOver, hsup] at hover
  | spawnPublish hsup => simp [attemptsOver, hsup] at hover
  | noPublish hsup => simp [attemptsOver, hsup] at hover
  | spawnCompute hsup => simp [attemptsOver, hsup] at hover
  | noCompute hsup => simp [attemptsOver, hsup] at hover
  | reapCompute hsup hw =>
      refine jammed_iff.mpr ⟨q, hq, ?_, hjam⟩
      simpa [attemptsOver, hsup, hw] using hover
  | reapIngest hsup hw => simp [hq, Child.wait] at hw
  | reapPublish hsup hw => simp [attemptsOver, hsup] at hover
  | store hst =>
      -- the store of the flag included: the frames thread then gives up for good
      refine jammed_iff.mpr ⟨q, hq, attemptsOver_store hover hst, ?_⟩
      have hstored := supStep_stored hst
      obtain ⟨sh, g, sv, rfl⟩ := hstored.layout
      refine jammed_set_flag (l := s.layout) rfl ?_ hjam
      intro hflag
      rcases hstored.shutdown with ⟨hsame, _⟩ | ⟨hset, _⟩
      · rw [hsame]
        exact hflag
      · rw [hset]
        decide
  | rerun hsup => simp [attemptsOver, hsup] at hover
  | source hq' hm hst =>
      obtain rfl := Child.running.inj (hq.symm.trans hq')
      rw [Ingest.jammed_source hjam] at hst
      cases hst
  | frames hq' hm hst =>
      obtain rfl := Child.running.inj (hq.symm.trans hq')
      have hpush := hl.sound.calls.push
      rw [pushCall_running hq] at hpush
      exact hingest (Ingest.jammed_frames hjam hpush (Ingest.framesMove hst))
  | ingestAttach hq' hm =>
      obtain rfl := Child.running.inj (hq.symm.trans hq')
      exact hingest hjam
  | ingestMain hq' hst =>
      obtain rfl := Child.running.inj (hq.symm.trans hq')
      refine hingest ?_
      obtain ⟨n, hlay⟩ := Ingest.stepMain_layout hst
      simp only [Ingest.stepMain, Option.map_eq_some_iff, Prod.mk.injEq] at hst
      obtain ⟨_, _, _, rfl⟩ := hst
      rw [hlay]
      exact hjam
  | ingestExit hq' hm =>
      -- at its exit ingest has joined the source thread
      obtain rfl := Child.running.inj (hq.symm.trans hq')
      have hdone := hjoins.source (Or.inr (Or.inr hm))
      have hpushing := (Ingest.jammed_iff.mp hjam).1
      simp [Ingest.pushing, hdone] at hpushing
  | fast hp hatt hst => exact absurd hp (hnone _)
  | window hp hatt hst => exact absurd hp (hnone _)
  | snapshot hp hatt hpc hst => exact absurd hp (hnone _)
  | handOver hp hatt hpc hst => exact absurd hp (hnone _)
  | watchdog hp hatt hst => exact absurd hp (hnone _)
  | computeMain hp hst => exact absurd hp (hnone _)
  | computeExit hp hm => exact absurd hp (hnone _)
  | publish hp hw hst =>
      obtain ⟨hb, b, rfl⟩ := Publish.step_layout hst
      exact hkeep _ rfl rfl rfl rfl rfl
  | publishOpen hp hc => exact hkeep _ rfl rfl rfl rfl rfl
  | publishWrite hp hw => exact hkeep _ rfl rfl rfl rfl rfl
  | publishExit hp hc => exact hkeep _ rfl rfl rfl rfl rfl
  | openFails hp hc => exact hkeep _ rfl rfl rfl rfl rfl
  | _ => exact ha.elim

/-- Neither situation is one in which the pipeline has returned. -/
theorem not_returned {s : Pipeline} (hl : Live s) (h : s.starved = true ∨ s.jammed = true) :
    s.hasReturned ≠ true := by
  intro hr
  unfold hasReturned at hr
  split at hr
  · rename_i code hsup
    rcases h with hst | hj
    · obtain ⟨⟨p, hp⟩, _⟩ := starved_iff.mp hst
      have hawait := hl.sound.skeleton.running p hp
      simp [hsup, SupPc.awaiting] at hawait
    · obtain ⟨q, _, hover, _⟩ := jammed_iff.mp hj
      simp [attemptsOver, hsup] at hover
  · cases hr

/-- **From a starved or jammed state the pipeline never returns.** -/
theorem never_returns {s : Pipeline} (hl : Live s) (h : s.starved = true ∨ s.jammed = true) :
    ¬ Transition.CanReach step calm (fun s' => s'.hasReturned = true) s := by
  refine Transition.CanReach.not_of_trap
    (P := fun s => Live s ∧ (s.starved = true ∨ s.jammed = true)) ?_ ?_ ⟨hl, h⟩
  · rintro s a s' ⟨hl, h⟩ ha hs
    exact ⟨live_step hl hs, h.imp (starved_step hl · ha hs) (jammed_step hl · ha hs)⟩
  · rintro s ⟨hl, h⟩
    exact not_returned hl h

/-! ## The children can end -/

/-- A child's step moves neither the supervisor nor takes ingest's flag back. -/
theorem child_step {s s' : Pipeline} {a : Act} (hl : Live s) (ha : ofChild a)
    (hs : s.step a = some s') :
    s'.sup = s.sup
      ∧ (s.layout.control.ingestDone ≠ 0 → s'.layout.control.ingestDone ≠ 0) := by
  cases move_of_step hs with
  | source hp hm hst =>
      obtain ⟨n, rfl⟩ := Ingest.stepSource_layout hst
      exact ⟨rfl, id⟩
  | frames hp hm hst =>
      obtain ⟨r, rfl⟩ := Ingest.stepFrames_layout hst
      exact ⟨rfl, id⟩
  | ingestMain hp hst =>
      refine ⟨rfl, fun hflag => ?_⟩
      have hm := (hl.sound.joins _ hp).flag.mp hflag
      simp [Ingest.stepMain, ingestMainStep, hm] at hst
  | fast hp hatt hst =>
      obtain ⟨hb, hc, ov, fd, r, la, rfl⟩ := fastStep_layout hst
      exact ⟨rfl, id⟩
  | window hp hatt hst =>
      obtain ⟨hb, ov, wd, wi, rfl⟩ := windowStep_layout hst
      exact ⟨rfl, id⟩
  | snapshot hp hatt hpc hst =>
      obtain ⟨hb, ov, sd, b, rfl⟩ := snapshotStep_layout hst
      exact ⟨rfl, id⟩
  | handOver hp hatt hpc hst =>
      obtain ⟨hb, ov, sd, b, rfl⟩ := snapshotStep_layout hst
      exact ⟨rfl, id⟩
  | watchdog hp hatt hst =>
      obtain ⟨f, rfl⟩ := watchdogStep_layout hst
      exact ⟨rfl, id⟩
  | computeMain hp hst =>
      obtain ⟨cd, rfl⟩ := computeMainStep_layout hst
      exact ⟨rfl, id⟩
  | publish hp hw hst =>
      obtain ⟨hb, b, rfl⟩ := Publish.step_layout hst
      exact ⟨rfl, id⟩
  | _ => first
    | exact ⟨rfl, id⟩
    | exact ha.elim

/-- What the children's steps keep while the supervisor waits. -/
structure Waits (pc : SupPc) (s : Pipeline) : Prop where
  live : Live s
  sup : s.sup = pc

theorem waits_step {pc : SupPc} {s s' : Pipeline} {a : Act} (h : Waits pc s) (ha : ofChild a)
    (hs : s.step a = some s') : Waits pc s' :=
  ⟨live_step h.live hs, (child_step h.live ha hs).1.trans h.sup⟩

/-- Ingest's flag is up, whatever the children do. -/
theorem flagged_step {s s' : Pipeline} {a : Act}
    (h : Live s ∧ s.layout.control.ingestDone ≠ 0) (ha : ofChild a) (hs : s.step a = some s') :
    Live s' ∧ s'.layout.control.ingestDone ≠ 0 :=
  ⟨live_step h.1 hs, (child_step h.1 ha hs).2 h.2⟩

/-- Compute has ended, and ingest's flag is up. -/
def ComputeOver (s : Pipeline) : Prop :=
  s.layout.control.ingestDone ≠ 0 ∧ ∃ status, s.compute = .ended status

theorem Fed.ends {s : Pipeline} (h : Fed s) : Transition.CanReach step ofChild ComputeOver s := by
  have hdrain : Draining (fun _ => False) s := by
    obtain ⟨p, hp, ha⟩ := h.compute
    exact ⟨h.live.sound, h.live.engaged, h.ingestDone, p, hp, ha, fun _ hX => hX.elim⟩
  have hmay : ∀ X : Stage, ofChild X.act ∨ False := fun X => Or.inl (by cases X <;> trivial)
  -- the stages one after the other, then the joins; ingest's flag stays up throughout
  have hends := (hdrain.stages hmay).trans fun _ h' => h'.ends trivial trivial
  refine (hends.preserve (fun _ _ _ hf ha hs => flagged_step hf ha hs)
    ⟨h.live, h.ingestDone⟩).imp ?_
  rintro s' ⟨⟨_, hi⟩, hend⟩
  exact ⟨hi, _, hend⟩

theorem attached_ends {s : Pipeline} {p : Compute} (hl : Live s) (hp : s.compute = .running p)
    (ha : p.attached = true)
    (hfed : s.layout.control.ingestDone = 0 → ∃ q, s.ingest = .running q) :
    Transition.CanReach step ofChild ComputeOver s := by
  by_cases hi : s.layout.control.ingestDone = 0
  · obtain ⟨q, hq⟩ := hfed hi
    have hfeeding : Feeding q s := ⟨hl, hq, hi, p, hp, ha⟩
    exact (hfeeding.ends trivial trivial trivial trivial).trans fun _ h' => h'.ends
  · exact Fed.ends ⟨hl, hi, p, hp, ha⟩

/-- **A compute process that is not starved can end.** -/
theorem compute_ends {s : Pipeline} {p : Compute} (hl : Live s) (hp : s.compute = .running p)
    (hfed : s.layout.control.ingestDone = 0 → ∃ q, s.ingest = .running q) :
    Transition.CanReach step ofChild ComputeOver s := by
  cases hm : p.main with
  | exit c =>
      have hi := (hl.sound.stages p hp).flag_of_exit hm
      have hs : s.step .computeMain = some { s with compute := .ended (.exited c) } := by
        simp [step, stepComputeMain, hp, hm]
      exact .step (a := .computeMain) trivial hs (.here ⟨hi, _, rfl⟩)
  | crash =>
      have hattach : Transition.CanReach step ofChild _ s := can_attach trivial hp (Or.inl hm)
      refine (hattach.preserve (fun _ _ _ hq _ hs => live_step hq hs) hl).trans ?_
      rintro s' ⟨hl', rfl⟩
      exact attached_ends hl' rfl rfl hfed
  | attach =>
      have hattach : Transition.CanReach step ofChild _ s := can_attach trivial hp (Or.inr hm)
      refine (hattach.preserve (fun _ _ _ hq _ hs => live_step hq hs) hl).trans ?_
      rintro s' ⟨hl', rfl⟩
      exact attached_ends hl' rfl rfl hfed
  | _ => exact attached_ends hl hp (by simp [Compute.attached, hm]) hfed

end Pipeline

/-- How far a `consume` is from its end. -/
def consumeRank : TripleBuffer.ConsumePc → Nat
  | .idle => 0
  | .exchange => 2
  | .loadFresh => 3
  | .update _ => 1

/-- What publish has left once the flag is set. -/
def PublishPc.rank : PublishPc → Nat
  | .write => 1
  | .openFile => 2
  | .test => 3
  | .testDone => 4
  | .beat => 5
  | .attach => 100
  | .exit _ => 0
  | .copy k => 6 + (Snapshot.parts - k)
  | .consume call => 72 + consumeRank call

/-- **Once the flag is set publish can always move, and comes closer to its end.** -/
theorem Publish.step_progress {l : Layout} {p : Publish} (hflag : l.control.shutdown ≠ 0)
    (hx : ∀ c, p.pc ≠ .exit c) (he : p.pc.engaged) :
    ∃ l' p', p.step l = some (l', p') ∧ p'.pc.rank < p.pc.rank := by
  have hleave : p.leave.pc.rank ≤ 2 := by
    unfold Publish.leave
    split <;> simp [PublishPc.rank]
  unfold Publish.step
  cases hpc : p.pc with
  | exit c => exact absurd hpc (hx c)
  | test =>
      exact ⟨_, _, if_neg hflag, Nat.lt_of_le_of_lt hleave (by simp [PublishPc.rank])⟩
  | testDone =>
      simp only
      split
      · exact ⟨_, _, rfl, Nat.lt_of_le_of_lt hleave (by simp [PublishPc.rank])⟩
      · exact ⟨_, _, rfl, by simp [PublishPc.rank]⟩
  | copy k =>
      simp only
      split
      · refine ⟨_, _, rfl, ?_⟩
        simp only [PublishPc.rank]
        omega
      · refine ⟨_, _, rfl, ?_⟩
        simp only [PublishPc.rank]
        omega
  | consume call =>
      rw [hpc] at he
      have hparts : Snapshot.parts = 65 := rfl
      cases call with
      | idle => exact absurd rfl he
      | loadFresh =>
          by_cases hfresh : l.snapshots.middle &&& TripleBuffer.kFresh = 0
          · simp only [TripleBuffer.consumeStep, if_pos hfresh]
            exact ⟨_, _, rfl, by simp [PublishPc.rank, consumeRank]⟩
          · simp only [TripleBuffer.consumeStep, if_neg hfresh]
            exact ⟨_, _, rfl, by simp [PublishPc.rank, consumeRank]⟩
      | exchange => exact ⟨_, _, rfl, by simp [PublishPc.rank, consumeRank]⟩
      | update old =>
          exact ⟨_, _, rfl, by simp [PublishPc.rank, consumeRank, hparts]⟩
  | _ => exact ⟨_, _, rfl, by simp [PublishPc.rank]⟩

namespace Pipeline

/-- What publish has left, in the system. -/
def publishRank (s : Pipeline) : Nat :=
  match s.publish with
  | .running p => p.pc.rank
  | _ => 0

/-- A step of publish before its end, in the system. -/
theorem step_publish {s : Pipeline} {p p' : Publish} {l' : Layout} (hp : s.publish = .running p)
    (hx : ∀ c, p.pc ≠ .exit c) (hst : p.step s.layout = some (l', p')) :
    ∃ s', s.step .publish = some s' ∧ s'.publish = .running p' ∧ s'.layout = l' := by
  by_cases ho : p.pc = .openFile
  · refine ⟨(s.withPublish (l', p')).openOut, ?_, rfl, rfl⟩
    simp [step, stepPublish, hp, ho, hst]
  by_cases hw : p.pc = .write
  · refine ⟨(s.withPublish (l', p')).write p.last, ?_, rfl, rfl⟩
    simp [step, stepPublish, hp, hw, hst]
  · refine ⟨s.withPublish (l', p'), ?_, rfl, rfl⟩
    simp [step, stepPublish, hp, hst]

/-- **Once the flag is set publish can be run to its end.** -/
theorem publish_ends {s : Pipeline} {p : Publish} (hl : Live s) (hp : s.publish = .running p)
    (hflag : s.layout.control.shutdown ≠ 0) :
    Transition.CanReach step ofChild (fun s' => ∃ status, s'.publish = .ended status) s := by
  have hexit : Transition.CanReach step ofChild
      (fun s' => ∃ p' c, s'.publish = .running p' ∧ p'.pc = .exit c) s := by
    refine Transition.CanReach.of_rank_step (P := fun s => Live s
      ∧ s.layout.control.shutdown ≠ 0 ∧ ∃ p, s.publish = .running p) publishRank ?_
      ⟨hl, hflag, p, hp⟩
    rintro s ⟨hl, hflag, p, hp⟩
    by_cases hx : ∃ c, p.pc = .exit c
    · obtain ⟨c, hc⟩ := hx
      exact Or.inl ⟨p, c, hp, hc⟩
    · right
      have hx : ∀ c, p.pc ≠ .exit c := fun c hc => hx ⟨c, hc⟩
      obtain ⟨l', p', hst, hlt⟩ := Publish.step_progress hflag hx (hl.engaged.publish p hp)
      obtain ⟨s', hs, hp', hl'⟩ := step_publish hp hx hst
      refine ⟨.publish, s', trivial, hs, ⟨live_step hl hs, ?_, p', hp'⟩, ?_⟩
      · rw [hl']
        obtain ⟨hb, b, rfl⟩ := Publish.step_layout hst
        exact hflag
      · simpa [publishRank, hp, hp'] using hlt
  refine hexit.trans ?_
  rintro s' ⟨p', c, hp', hc⟩
  have hs : s'.step .publish = some { s' with publish := .ended (.exited c) } := by
    simp [step, stepPublish, hp', hc]
  exact .step (a := .publish) trivial hs (.here ⟨_, rfl⟩)

/-! ## The supervisor's own way -/

/-- Live, and neither starved nor jammed. -/
structure Free (s : Pipeline) : Prop where
  live : Live s
  fed : s.starved = false
  clear : s.jammed = false

/-- Outside the wait for compute and before the attempts are over there is nothing to show. -/
theorem free_of_live {s : Pipeline} (hl : Live s) (hc : ∀ p, s.compute ≠ .running p)
    (ho : s.attemptsOver = false) : Free s := by
  refine ⟨hl, ?_, ?_⟩
  · refine Bool.eq_false_iff.mpr fun h => ?_
    obtain ⟨⟨p, hp⟩, _⟩ := starved_iff.mp h
    exact hc p hp
  · refine Bool.eq_false_iff.mpr fun h => ?_
    obtain ⟨_, _, hover, _⟩ := jammed_iff.mp h
    rw [ho] at hover
    cases hover

/-- How many statements `run_once_pipeline` has left, at most. -/
def supRank : SupPc → Nat
  | .spawnIngest => 64
  | .spawnPublish => 62
  | .storeIngestPid _ => 63
  | .storePublishPid _ => 61
  | .spawnCompute n => 10 * (4 - n) + 9
  | .storeComputePid n _ => 10 * (4 - n) + 8
  | .waitCompute n => 10 * (4 - n) + 7
  | .storeComputeExit n _ => 10 * (4 - n) + 6
  | .addGeneration n => 10 * (4 - n) + 5
  | .storeShutdown _ => 5
  | .waitIngest _ => 4
  | .storeIngestExit _ _ => 3
  | .waitPublish _ _ => 2
  | .storePublishExit _ _ _ => 1
  | .returned _ => 0

variable {s : Pipeline}

/-- The supervisor moves on and nothing that matters here changes. -/
theorem Free.same {s' : Pipeline} (h : Free s) (hl : Live s') (hc : s'.compute = s.compute)
    (hi : s'.ingest = s.ingest) (hring : s'.layout.ring = s.layout.ring)
    (hflag : s'.layout.control.shutdown = s.layout.control.shutdown)
    (hdone : s'.layout.control.ingestDone = s.layout.control.ingestDone)
    (ho : s'.attemptsOver = s.attemptsOver) : Free s' := by
  refine ⟨hl, ?_, ?_⟩
  · have hfed := h.fed
    unfold starved at hfed ⊢
    rw [hc, hi, hdone]
    exact hfed
  · have hclear := h.clear
    unfold jammed Ingest.jammed at hclear ⊢
    rw [hi, ho, hring, hflag]
    exact hclear

/-- The supervisor can get past a statement. -/
def CanPass (pc : SupPc) (s : Pipeline) : Prop :=
  Transition.CanReach step calm (fun s' => Free s' ∧ supRank s'.sup < supRank pc) s

/-- What the children's steps lead to, while the supervisor waits. -/
theorem CanPass.of_children {pc : SupPc} {Q : Pipeline → Prop} (hl : Live s) (hsup : s.sup = pc)
    (hc : Transition.CanReach step ofChild Q s)
    (h : ∀ s', Live s' → s'.sup = pc → Q s' → CanPass pc s') : CanPass pc s := by
  have hkept := hc.preserve (fun _ _ _ hw ha hs => waits_step hw ha hs) (⟨hl, hsup⟩ : Waits pc s)
  refine (hkept.mono calm_of_child).trans ?_
  rintro s' ⟨⟨hl', hsup'⟩, hQ⟩
  exact h s' hl' hsup' hQ

theorem step_store {l' : Layout} {pc' : SupPc} (hst : supStep s.layout s.sup = some (l', pc')) :
    s.step (.sup 0) = some { s with layout := l', sup := pc' } := by
  cases hsup : s.sup with
  | spawnIngest => simp [hsup, supStep] at hst
  | spawnPublish => simp [hsup, supStep] at hst
  | spawnCompute n => simp [hsup, supStep] at hst
  | waitCompute n => simp [hsup, supStep] at hst
  | waitIngest ok => simp [hsup, supStep] at hst
  | waitPublish ok st => simp [hsup, supStep] at hst
  | returned code => simp [hsup, supStep] at hst
  | _ =>
      rw [hsup] at hst
      simp [step, stepSup, hsup, hst]

/-- A store while no compute process is running and the attempts are not over. -/
theorem pass_store {l' : Layout} {pc' : SupPc} (hl : Live s)
    (hst : supStep s.layout s.sup = some (l', pc')) (hc : ∀ p, s.compute ≠ .running p)
    (ho : ({ s with layout := l', sup := pc' } : Pipeline).attemptsOver = false)
    (hlt : supRank pc' < supRank s.sup) : CanPass s.sup s := by
  have hs := step_store hst
  exact .step (a := .sup 0) trivial hs (.here ⟨free_of_live (live_step hl hs) hc ho, hlt⟩)

/-! ### Compute -/

/-- An attempt starts: with an ingest to feed it if there is one, and not at all if
there is none. -/
theorem pass_spawnCompute {n : Nat} (h : Free s) (hsup : s.sup = .spawnCompute n) :
    CanPass (.spawnCompute n) s := by
  by_cases hgone : s.layout.control.ingestDone = 0 ∧ ∀ q, s.ingest ≠ .running q
  · -- `posix_spawn` fails: a compute process would be starved
    have hs : s.step .spawnFails
        = some { s with sup := .storeComputePid n none, compute := .failed } := by
      simp [step, spawning, stepSup, hsup]
    refine .step (a := .spawnFails) trivial hs (.here ⟨⟨live_step h.live hs, rfl, ?_⟩, ?_⟩)
    · refine Bool.eq_false_iff.mpr fun hj => ?_
      obtain ⟨q, hq, _⟩ := jammed_iff.mp hj
      exact hgone.2 q hq
    · simp [supRank]
  · have hs : s.step (.sup 0)
        = some { s with sup := .storeComputePid n (some 0), compute := .running Compute.init } := by
      simp [step, stepSup, hsup]
    refine .step (a := .sup 0) trivial hs (.here ⟨⟨live_step h.live hs, ?_, ?_⟩, ?_⟩)
    · refine Bool.eq_false_iff.mpr fun hst => ?_
      obtain ⟨_, hi, hq⟩ := starved_iff.mp hst
      exact hgone ⟨hi, hq⟩
    · refine Bool.eq_false_iff.mpr fun hj => ?_
      obtain ⟨_, _, hover, _⟩ := jammed_iff.mp hj
      simp [attemptsOver, Child.wait] at hover
    · simp [supRank]

theorem pass_storeComputePid {n : Nat} {pid : Option UInt32} (h : Free s)
    (hsup : s.sup = .storeComputePid n pid) : CanPass (.storeComputePid n pid) s := by
  have hst : supStep s.layout s.sup = some ({ s.layout with supervisor := { s.layout.supervisor with
      computePid := storePid s.layout.supervisor.computePid pid } }, .waitCompute n) := by
    rw [hsup]
    rfl
  have hs := step_store hst
  refine .step (a := .sup 0) trivial hs (.here ⟨?_, by simp [supRank]⟩)
  refine h.same (live_step h.live hs) rfl rfl rfl rfl rfl ?_
  simp [attemptsOver, hsup]

/-- `waitpid` for compute returns. -/
theorem pass_reapCompute {n : Nat} {status : UInt32} (h : Free s) (hsup : s.sup = .waitCompute n)
    (hw : s.compute.wait = some status) : CanPass (.waitCompute n) s := by
  have hs : s.step (.sup 0)
      = some { s with sup := .storeComputeExit n status, exits := s.exits ++ [status] } := by
    simp [step, stepSup, hsup, hw]
  refine .step (a := .sup 0) trivial hs (.here ⟨?_, by simp [supRank]⟩)
  refine h.same (live_step h.live hs) rfl rfl rfl rfl rfl ?_
  simp [attemptsOver, hsup, hw]

/-- With its flag up, ingest is past its last push. -/
theorem not_jammed_of_flag (hl : Live s) (hi : s.layout.control.ingestDone ≠ 0) :
    s.jammed = false := by
  refine Bool.eq_false_iff.mpr fun hj => ?_
  obtain ⟨q, hq, _, hjam⟩ := jammed_iff.mp hj
  have hjoins := hl.sound.joins q hq
  have hdone := hjoins.source (Or.inr (Or.inr (hjoins.flag.mp hi)))
  have hpushing := (Ingest.jammed_iff.mp hjam).1
  simp [Ingest.pushing, hdone] at hpushing

/-- A compute process can be waited for. -/
theorem pass_waitCompute {n : Nat} (h : Free s) (hsup : s.sup = .waitCompute n) :
    CanPass (.waitCompute n) s := by
  cases hc : s.compute with
  | unborn => exact absurd hc (h.live.sound.skeleton.spawned (by rw [hsup]; rfl))
  | failed => exact pass_reapCompute h hsup (by rw [hc]; rfl)
  | ended status =>
      cases status with
      | exited code => exact pass_reapCompute h hsup (by rw [hc]; rfl)
      | signaled => exact pass_reapCompute h hsup (by rw [hc]; rfl)
  | running p =>
      -- not starved: the flag is up, or ingest is there to store it
      have hfed : s.layout.control.ingestDone = 0 → ∃ q, s.ingest = .running q := by
        intro hi
        by_contra hgone
        have hst : s.starved = true :=
          starved_iff.mpr ⟨⟨p, hc⟩, hi, fun q hq => hgone ⟨q, hq⟩⟩
        rw [h.fed] at hst
        cases hst
      refine CanPass.of_children h.live hsup (compute_ends h.live hc hfed) ?_
      rintro s' hl' hsup' ⟨hi', status, hc'⟩
      have hfree : Free s' := by
        refine ⟨hl', ?_, not_jammed_of_flag hl' hi'⟩
        simp [starved, hc']
      cases status with
      | exited code => exact pass_reapCompute hfree hsup' (by rw [hc']; rfl)
      | signaled => exact pass_reapCompute hfree hsup' (by rw [hc']; rfl)

theorem pass_storeComputeExit {n : Nat} {status : UInt32} (h : Free s)
    (hsup : s.sup = .storeComputeExit n status) : CanPass (.storeComputeExit n status) s := by
  have hst : supStep s.layout s.sup = some ({ s.layout with supervisor := { s.layout.supervisor with
      computeExit := status } }, .afterCompute n status) := by
    rw [hsup]
    rfl
  have hs := step_store hst
  refine .step (a := .sup 0) trivial hs (.here ⟨?_, ?_⟩)
  · refine h.same (live_step h.live hs) rfl rfl rfl rfl rfl ?_
    simp only [attemptsOver, hsup, isLast, SupPc.afterCompute]
    by_cases hz : status = 0
    · simp [hz]
    · by_cases hn : n = kMaxComputeAttempts <;> simp [hz, hn]
  · simp only [SupPc.afterCompute]
    repeat' split
    all_goals simp only [supRank]
    all_goals omega

/-! ### Ingest -/

/-- The store of the flag, with the frames thread not about to look at it. -/
theorem pass_setShutdown {ok : Bool} (h : Free s) (hsup : s.sup = .storeShutdown ok)
    (hlook : ∀ q, s.ingest = .running q → q.givingUp = false) :
    CanPass (.storeShutdown ok) s := by
  have hst : supStep s.layout s.sup = some ({ s.layout with control := { s.layout.control with
      shutdown := 1 } }, .waitIngest ok) := by
    rw [hsup]
    rfl
  have hs := step_store hst
  have hnone := h.live.sound.skeleton.not_running (by rw [hsup]; rfl)
  refine .step (a := .sup 0) trivial hs (.here ⟨⟨live_step h.live hs, ?_, ?_⟩, by simp [supRank]⟩)
  · refine Bool.eq_false_iff.mpr fun hstv => ?_
    obtain ⟨⟨p, hp⟩, _⟩ := starved_iff.mp hstv
    exact hnone p hp
  · -- a jam after the store was one before it
    refine Bool.eq_false_iff.mpr fun hj => ?_
    obtain ⟨q, hq, _, hjam⟩ := jammed_iff.mp hj
    have hq : s.ingest = .running q := hq
    obtain ⟨hp, hfull, hcase⟩ := Ingest.jammed_iff.mp hjam
    have hbefore : s.jammed = true := by
      refine jammed_iff.mpr ⟨q, hq, by simp [attemptsOver, hsup], ?_⟩
      refine Ingest.jammed_iff.mpr ⟨hp, hfull, ?_⟩
      rcases hcase with hd | hold | ⟨hg, _⟩
      · exact Or.inl hd
      · exact Or.inr (Or.inl hold)
      · rw [hlook q hq] at hg
        cases hg
    rw [h.clear] at hbefore
    cases hbefore

/-- A frames thread that is about to look at the flag can be sent back to the ring first. -/
theorem pass_retry {ok : Bool} {q : Ingest} {record : Record} (h : Free s)
    (hsup : s.sup = .storeShutdown ok) (hq : s.ingest = .running q) (ha : q.main ≠ .attach)
    (hpc : q.frames = .testStop record) : CanPass (.storeShutdown ok) s := by
  have hflag : s.layout.control.shutdown = 0 := by
    by_contra hne
    have hstop := h.live.sound.skeleton.shutdown.mp hne
    simp [hsup, SupPc.stopping] at hstop
  have hst : q.stepFrames s.layout
      = some (s.layout, { q with frames := .push record (.loadWrite record) }) := by
    simp [Ingest.stepFrames, framesStep, hpc, hflag]
  have hs := step_frames hq ha hst
  have hnone := h.live.sound.skeleton.not_running (by rw [hsup]; rfl)
  refine .step (a := .frames) trivial hs (pass_setShutdown ⟨live_step h.live hs, ?_, ?_⟩ hsup ?_)
  · refine Bool.eq_false_iff.mpr fun hstv => ?_
    obtain ⟨⟨p, hp⟩, _⟩ := starved_iff.mp hstv
    exact hnone p hp
  · -- it holds the same record as before, and the ring has room for it
    refine Bool.eq_false_iff.mpr fun hj => ?_
    obtain ⟨q', hq', hover, hjam⟩ := jammed_iff.mp hj
    obtain rfl := Child.running.inj hq'
    obtain ⟨hp, hfull, hcase⟩ := Ingest.jammed_iff.mp hjam
    have hring : s.layout.ring.full = true := by
      simpa [Ingest.holding, checking, Ingest.givingUp, withIngest] using hcase
    have hbefore : s.jammed = true := jammed_iff.mpr ⟨q, hq, hover, Ingest.jammed_iff.mpr
      ⟨hp, hfull, Or.inr (Or.inl ⟨by simp [Ingest.holding, hpc], hring⟩)⟩⟩
    rw [h.clear] at hbefore
    cases hbefore
  · intro q' hq'
    obtain rfl := Child.running.inj hq'
    rfl

theorem pass_storeShutdown {ok : Bool} (h : Free s) (hsup : s.sup = .storeShutdown ok) :
    CanPass (.storeShutdown ok) s := by
  by_cases hlook : ∃ q record, s.ingest = .running q ∧ q.frames = .testStop record
  · obtain ⟨q, record, hq, hpc⟩ := hlook
    by_cases ha : q.main = .attach
    · -- the threads move once ingest has attached
      have hs : s.step .ingestMain
          = some (s.withIngest (s.layout, { q with main := .joinSource })) := by
        simp [step, stepIngestMain, hq, ha]
      have hfree : Free (s.withIngest (s.layout, { q with main := .joinSource })) := by
        have hfed := h.fed
        have hclear := h.clear
        refine ⟨live_step h.live hs, ?_, ?_⟩
        · simpa [starved, withIngest, hq, Child.isRunning] using hfed
        · simp only [jammed, hq] at hclear
          exact hclear
      exact .step (a := .ingestMain) trivial hs (pass_retry hfree hsup rfl (by simp) hpc)
    · exact pass_retry h hsup hq ha hpc
  · refine pass_setShutdown h hsup fun q hq => ?_
    unfold Ingest.givingUp
    split
    · rename_i record hpc
      exact absurd ⟨q, record, hq, hpc⟩ hlook
    · rfl

/-- Ingest can be waited for. -/
theorem pass_waitIngest {ok : Bool} (h : Free s) (hsup : s.sup = .waitIngest ok) :
    CanPass (.waitIngest ok) s := by
  have hreap : ∀ s' : Pipeline, Live s' → s'.sup = .waitIngest ok →
      (∃ status, s'.ingest.wait = some status) → CanPass (.waitIngest ok) s' := by
    rintro s' hl' hsup' ⟨status, hw⟩
    have hs : s'.step (.sup 0) = some { s' with sup := .storeIngestExit ok status } := by
      simp [step, stepSup, hsup', hw]
    have hnone := hl'.sound.skeleton.not_running (by rw [hsup']; rfl)
    exact .step (a := .sup 0) trivial hs
      (.here ⟨free_of_live (live_step hl' hs) hnone rfl, by simp [supRank]⟩)
  have hsk := h.live.sound.skeleton
  cases hi : s.ingest with
  | unborn =>
      have := hsk.ingest.mp hi
      rw [hsup] at this
      cases this
  | failed => exact hreap s h.live hsup ⟨_, by rw [hi]; rfl⟩
  | ended status =>
      cases status with
      | exited code => exact hreap s h.live hsup ⟨_, by rw [hi]; rfl⟩
      | signaled => exact hreap s h.live hsup ⟨_, by rw [hi]; rfl⟩
  | running q =>
      have hflag : s.layout.control.shutdown ≠ 0 := hsk.shutdown.mpr (by rw [hsup]; rfl)
      have hclear : q.jammed s.layout = false := by
        refine Bool.eq_false_iff.mpr fun hjam => ?_
        have hj : s.jammed = true := jammed_iff.mpr ⟨q, hi, by simp [attemptsOver, hsup], hjam⟩
        rw [h.clear] at hj
        cases hj
      have hstop : Stopping q s := ⟨h.live, hi, hflag, hclear⟩
      refine CanPass.of_children h.live hsup (hstop.ends trivial trivial trivial) ?_
      intro s' hl' hsup' hend
      exact hreap s' hl' hsup' ⟨0, by rw [hend]; rfl⟩

/-! ### Publish -/

/-- Publish can be waited for. -/
theorem pass_waitPublish {ok : Bool} {ist : UInt32} (h : Free s)
    (hsup : s.sup = .waitPublish ok ist) : CanPass (.waitPublish ok ist) s := by
  have hreap : ∀ s' : Pipeline, Live s' → s'.sup = .waitPublish ok ist →
      (∃ status, s'.publish.wait = some status) → CanPass (.waitPublish ok ist) s' := by
    rintro s' hl' hsup' ⟨status, hw⟩
    have hs : s'.step (.sup 0) = some { s' with sup := .storePublishExit ok ist status } := by
      simp [step, stepSup, hsup', hw]
    have hnone := hl'.sound.skeleton.not_running (by rw [hsup']; rfl)
    exact .step (a := .sup 0) trivial hs
      (.here ⟨free_of_live (live_step hl' hs) hnone rfl, by simp [supRank]⟩)
  have hsk := h.live.sound.skeleton
  cases hp : s.publish with
  | unborn =>
      have := hsk.publish.mp hp
      rw [hsup] at this
      cases this
  | failed => exact hreap s h.live hsup ⟨_, by rw [hp]; rfl⟩
  | ended status =>
      cases status with
      | exited code => exact hreap s h.live hsup ⟨_, by rw [hp]; rfl⟩
      | signaled => exact hreap s h.live hsup ⟨_, by rw [hp]; rfl⟩
  | running p =>
      have hflag : s.layout.control.shutdown ≠ 0 := hsk.shutdown.mpr (by rw [hsup]; rfl)
      refine CanPass.of_children h.live hsup (publish_ends h.live hp hflag) ?_
      rintro s' hl' hsup' ⟨status, hend⟩
      cases status with
      | exited code => exact hreap s' hl' hsup' ⟨_, by rw [hend]; rfl⟩
      | signaled => exact hreap s' hl' hsup' ⟨_, by rw [hend]; rfl⟩

/-! ### Together -/

/-- **Every statement before the return can be passed.** -/
theorem can_pass (h : Free s) (hr : s.hasReturned = false) : CanPass s.sup s := by
  have hl := h.live
  have hnone : s.sup.awaiting = false → ∀ p, s.compute ≠ .running p := hl.sound.skeleton.not_running
  have hcounts := hl.sound.skeleton.counts
  cases hsup : s.sup with
  | spawnIngest =>
      have hs : s.step (.sup 0) = some { s with sup := .storeIngestPid (some 0)
                                                ingest := .running (Ingest.init s.replay) } := by
        simp [step, stepSup, hsup]
      exact .step (a := .sup 0) trivial hs
        (.here ⟨free_of_live (live_step hl hs) (hnone (by rw [hsup]; rfl)) rfl, by simp [supRank]⟩)
  | spawnPublish =>
      have hs : s.step (.sup 0) = some { s with sup := .storePublishPid (some 0)
                                                publish := .running Publish.init } := by
        simp [step, stepSup, hsup]
      exact .step (a := .sup 0) trivial hs
        (.here ⟨free_of_live (live_step hl hs) (hnone (by rw [hsup]; rfl)) rfl, by simp [supRank]⟩)
  | storeIngestPid pid =>
      rw [← hsup]
      exact pass_store hl (by rw [hsup]; rfl) (hnone (by rw [hsup]; rfl)) rfl
        (by rw [hsup]; simp [supRank])
  | storePublishPid pid =>
      rw [← hsup]
      exact pass_store hl (by rw [hsup]; rfl) (hnone (by rw [hsup]; rfl)) rfl
        (by rw [hsup]; simp [supRank])
  | spawnCompute n => exact pass_spawnCompute h hsup
  | storeComputePid n pid => exact pass_storeComputePid h hsup
  | waitCompute n => exact pass_waitCompute h hsup
  | storeComputeExit n status => exact pass_storeComputeExit h hsup
  | addGeneration n =>
      -- another attempt is left, so the rank of the next one is smaller
      rw [hsup] at hcounts
      have hn : n < 3 := hcounts.2
      rw [← hsup]
      refine pass_store hl (by rw [hsup]; rfl) (hnone (by rw [hsup]; rfl)) rfl ?_
      rw [hsup]
      simp only [supRank]
      omega
  | storeShutdown ok => exact pass_storeShutdown h hsup
  | waitIngest ok => exact pass_waitIngest h hsup
  | storeIngestExit ok status =>
      rw [← hsup]
      exact pass_store hl (by rw [hsup]; rfl) (hnone (by rw [hsup]; rfl)) rfl
        (by rw [hsup]; simp [supRank])
  | waitPublish ok ist => exact pass_waitPublish h hsup
  | storePublishExit ok ist status =>
      rw [← hsup]
      exact pass_store hl (by rw [hsup]; rfl) (hnone (by rw [hsup]; rfl)) rfl
        (by rw [hsup]; simp [supRank])
  | returned code => simp [hasReturned, hsup] at hr

/--
**`run_once_pipeline` can return exactly from the states that are neither starved nor
jammed.** The continuation has no death in it; what came before it is any run at all.
-/
theorem returns_iff (h : Reachable s) :
    Transition.CanReach step calm (fun s' => s'.hasReturned = true) s
      ↔ s.starved = false ∧ s.jammed = false := by
  have hl := live_reachable h
  constructor
  · intro hcan
    by_contra hbad
    refine never_returns hl ?_ hcan
    by_cases hst : s.starved = true
    · exact Or.inl hst
    · exact Or.inr (by simpa [hst] using hbad)
  · rintro ⟨hfed, hclear⟩
    refine Transition.CanReach.of_rank (P := Free) (fun s => supRank s.sup) ?_ ⟨hl, hfed, hclear⟩
    intro s hfree
    cases hr : s.hasReturned with
    | true => exact Or.inl rfl
    | false => exact Or.inr (can_pass hfree hr)

/-- Ingest stores its flag, and the first compute attempt and publish are killed: the supervisor
still gets to its return. -/
theorem returns_after_kills :
    ∃ s, Reachable s ∧ s.sup = .waitCompute 1
      ∧ Transition.CanReach step calm (fun s' => s'.hasReturned = true) s := by
  have h : (Transition.exec step (start [] 1) (List.replicate 6 (Act.sup 7)
      ++ [Act.ingestMain, .source, .source, .frames] ++ List.replicate 3 Act.ingestMain
      ++ List.replicate 2 Act.computeMain ++ List.replicate 3 Act.fast
      ++ [Act.killCompute, .killPublish])).any
      (fun s => decide (s.sup = .waitCompute 1) && !s.starved && !s.jammed) = true := by
    decide +kernel
  obtain ⟨s, hrun, hs⟩ := Option.any_eq_true _ _ |>.mp h
  simp only [Bool.and_eq_true, decide_eq_true_eq, Bool.not_eq_true'] at hs
  obtain ⟨⟨hsup, hfed⟩, hclear⟩ := hs
  have hr : Reachable s :=
    Transition.Reachable.exec (fun _ _ => trivial) _ (.init ⟨_, _, rfl⟩) hrun
  exact ⟨s, hr, hsup, (returns_iff hr).mpr ⟨hfed, hclear⟩⟩

/-- Ingest is killed before its flag, with compute's threads started: the pipeline hangs. -/
theorem dead_ingest_hangs :
    ∃ s, Reachable s ∧ s.sup = .waitCompute 1
      ∧ ¬ Transition.CanReach step calm (fun s' => s'.hasReturned = true) s := by
  have h : (Transition.exec step (start [] 1) (List.replicate 6 (Act.sup 7)
      ++ List.replicate 2 Act.computeMain ++ [Act.killIngest])).any
      (fun s => decide (s.sup = .waitCompute 1) && s.starved) = true := by
    decide +kernel
  obtain ⟨s, hrun, hs⟩ := Option.any_eq_true _ _ |>.mp h
  simp only [Bool.and_eq_true, decide_eq_true_eq] at hs
  have hr : Reachable s :=
    Transition.Reachable.exec (fun _ _ => trivial) _ (.init ⟨_, _, rfl⟩) hrun
  exact ⟨s, hr, hs.1, never_returns (live_reachable hr) (Or.inl hs.2)⟩

end Pipeline

end RateHub
