import RateHub.Proof.IngestMoves
import RateHub.Proof.Ranks
import RateHub.Proof.System

/-!
# A compute attempt can finish

The ranks, carried over to the system. `Fin A` says that a compute process is running
with its threads started and that ingest has stored its flag; `A` is what is remembered
about the threads that are not being run. Running one thread to its end turns a
`Fin A` into a `Fin` that also remembers that this thread is done, and the next thread
waits for exactly that. The last lemma joins them all and ends the process.
-/

namespace RateHub

/-! ## Calls in progress -/

/-- Inside `consume`, the call is at one of its accesses. -/
def PublishPc.engaged : PublishPc → Prop
  | .consume call => call ≠ .idle
  | _ => True

theorem Publish.step_engaged {l l' : Layout} {p p' : Publish} (he : p.pc.engaged)
    (hs : p.step l = some (l', p')) : p'.pc.engaged := by
  have hleave : p.leave.pc.engaged := by
    unfold Publish.leave
    split <;> trivial
  unfold Publish.step at hs
  cases hpc : p.pc with
  | consume call =>
      rw [hpc] at he
      simp only [hpc] at hs
      split at hs <;> rename_i hr <;> simp only [Option.some.injEq, Prod.mk.injEq] at hs <;>
        obtain ⟨rfl, rfl⟩ := hs
      · cases call with
        | idle => exact absurd rfl he
        | loadFresh =>
            simp only [TripleBuffer.consumeStep] at hr
            split at hr <;> simp only [Prod.mk.injEq] at hr
            · cases hr.2.2
            · rw [← hr.2.1]
              simp [PublishPc.engaged]
        | _ =>
            simp only [TripleBuffer.consumeStep, Prod.mk.injEq, reduceCtorEq, and_false] at hr
            all_goals
              rw [← hr.2.1]
              simp [PublishPc.engaged]
      · trivial
      · trivial
  | _ =>
      simp only [hpc] at hs
      (try split at hs) <;> try simp only [Option.some.injEq, Prod.mk.injEq, reduceCtorEq] at hs
      all_goals
        obtain ⟨rfl, rfl⟩ := hs
        first
        | exact hleave
        | simp [PublishPc.engaged]

namespace Pipeline

/-- Every thread that is inside a call is at one of the call's accesses. -/
structure Engaged (s : Pipeline) : Prop where
  compute : ∀ p, s.compute = .running p →
    p.fast.pc.engaged ∧ p.window.pc.engaged ∧ p.snapshot.pc.engaged
  frames : ∀ p, s.ingest = .running p → p.frames.engaged
  publish : ∀ p, s.publish = .running p → p.pc.engaged

theorem engaged_start (replay : List UInt8) (clock : UInt64) : Engaged (start replay clock) where
  compute := by intro p hp; cases hp
  frames := by intro p hp; cases hp
  publish := by intro p hp; cases hp

theorem Engaged.withIngest {s : Pipeline} (h : Engaged s) {p' : Ingest} {l' : Layout}
    (he : p'.frames.engaged) : Engaged (s.withIngest (l', p')) := by
  refine ⟨h.compute, ?_, h.publish⟩
  intro q hq
  obtain rfl := Child.running.inj hq
  exact he

theorem Engaged.withCompute {s : Pipeline} (h : Engaged s) {p' : Compute} {l' : Layout}
    (he : p'.fast.pc.engaged ∧ p'.window.pc.engaged ∧ p'.snapshot.pc.engaged) :
    Engaged (s.withCompute (l', p')) := by
  refine ⟨?_, h.frames, h.publish⟩
  intro q hq
  obtain rfl := Child.running.inj hq
  exact he

theorem Engaged.withPublish {s : Pipeline} (h : Engaged s) {p' : Publish} {l' : Layout}
    (he : p'.pc.engaged) : Engaged (s.withPublish (l', p')) := by
  refine ⟨h.compute, h.frames, ?_⟩
  intro q hq
  obtain rfl := Child.running.inj hq
  exact he

/-- Children that have no calls in progress. -/
theorem Engaged.of_children {s s' : Pipeline} (h : Engaged s)
    (hc : ∀ p, s'.compute = .running p → s.compute = .running p ∨ p = Compute.init)
    (hi : ∀ p, s'.ingest = .running p → s.ingest = .running p ∨ ∃ r, p = Ingest.init r)
    (hp : ∀ p, s'.publish = .running p → s.publish = .running p ∨ p = Publish.init) :
    Engaged s' := by
  refine ⟨?_, ?_, ?_⟩
  · intro p hp'
    rcases hc p hp' with hold | rfl
    · exact h.compute p hold
    · exact ⟨trivial, trivial, trivial⟩
  · intro p hp'
    rcases hi p hp' with hold | ⟨r, rfl⟩
    · exact h.frames p hold
    · trivial
  · intro p hp'
    rcases hp p hp' with hold | rfl
    · exact h.publish p hold
    · trivial

theorem engaged_step {s s' : Pipeline} {a : Act} (h : Engaged s) (hs : s.step a = some s') :
    Engaged s' := by
  cases move_of_step hs with
  | source hp hm hst =>
      have hf := h.frames _ hp
      simp only [Ingest.stepSource, Option.map_eq_some_iff, Prod.mk.injEq] at hst
      obtain ⟨_, _, _, rfl⟩ := hst
      exact h.withIngest hf
  | frames hp hm hst =>
      have hf := h.frames _ hp
      exact h.withIngest ((Ingest.framesMove hst).engaged hf)
  | ingestAttach hp hm =>
      have hf := h.frames _ hp
      exact h.withIngest hf
  | ingestMain hp hst =>
      have hf := h.frames _ hp
      simp only [Ingest.stepMain, Option.map_eq_some_iff, Prod.mk.injEq] at hst
      obtain ⟨_, _, _, rfl⟩ := hst
      exact h.withIngest hf
  | fast hp ha hst =>
      obtain ⟨hf, hw, hsn⟩ := h.compute _ hp
      exact h.withCompute ⟨fastStep_engaged hf hst, hw, hsn⟩
  | window hp ha hst =>
      obtain ⟨hf, hw, hsn⟩ := h.compute _ hp
      exact h.withCompute ⟨hf, windowStep_engaged hw hst, hsn⟩
  | snapshot hp ha hpc hst =>
      obtain ⟨hf, hw, hsn⟩ := h.compute _ hp
      exact h.withCompute ⟨hf, hw, snapshotStep_engaged hsn hst⟩
  | handOver hp ha hpc hst =>
      obtain ⟨hf, hw, hsn⟩ := h.compute _ hp
      have hsn' := snapshotStep_engaged hsn hst
      refine ⟨?_, h.frames, h.publish⟩
      intro q hq
      obtain rfl := Child.running.inj hq
      exact ⟨hf, hw, hsn'⟩
  | watchdog hp ha hst =>
      have hc := h.compute _ hp
      exact h.withCompute hc
  | computeMain hp hst =>
      have hc := h.compute _ hp
      exact h.withCompute hc
  | publish hp hw hst =>
      have hpub := h.publish _ hp
      exact h.withPublish (Publish.step_engaged hpub hst)
  | publishOpen hp hc =>
      refine ⟨h.compute, h.frames, ?_⟩
      intro q hq
      obtain rfl := Child.running.inj hq
      trivial
  | publishWrite hp hw =>
      refine ⟨h.compute, h.frames, ?_⟩
      intro q hq
      obtain rfl := Child.running.inj hq
      trivial
  | openFails hp hc =>
      refine ⟨h.compute, h.frames, ?_⟩
      intro q hq
      obtain rfl := Child.running.inj hq
      trivial
  | spawnIngest hsup =>
      refine h.of_children (fun p hp => Or.inl hp) ?_ (fun p hp => Or.inl hp)
      intro p hp
      exact Or.inr ⟨_, (Child.running.inj hp).symm⟩
  | spawnPublish hsup =>
      refine h.of_children (fun p hp => Or.inl hp) (fun p hp => Or.inl hp) ?_
      intro p hp
      exact Or.inr (Child.running.inj hp).symm
  | spawnCompute hsup =>
      refine h.of_children ?_ (fun p hp => Or.inl hp) (fun p hp => Or.inl hp)
      intro p hp
      exact Or.inr (Child.running.inj hp).symm
  | _ =>
      -- the rest leaves the running children as they are, or ends one
      refine h.of_children ?_ ?_ ?_ <;> intro p hp <;> first
        | exact Or.inl hp
        | cases hp

theorem engaged_reachable {ok : Pipeline → Act → Prop} {s : Pipeline}
    (h : Transition.Reachable step ok Start s) : Engaged s := by
  refine Transition.Reachable.invariant ?_ (fun _ _ _ hi _ hs => engaged_step hi hs) h
  rintro _ ⟨replay, clock, rfl⟩
  exact engaged_start replay clock

end Pipeline

/-! ## The stages of compute, in order -/

/-- The three threads that pass the data on. -/
inductive Stage where
  | fast
  | window
  | snapshot
  deriving DecidableEq, Repr

/-- The label of a stage's steps. -/
def Stage.act : Stage → Act
  | .fast => .fast
  | .window => .window
  | .snapshot => .snapshot

/-- A stage's thread has returned. -/
def Compute.finished (p : Compute) : Stage → Bool
  | .fast => p.fast.pc.isDone
  | .window => p.window.pc.isDone
  | .snapshot => p.snapshot.pc.isDone

/-- The stage whose flag a stage waits for; the fast thread waits for ingest. -/
def Stage.upstream : Stage → Option Stage
  | .fast => none
  | .window => some .fast
  | .snapshot => some .window

/-- How far a stage is from its end. -/
def Stage.rank (X : Stage) (l : Layout) (p : Compute) : Nat :=
  match X with
  | .fast => p.fast.rank l.ring
  | .window => p.window.pc.rank
  | .snapshot => p.snapshot.pc.rank

/-- How many statements `run_compute` has left. -/
def ComputeMainPc.rank : ComputeMainPc → Nat
  | .exit _ => 0
  | .loadFault => 1
  | .storeDone => 2
  | .joinWatchdog => 3
  | .joinSnapshot => 4
  | .joinWindow => 5
  | .joinFast => 6
  | .attach => 7
  | .crash => 8

/-- What a step of one stage leaves alone in the process. -/
structure StageStep (X : Stage) (l l' : Layout) (p p' : Compute) : Prop where
  main : p'.main = p.main
  others : ∀ Y, Y ≠ X → p'.finished Y = p.finished Y
  closer : X.rank l' p' < X.rank l p
  ingestDone : l'.control.ingestDone = l.control.ingestDone

namespace Pipeline

/-- Compute is running with its threads started, the stages in `S` are finished and
ingest has stored its flag. -/
structure Draining (S : Stage → Prop) (s : Pipeline) : Prop where
  sound : Sound s
  engaged : Engaged s
  ingestDone : s.layout.control.ingestDone ≠ 0
  running : ∃ p, s.compute = .running p ∧ p.attached = true ∧ ∀ X, S X → p.finished X = true

/-- A stage that has its upstream flag can move, and comes closer to its end. -/
theorem stage_step {s : Pipeline} {p : Compute} (X : Stage) (hsound : Sound s) (heng : Engaged s)
    (hi : s.layout.control.ingestDone ≠ 0) (hp : s.compute = .running p) (ha : p.attached = true)
    (hup : ∀ Y, X.upstream = some Y → p.finished Y = true) (hnd : p.finished X = false) :
    ∃ s' p', s.step X.act = some s' ∧ s'.compute = .running p'
      ∧ StageStep X s.layout s'.layout p p' := by
  have hstages := hsound.stages p hp
  obtain ⟨hef, hew, hes⟩ := heng.compute p hp
  cases X with
  | fast =>
      have hcalls := hsound.calls
      rw [popCall_running hp] at hcalls
      obtain ⟨l', t', hst, hlt⟩ := fastStep_progress s.clock hi hcalls hnd hef
      refine ⟨s.withCompute (l', { p with fast := t' }), _, ?_, rfl, rfl, ?_, hlt, ?_⟩
      · simp [step, Stage.act, stepCompute, hp, Compute.stepFast, ha, hst]
      · intro Y hY
        cases Y with
        | fast => exact absurd rfl hY
        | _ => rfl
      · obtain ⟨hb, hc, ov, fd, r, la, rfl⟩ := fastStep_layout hst
        rfl
  | window =>
      have hflag := hstages.fastDone (hup .fast rfl)
      obtain ⟨l', t', hst, hlt⟩ := windowStep_progress s.clock hflag hnd hew
      refine ⟨s.withCompute (l', { p with window := t' }), _, ?_, rfl, rfl, ?_, hlt, ?_⟩
      · simp [step, Stage.act, stepCompute, hp, Compute.stepWindow, ha, hst]
      · intro Y hY
        cases Y with
        | window => exact absurd rfl hY
        | _ => rfl
      · obtain ⟨hb, ov, wd, wi, rfl⟩ := windowStep_layout hst
        rfl
  | snapshot =>
      have hflag := hstages.windowDone (hup .window rfl)
      obtain ⟨l', t', hst, hlt⟩ := snapshotStep_progress s.clock hflag hnd hes
      have hothers : ∀ Y, Y ≠ Stage.snapshot →
          ({ p with snapshot := t' } : Compute).finished Y = p.finished Y := by
        intro Y hY
        cases Y with
        | snapshot => exact absurd rfl hY
        | _ => rfl
      have hkeep : l'.control.ingestDone = s.layout.control.ingestDone := by
        obtain ⟨hb, ov, sd, b, rfl⟩ := snapshotStep_layout hst
        rfl
      -- the exchange also hands the snapshot over, which changes the history only
      by_cases hx : p.snapshot.pc = .publish .exchange
      · refine ⟨(s.withCompute (l', { p with snapshot := t' })).hand p.snapshot.snap, _, ?_, rfl,
          rfl, hothers, hlt, hkeep⟩
        simp [step, Stage.act, stepSnapshot, hp, hx, Compute.stepSnapshot, ha, hst]
      · refine ⟨s.withCompute (l', { p with snapshot := t' }), _, ?_, rfl, rfl, hothers, hlt,
          hkeep⟩
        simp [step, Stage.act, stepSnapshot, hp, Compute.stepSnapshot, ha, hst]

/-- The rank of a stage in the system. -/
def stageRank (X : Stage) (s : Pipeline) : Nat :=
  match s.compute with
  | .running p => X.rank s.layout p
  | _ => 0

variable {may : Act → Prop} {S : Stage → Prop} {s : Pipeline}

/-- **A stage can be run to its end**, once what is upstream of it is finished. -/
theorem Draining.stage (X : Stage) (hmay : may X.act ∨ S X)
    (hup : ∀ Y, X.upstream = some Y → S Y) (h : Draining S s) :
    Transition.CanReach step may (Draining fun Y => S Y ∨ Y = X) s := by
  refine Transition.CanReach.of_rank_step (stageRank X) ?_ h
  intro s h
  obtain ⟨p, hp, ha, hS⟩ := h.running
  by_cases hfin : p.finished X = true
  · -- nothing left to run
    left
    refine ⟨h.sound, h.engaged, h.ingestDone, p, hp, ha, ?_⟩
    rintro Y (hY | rfl)
    · exact hS Y hY
    · exact hfin
  · right
    rcases hmay with hmay | hX
    · obtain ⟨s', p', hst, hp', hstep⟩ := stage_step X h.sound h.engaged h.ingestDone hp ha
        (fun Y hY => hS Y (hup Y hY)) (by simpa using hfin)
      refine ⟨X.act, s', hmay, hst, ?_, ?_⟩
      · refine ⟨sound_step h.sound hst, engaged_step h.engaged hst, ?_, p', hp', ?_, ?_⟩
        · rw [hstep.ingestDone]
          exact h.ingestDone
        · simpa [Compute.attached, hstep.main] using ha
        · intro Y hY
          -- `X` was not among the finished ones, and the others have not moved
          by_cases hYX : Y = X
          · exact absurd (hS Y hY) (hYX ▸ hfin)
          · rw [hstep.others Y hYX]
            exact hS Y hY
      · simpa [stageRank, hp, hp'] using hstep.closer
    · exact absurd (hS X hX) hfin

/-- All three stages can be run to their ends, one after the other. -/
theorem Draining.stages (hmay : ∀ X, may X.act ∨ S X) (h : Draining S s) :
    Transition.CanReach step may (Draining fun _ => True) s := by
  refine (h.stage .fast (hmay .fast) (by intro Y hY; cases hY)).trans fun s₁ h₁ => ?_
  refine (h₁.stage .window ((hmay .window).imp_right Or.inl) ?_).trans fun s₂ h₂ => ?_
  · rintro Y hY
    exact Or.inr (Option.some.inj hY).symm
  refine (h₂.stage .snapshot ((hmay .snapshot).imp_right (Or.inl ∘ Or.inl)) ?_).imp fun s₃ h₃ => ?_
  · rintro Y hY
    exact Or.inr (Option.some.inj hY).symm
  · obtain ⟨p, hp, ha, hS⟩ := h₃.running
    refine ⟨h₃.sound, h₃.engaged, h₃.ingestDone, p, hp, ha, fun X _ => hS X ?_⟩
    cases X with
    | fast => exact Or.inl (Or.inl (Or.inr rfl))
    | window => exact Or.inl (Or.inr rfl)
    | snapshot => exact Or.inr rfl

/-! ## The last joins -/

/-- The status `run_compute` ends with. -/
def exitCode (l : Layout) : UInt32 := if l.control.fault ≠ 0 then 3 else 0

/-- With every thread done, each of `run_compute`'s statements goes through. -/
theorem computeMainStep_progress (l : Layout) {p : Compute} (hall : ∀ X, p.finished X = true)
    (hwd : p.watchdog = .done) (ha : p.attached = true) :
    ∃ l' pc', computeMainStep l p = some (l', pc') ∧ pc'.rank < p.main.rank
      ∧ (pc' = .exit (exitCode l) ∨ ({ p with main := pc' } : Compute).attached = true)
      ∧ l'.control.ingestDone = l.control.ingestDone := by
  have hf : p.fast.pc.isDone = true := hall .fast
  have hw : p.window.pc.isDone = true := hall .window
  have hs : p.snapshot.pc.isDone = true := hall .snapshot
  unfold computeMainStep
  cases hm : p.main with
  | crash => simp [Compute.attached, hm] at ha
  | attach => simp [Compute.attached, hm] at ha
  | exit c => simp [Compute.attached, hm] at ha
  | joinFast => exact ⟨_, _, if_pos hf, Nat.lt_succ_self _, Or.inr rfl, rfl⟩
  | joinWindow => exact ⟨_, _, if_pos hw, Nat.lt_succ_self _, Or.inr rfl, rfl⟩
  | joinSnapshot => exact ⟨_, _, if_pos hs, Nat.lt_succ_self _, Or.inr rfl, rfl⟩
  | joinWatchdog => exact ⟨_, _, if_pos hwd, Nat.lt_succ_self _, Or.inr rfl, rfl⟩
  | storeDone => exact ⟨_, _, rfl, Nat.lt_succ_self _, Or.inr rfl, rfl⟩
  | loadFault => exact ⟨_, _, rfl, Nat.lt_succ_self _, Or.inl rfl, rfl⟩

/-- What the watchdog and the main thread have left. -/
def joinRank (s : Pipeline) : Nat :=
  match s.compute with
  | .running p => p.watchdog.rank + p.main.rank
  | _ => 0

/-- **A drained compute can end.** -/
theorem Draining.ends (hwd : may .watchdog) (hmain : may .computeMain)
    (h : Draining (fun _ => True) s) :
    Transition.CanReach step may (fun s' => s'.compute = .ended (.exited (exitCode s'.layout))) s := by
  have hjoin : Transition.CanReach step may
      (fun s' => ∃ p, s'.compute = .running p ∧ p.main = .exit (exitCode s'.layout)) s := by
    refine Transition.CanReach.of_rank_step joinRank (P := fun s' => Draining (fun _ => True) s'
      ∨ ∃ p, s'.compute = .running p ∧ p.main = .exit (exitCode s'.layout)) ?_ (Or.inl h)
    rintro s (h | hexit)
    · right
      obtain ⟨p, hp, ha, hall⟩ := h.running
      have hall := fun X => hall X trivial
      -- the watchdog first, then every join goes through
      by_cases hdone : p.watchdog = .done
      · obtain ⟨l', pc', hst, hlt, hnext, hkeep⟩ := computeMainStep_progress s.layout hall hdone ha
        have hs : s.step .computeMain = some (s.withCompute (l', { p with main := pc' })) := by
          simp only [step, stepComputeMain, hp]
          split
          · rename_i c hc
            simp [Compute.attached, hc] at ha
          · simp [Compute.stepMain, hst]
        refine ⟨.computeMain, _, hmain, hs, ?_, ?_⟩
        · rcases hnext with hexit | hatt
          · right
            obtain ⟨cd, rfl⟩ := computeMainStep_layout hst
            exact ⟨_, rfl, hexit⟩
          · left
            refine ⟨sound_step h.sound hs, engaged_step h.engaged hs, ?_, _, rfl, hatt, ?_⟩
            · show l'.control.ingestDone ≠ 0
              rw [hkeep]
              exact h.ingestDone
            · exact fun X _ => hall X
        · simp only [joinRank, hp, withCompute]
          omega
      · have hflag := (h.sound.stages p hp).snapshotDone (hall .snapshot)
        obtain ⟨l', pc', hst, hlt⟩ := watchdogStep_progress s.clock hflag hdone
        have hs : s.step .watchdog = some (s.withCompute (l', { p with watchdog := pc' })) := by
          simp [step, stepCompute, hp, Compute.stepWatchdog, ha, hst]
        refine ⟨.watchdog, _, hwd, hs, Or.inl ?_, ?_⟩
        · refine ⟨sound_step h.sound hs, engaged_step h.engaged hs, ?_, _, rfl, ha, ?_⟩
          · obtain ⟨f, rfl⟩ := watchdogStep_layout hst
            exact h.ingestDone
          · exact fun X _ => hall X
        · simp only [joinRank, hp, withCompute]
          omega
    · exact Or.inl hexit
  refine hjoin.trans ?_
  rintro s' ⟨p, hp, hm⟩
  have hs : s'.step .computeMain
      = some { s' with compute := .ended (.exited (exitCode s'.layout)) } := by
    simp [step, stepComputeMain, hp, hm]
  exact .step hmain hs (.here rfl)

/-- A main thread that has not started its threads can do so. -/
theorem can_attach {p : Compute} (hmain : may .computeMain) (hp : s.compute = .running p)
    (hm : p.main = .crash ∨ p.main = .attach) :
    Transition.CanReach step may
      (fun s' => s' = s.withCompute (s.layout, { p with main := .joinFast })) s := by
  have hattach : ∀ s' : Pipeline, s' = s.withCompute (s.layout, { p with main := .attach }) →
      Transition.CanReach step may
        (fun s' => s' = s.withCompute (s.layout, { p with main := .joinFast })) s' := by
    rintro _ rfl
    have hs : (s.withCompute (s.layout, { p with main := .attach })).step .computeMain
        = some (s.withCompute (s.layout, { p with main := .joinFast })) := by
      simp [step, stepComputeMain, withCompute, Compute.stepMain, computeMainStep]
    exact .step hmain hs (.here rfl)
  rcases hm with hm | hm
  · have hs : s.step .computeMain
        = some (s.withCompute (s.layout, { p with main := .attach })) := by
      simp [step, stepComputeMain, hp, hm, Compute.stepMain, computeMainStep]
    exact .step hmain hs (hattach _ rfl)
  · refine hattach s ?_
    simp only [withCompute, ← hm, ← hp]

end Pipeline

end RateHub
