import RateHub.Proof.HoldIdle
import RateHub.Proof.Result
import RateHub.Proof.RunMoves

/-!
# What the supervisor waits for and returns

`run_once_pipeline` waits for each child it has spawned and works the statuses into its
result; `run_supervisor` keeps the result of its last pipeline, waits for the observer and works
both into its own. So a process that has been forked never outlives the pipeline it belongs
to, nor the observer the supervisor, and an exit status of 0 says that all of the last pipeline's
stages and the observer ended with 0.
-/

namespace RateHub

namespace Pipeline

variable {s s' : Pipeline}

/-- The last attempt of compute is over, and `compute_ok` says how it ended. -/
def ComputeReports (s : Pipeline) (ok : Bool) : Prop :=
  ∃ status, s.compute.wait = some status ∧ (ok = true ↔ status = 0)

/-- What the supervisor has recorded of its children is what they ended with. -/
def Recorded (s : Pipeline) : Prop :=
  match s.sup with
  | .storeComputeExit _ status => s.compute.wait = some status
  | .storeShutdown ok => s.ComputeReports ok
  | .waitIngest ok => s.ComputeReports ok
  | .storeIngestExit ok ist => s.ComputeReports ok ∧ s.ingest.wait = some ist
  | .waitPublish ok ist => s.ComputeReports ok ∧ s.ingest.wait = some ist
  | .storePublishExit ok ist pst =>
      s.ComputeReports ok ∧ s.ingest.wait = some ist ∧ s.publish.wait = some pst
  | .returned code => ∃ ok ist pst, s.ComputeReports ok ∧ s.ingest.wait = some ist
      ∧ s.publish.wait = some pst ∧ code = pipelineResult ok ist pst
  | _ => True

/-- A child's end stays what it is. -/
structure KeepsEnds (s s' : Pipeline) : Prop where
  ingest : ∀ status, s.ingest.wait = some status → s'.ingest.wait = some status
  compute : ∀ status, s.compute.wait = some status → s'.compute.wait = some status
  publish : ∀ status, s.publish.wait = some status → s'.publish.wait = some status

theorem KeepsEnds.reports (h : KeepsEnds s s') {ok : Bool} (hr : s.ComputeReports ok) :
    s'.ComputeReports ok := by
  obtain ⟨status, hw, hok⟩ := hr
  exact ⟨status, h.compute status hw, hok⟩

/-- The supervisor stays where it is. -/
theorem Recorded.frame (h : s.Recorded) (hk : KeepsEnds s s') (hsup : s'.sup = s.sup) :
    s'.Recorded := by
  unfold Recorded at h ⊢
  rw [hsup]
  cases hpc : s.sup with
  | storeComputeExit n status =>
      simp only [hpc] at h ⊢
      exact hk.compute status h
  | storeShutdown ok =>
      simp only [hpc] at h ⊢
      exact hk.reports h
  | waitIngest ok =>
      simp only [hpc] at h ⊢
      exact hk.reports h
  | storeIngestExit ok ist =>
      simp only [hpc] at h ⊢
      exact ⟨hk.reports h.1, hk.ingest ist h.2⟩
  | waitPublish ok ist =>
      simp only [hpc] at h ⊢
      exact ⟨hk.reports h.1, hk.ingest ist h.2⟩
  | storePublishExit ok ist pst =>
      simp only [hpc] at h ⊢
      exact ⟨hk.reports h.1, hk.ingest ist h.2.1, hk.publish pst h.2.2⟩
  | returned code =>
      simp only [hpc] at h ⊢
      obtain ⟨ok, ist, pst, hc, hi, hp, hcode⟩ := h
      exact ⟨ok, ist, pst, hk.reports hc, hk.ingest ist hi, hk.publish pst hp, hcode⟩
  | _ => trivial

/-- A child that runs has no end to keep. -/
theorem wait_of_running {P : Type} {c : Child P} {p : P} (h : c = .running p) (status : UInt32) :
    c.wait ≠ some status := by
  rw [h]
  simp [Child.wait]

/-- The supervisor's next statement. -/
theorem recorded_store {l' : Layout} {pc' : SupPc} (h : s.Recorded)
    (hs : supStep s.layout s.sup = some (l', pc')) :
    Recorded { s with layout := l', sup := pc' } := by
  unfold Recorded at h
  cases hpc : s.sup with
  | storeComputeExit n status =>
      simp only [hpc, supStep, Option.some.injEq, Prod.mk.injEq] at hs h
      obtain ⟨_, rfl⟩ := hs
      unfold SupPc.afterCompute
      split
      · rename_i hz
        exact ⟨status, h, by simp [hz]⟩
      · rename_i hz
        split
        · exact ⟨status, h, by simp [hz]⟩
        · trivial
  | storeShutdown ok =>
      simp only [hpc, supStep, Option.some.injEq, Prod.mk.injEq] at hs h
      obtain ⟨_, rfl⟩ := hs
      exact h
  | storeIngestExit ok ist =>
      simp only [hpc, supStep, Option.some.injEq, Prod.mk.injEq] at hs h
      obtain ⟨_, rfl⟩ := hs
      exact h
  | storePublishExit ok ist pst =>
      simp only [hpc, supStep, Option.some.injEq, Prod.mk.injEq] at hs h
      obtain ⟨_, rfl⟩ := hs
      exact ⟨ok, ist, pst, h.1, h.2.1, h.2.2, rfl⟩
  | _ =>
      simp only [hpc, supStep, Option.some.injEq, Prod.mk.injEq, reduceCtorEq] at hs
      all_goals
        obtain ⟨_, rfl⟩ := hs
        trivial

theorem recorded_step {a : Act} (h : s.Recorded) (hs : s.step a = some s') : s'.Recorded := by
  have hself : ∀ {P : Type} {c : Child P}, ∀ status, c.wait = some status → c.wait = some status :=
    fun _ hw => hw
  cases move_of_step hs with
  | tick hle => exact h.frame ⟨hself, hself, hself⟩ rfl
  | spawnIngest hsup => trivial
  | noIngest hsup => trivial
  | spawnPublish hsup => trivial
  | noPublish hsup => trivial
  | spawnCompute hsup => trivial
  | noCompute hsup => trivial
  | rerun hsup => trivial
  | reapCompute hsup hw => exact hw
  | reapIngest hsup hw =>
      unfold Recorded at h
      rw [hsup] at h
      exact ⟨h, hw⟩
  | reapPublish hsup hw =>
      unfold Recorded at h
      rw [hsup] at h
      exact ⟨h.1, h.2, hw⟩
  | store hst => exact recorded_store h hst
  | source hp | frames hp | ingestAttach hp | ingestMain hp | ingestExit hp | ingestRefused hp
  | killIngest hp =>
      exact h.frame ⟨fun st hw => absurd hw (wait_of_running hp st), hself, hself⟩ rfl
  | fast hp | window hp | snapshot hp | handOver hp | watchdog hp | computeMain hp | computeExit hp
  | computeCrash hp | computeRefused hp | killCompute hp =>
      exact h.frame ⟨hself, fun st hw => absurd hw (wait_of_running hp st), hself⟩ rfl
  | publish hp | publishOpen hp | publishWrite hp | publishExit hp | publishRefused hp | openFails hp
  | killPublish hp =>
      exact h.frame ⟨hself, hself, fun st hw => absurd hw (wait_of_running hp st)⟩ rfl

/-- After its return no child of a pipeline runs. -/
theorem Recorded.nobody (h : s.Recorded) {code : UInt32} (hsup : s.sup = .returned code) :
    (∀ p, s.ingest ≠ .running p) ∧ (∀ p, s.compute ≠ .running p)
      ∧ ∀ p, s.publish ≠ .running p := by
  unfold Recorded at h
  rw [hsup] at h
  obtain ⟨ok, ist, pst, ⟨cst, hc, _⟩, hi, hp, _⟩ := h
  exact ⟨fun p hrun => wait_of_running hrun ist hi, fun p hrun => wait_of_running hrun cst hc,
    fun p hrun => wait_of_running hrun pst hp⟩

/-- The result of a pipeline. -/
theorem Recorded.code (h : s.Recorded) {code : UInt32} (hsup : s.sup = .returned code) :
    code = 0 ↔ s.compute.wait = some 0 ∧ s.ingest.wait = some 0 ∧ s.publish.wait = some 0 := by
  unfold Recorded at h
  rw [hsup] at h
  obtain ⟨ok, ist, pst, ⟨cst, hc, hok⟩, hi, hp, rfl⟩ := h
  rw [hc, hi, hp]
  cases ok with
  | false =>
      have hne : cst ≠ 0 := fun hz => by simpa using hok.mpr hz
      simp [pipelineResult, hne]
  | true =>
      have hz : cst = 0 := hok.mp rfl
      by_cases h1 : ist = 0 <;> by_cases h2 : pst = 0 <;> simp [pipelineResult, hz, h1, h2]

end Pipeline

/-! ## The outer loop -/

/-- A pipeline has returned, and the next one has not begun. -/
def RunPc.pastPipeline : RunPc → Bool
  | .release => true
  | .waitObserve => true
  | .returned _ => true
  | pc => pc.afterPipeline

namespace RunSupervisor

variable {s s' : RunSupervisor} {code : UInt32}

/-- What `run_supervisor` works into its own result. -/
def ObserveReports (s : RunSupervisor) (code : UInt32) : Prop :=
  (s.unobserved = true ∧ code = if s.lastStatus ≠ 0 then 1 else 0)
    ∨ (s.unobserved = false ∧ ∃ status, s.observe.wait = some status
      ∧ code = if s.lastStatus ≠ 0 ∨ status ≠ 0 then 1 else 0)

/-- The record of the pipeline, and its result in `last_status`. -/
structure Answers (s : RunSupervisor) : Prop where
  recorded : s.pipeline.Recorded
  last : s.pc.pastPipeline = true → s.pipeline.sup = .returned s.lastStatus
  waits : s.pc = .waitObserve → s.unobserved = false
  returned : ∀ code, s.pc = .returned code → s.ObserveReports code

/-- Before the return of a pipeline there is nothing else to say. -/
theorem Answers.before (hrec : s.pipeline.Recorded) (hpc : s.pc.pastPipeline = false) :
    Answers s := by
  refine ⟨hrec, ?_, ?_, ?_⟩
  · intro hpast
    rw [hpc] at hpast
    cases hpast
  · intro hw
    rw [hw] at hpc
    cases hpc
  · intro code hc
    rw [hc] at hpc
    cases hpc

theorem answers_start (replay : List UInt8) (clock : UInt64) (observed paced : Bool) :
    Answers (start replay clock observed paced) := by
  refine .before trivial ?_
  unfold start
  cases observed <;> rfl

/-- A step of the supervisor from the return of a pipeline on, short of waiting for the observer. -/
theorem Answers.move (h : Answers s) (hrec : s'.pipeline.Recorded)
    (hpc : s.pc.pastPipeline = true) (hsup : s'.pipeline.sup = s.pipeline.sup)
    (hlast : s'.lastStatus = s.lastStatus) (hnot : s'.pc ≠ .waitObserve)
    (hnot' : ∀ code, s'.pc ≠ .returned code) : Answers s' := by
  refine ⟨hrec, ?_, fun hw => absurd hw hnot, fun code hc => absurd hc (hnot' code)⟩
  intro _
  rw [hsup, hlast]
  exact h.last hpc

/-- **One step of the supervisor and its children.** -/
theorem answers_step {a : RunAct} (h : Answers s) (hs : s.step a = some s') : Answers s' := by
  have hrec := h.recorded
  cases runMove_of_step hs with
  | @pipe a p hr hin hp =>
      refine ⟨Pipeline.recorded_step hrec hp, ?_, h.waits, h.returned⟩
      intro hpast
      have hpast' : s.pc.pastPipeline = true := hpast
      have hout : inside a = false := by
        by_contra hne
        rw [hin (by simpa using hne)] at hpast'
        cases hpast'
      show p.sup = _
      rw [Pipeline.step_sup hp hout hr]
      exact h.last hpast'
  | returns hpc hsup =>
      refine ⟨hrec, fun _ => hsup, ?_, ?_⟩
      · intro hw
        cases hw
      · intro code hc
        cases hc
  | reset hpc hp => exact .before (Pipeline.recorded_step hrec hp) rfl
  | killed hsig => exact .before hrec rfl
  | handled hsig => exact ⟨hrec, h.last, h.waits, h.returned⟩
  | request ho => exact ⟨hrec, h.last, h.waits, h.returned⟩
  | observeEnds ho =>
      refine ⟨hrec, h.last, fun _ => rfl, ?_⟩
      intro code hc
      -- the observer that was waited for does not end again
      rcases h.returned code hc with ⟨hun, _⟩ | ⟨_, status, hw, _⟩
      · simp [unobserved, ho] at hun
      · simp [ho, Child.wait] at hw
  | spawnObserve hpc => exact .before hrec rfl
  | noObserve hpc => exact .before hrec rfl
  | storeObservePid hpc => exact .before hrec rfl
  | alone hpc hobs =>
      refine ⟨hrec, fun _ => h.last (by rw [hpc]; rfl), ?_, ?_⟩
      · intro hw
        cases hw
      · intro code hc
        exact .inl ⟨hobs, (RunPc.returned.inj hc).symm⟩
  | release hpc hobs =>
      refine ⟨hrec, fun _ => h.last (by rw [hpc]; rfl), fun _ => hobs, ?_⟩
      intro code hc
      cases hc
  | @waitObserve pid status hpc hw =>
      refine ⟨hrec, fun _ => h.last (by rw [hpc]; rfl), ?_, ?_⟩
      · intro hw
        cases hw
      · intro code hc
        exact .inr ⟨h.waits hpc, status, hw, (RunPc.returned.inj hc).symm⟩
  | _ hpc => exact h.move hrec (by rw [hpc]; rfl) rfl rfl (by simp) (by simp)

theorem answers_reachable (h : Reachable s) : Answers s := by
  refine h.invariant ?_ fun _ _ _ hi _ hs => answers_step hi hs
  rintro s ⟨replay, clock, observed, paced, rfl⟩
  exact answers_start replay clock observed paced

/--
**Nobody is left behind, and the exit status is the truth.**

In every run of `run_supervisor`, with any reruns, spawns that fail, children that end
anyhow and signals at any time: from the return of a pipeline up to the reset for the next, or to
the end, none of its processes runs; and when `run_supervisor` returns, the observer does
not run either, and what is returned is 0 if compute's last attempt, ingest, publish and
the observer, should there be one, have all ended with 0, and 1 otherwise.
-/
theorem exit_status_true (h : Reachable s) :
    (s.pc.pastPipeline = true →
      (∀ p, s.pipeline.ingest ≠ .running p) ∧ (∀ p, s.pipeline.compute ≠ .running p)
        ∧ ∀ p, s.pipeline.publish ≠ .running p)
    ∧ ∀ code, s.pc = .returned code →
        s.observe ≠ .running ()
          ∧ code = if s.pipeline.compute.wait = some 0 ∧ s.pipeline.ingest.wait = some 0
              ∧ s.pipeline.publish.wait = some 0
              ∧ (s.unobserved = true ∨ s.observe.wait = some 0) then 0 else 1 := by
  have hi := answers_reachable h
  refine ⟨fun hpast => hi.recorded.nobody (hi.last hpast), ?_⟩
  intro code hpc
  have hlast := hi.recorded.code (hi.last (by rw [hpc]; rfl))
  rcases hi.returned code hpc with ⟨hun, hcode⟩ | ⟨hun, status, hw, hcode⟩
  · refine ⟨?_, ?_⟩
    · intro hrun
      simp [unobserved, hrun] at hun
    · rw [hcode, ite_not]
      simp only [hun, true_or, and_true, ← hlast]
  · refine ⟨?_, ?_⟩
    · intro hrun
      exact Pipeline.wait_of_running hrun status hw
    · rw [hcode, hw]
      simp only [hun, Bool.false_eq_true, false_or, Option.some.injEq, ← and_assoc]
      simp only [and_assoc, ← hlast]
      by_cases h1 : s.lastStatus = 0 <;> by_cases h2 : status = 0 <;> simp [h1, h2]

/-- A run without an observer, in which all goes well. -/
theorem exit_status_true_success :
    ∃ s, Reachable s ∧ s.pc = .returned 0 ∧ s.observe ≠ .running ()
      ∧ ∀ p, s.pipeline.publish ≠ .running p := by
  have h : (Transition.exec step (start [] 1 false false)
      ((Pipeline.computeEnds ++ List.replicate 75 Act.publish
        ++ List.replicate 7 (Act.sup 7)).map .pipe ++ List.replicate 3 (.main 0))).any
      (fun s => decide (s.pc = .returned 0)) = true := by
    decide +kernel
  obtain ⟨s, hrun, hs⟩ := Option.any_eq_true _ _ |>.mp h
  simp only [decide_eq_true_eq] at hs
  have hr : Reachable s :=
    Transition.Reachable.exec (fun _ _ => trivial) _ (.init ⟨_, _, _, _, rfl⟩) hrun
  obtain ⟨hnobody, hstatus⟩ := exit_status_true hr
  exact ⟨s, hr, hs, (hstatus 0 hs).1, (hnobody (by rw [hs]; rfl)).2.2⟩

end RunSupervisor

end RateHub
