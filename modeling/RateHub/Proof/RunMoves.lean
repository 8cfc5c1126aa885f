import RateHub.RunSupervisor

/-!
# Everything the outer loop can do

As for the pipeline: `RunMove s a s'` lists the ways a step of the supervisor with its
pipeline, its observer and the signals can come about, each with what the step knew.
-/

namespace RateHub

namespace RunSupervisor

/-- The ways a step can come about. -/
inductive RunMove (s : RunSupervisor) : RunAct → RunSupervisor → Prop
  | pipe {a : Act} {p : Pipeline} (hr : a ≠ .rerun) (hin : inside a = true → s.pc = .pipeline)
      (h : s.pipeline.step a = some p) : RunMove s (.pipe a) { s with pipeline := p }
  -- before the first pipeline
  | spawnObserve {pid : UInt32} (hpc : s.pc = .spawnObserve) :
      RunMove s (.main pid) { s with pc := .storeObservePid (some pid), observe := .running () }
  | noObserve (hpc : s.pc = .spawnObserve) :
      RunMove s .observeFails { s with pc := .storeObservePid none, observe := .failed }
  | storeObservePid {pid : UInt32} {p : Option UInt32} (hpc : s.pc = .storeObservePid p) :
      RunMove s (.main pid)
        { s.withSupervisorState { s.pipeline.layout.supervisor with
            observePid := storePid s.pipeline.layout.supervisor.observePid p } with
          pc := .pipeline }
  -- from the return of a pipeline into the hold
  | returns {pid code : UInt32} (hpc : s.pc = .pipeline) (hsup : s.pipeline.sup = .returned code) :
      RunMove s (.main pid) { s with pc := .testHold, lastStatus := code }
  | noHold {pid : UInt32} (hpc : s.pc = .testHold) (hno : (s.unobserved || !s.paced) = true) :
      RunMove s (.main pid) { s with pc := .release }
  | toHold {pid : UInt32} (hpc : s.pc = .testHold) (hno : (s.unobserved || !s.paced) = false) :
      RunMove s (.main pid) { s with pc := .clearStop }
  | clearStop {pid : UInt32} (hpc : s.pc = .clearStop) :
      RunMove s (.main pid) { s with pc := .installInt, holdStop := false }
  | installInt {pid : UInt32} (hpc : s.pc = .installInt) :
      RunMove s (.main pid)
        { s with pc := .installTerm, handler := Function.update s.handler .int true }
  | installTerm {pid : UInt32} (hpc : s.pc = .installTerm) :
      RunMove s (.main pid)
        { s with pc := .testStop, handler := Function.update s.handler .term true }
  -- the hold loop
  | stop {pid : UInt32} (hpc : s.pc = .testStop) (hflag : s.holdStop = true) :
      RunMove s (.main pid) { s with pc := .release }
  | stay {pid : UInt32} (hpc : s.pc = .testStop) (hflag : s.holdStop = false) :
      RunMove s (.main pid) { s with pc := .takeRerun }
  | takeRerun {pid : UInt32} (hpc : s.pc = .takeRerun)
      (hreq : s.pipeline.layout.supervisor.rerunRequest ≠ 0) :
      RunMove s (.main pid)
        { s.withSupervisorState { s.pipeline.layout.supervisor with rerunRequest := 0 } with
          pc := .reset }
  | noRerun {pid : UInt32} (hpc : s.pc = .takeRerun)
      (hreq : s.pipeline.layout.supervisor.rerunRequest = 0) :
      RunMove s (.main pid)
        { s.withSupervisorState { s.pipeline.layout.supervisor with rerunRequest := 0 } with
          pc := .nap }
  | nap {pid : UInt32} (hpc : s.pc = .nap) : RunMove s (.main pid) { s with pc := .testStop }
  | reset {pid : UInt32} {p : Pipeline} (hpc : s.pc = .reset)
      (h : s.pipeline.step .rerun = some p) :
      RunMove s (.main pid) { s with pipeline := p, pc := .pipeline }
  -- the end
  | alone {pid : UInt32} (hpc : s.pc = .release) (hobs : s.unobserved = true) :
      RunMove s (.main pid) { s with pc := .returned (if s.lastStatus ≠ 0 then 1 else 0) }
  | release {pid : UInt32} (hpc : s.pc = .release) (hobs : s.unobserved = false) :
      RunMove s (.main pid)
        { s.withSupervisorState { s.pipeline.layout.supervisor with observeRelease := 1 } with
          pc := .waitObserve }
  | waitObserve {pid status : UInt32} (hpc : s.pc = .waitObserve)
      (hw : s.observe.wait = some status) :
      RunMove s (.main pid)
        { s with pc := .returned (if s.lastStatus ≠ 0 ∨ status ≠ 0 then 1 else 0) }
  -- signals and the observer
  | handled {sig : StopSignal} (h : s.handler sig = true) :
      RunMove s (.signal sig) { s with holdStop := true, handled := true }
  | killed {sig : StopSignal} (h : s.handler sig = false) :
      RunMove s (.signal sig) { s with pc := .killed }
  | request (ho : s.observe = .running ()) :
      RunMove s .request
        (s.withSupervisorState { s.pipeline.layout.supervisor with rerunRequest := 1 })
  | observeEnds {status : WaitStatus} (ho : s.observe = .running ()) :
      RunMove s (.observeEnds status) { s with observe := .ended status }

variable {s s' : RunSupervisor}

theorem runMove_main {pid : UInt32} (h : s.stepMain (some pid) = some s') :
    RunMove s (.main pid) s' := by
  unfold stepMain at h
  cases hpc : s.pc with
  | pipeline =>
      simp only [hpc] at h
      split at h
      · rename_i hsup
        obtain rfl := Option.some.inj h
        exact .returns hpc hsup
      · exact absurd h (by simp)
  | testHold =>
      simp only [hpc] at h
      split at h <;> rename_i hno <;> obtain rfl := Option.some.inj h
      · exact .noHold hpc hno
      · exact .toHold hpc (by simpa using hno)
  | testStop =>
      simp only [hpc] at h
      split at h <;> rename_i hflag <;> obtain rfl := Option.some.inj h
      · exact .stop hpc hflag
      · exact .stay hpc (by simpa using hflag)
  | takeRerun =>
      simp only [hpc, Option.some.injEq] at h
      subst h
      split
      · rename_i hreq
        exact .takeRerun hpc hreq
      · rename_i hreq
        exact .noRerun hpc (not_not.mp hreq)
  | reset =>
      simp only [hpc, Option.map_eq_some_iff] at h
      obtain ⟨p, hp, rfl⟩ := h
      exact .reset hpc hp
  | release =>
      simp only [hpc] at h
      split at h <;> rename_i hobs <;> obtain rfl := Option.some.inj h
      · exact .alone hpc hobs
      · exact .release hpc (by simpa using hobs)
  | waitObserve =>
      simp only [hpc, Option.map_eq_some_iff] at h
      obtain ⟨status, hw, rfl⟩ := h
      exact .waitObserve hpc hw
  | _ =>
      simp only [hpc, Option.some.injEq, reduceCtorEq] at h
      all_goals
        subst h
        first
        | exact .spawnObserve hpc
        | exact .storeObservePid hpc
        | exact .clearStop hpc
        | exact .installInt hpc
        | exact .installTerm hpc
        | exact .nap hpc

/-- **Every step is a move.** -/
theorem runMove_of_step {a : RunAct} (h : s.step a = some s') : RunMove s a s' := by
  cases a with
  | pipe a =>
      simp only [step] at h
      split at h
      · exact absurd h (by simp)
      · rename_i hno
        rw [not_or, not_and, not_not] at hno
        simp only [Option.map_eq_some_iff] at h
        obtain ⟨p, hp, rfl⟩ := h
        exact .pipe hno.1 hno.2 hp
  | main pid => exact runMove_main h
  | observeFails =>
      simp only [step] at h
      split at h
      · rename_i hpc
        simp only [stepMain, hpc, Option.some.injEq] at h
        subst h
        exact .noObserve hpc
      · exact absurd h (by simp)
  | signal sig =>
      simp only [step] at h
      split at h <;> rename_i hsig <;> obtain rfl := Option.some.inj h
      · exact .handled hsig
      · exact .killed (by simpa using hsig)
  | request =>
      simp only [step] at h
      split at h
      · obtain rfl := Option.some.inj h
        exact .request ‹_›
      · exact absurd h (by simp)
  | observeEnds status =>
      simp only [step] at h
      split at h
      · obtain rfl := Option.some.inj h
        exact .observeEnds ‹_›
      · exact absurd h (by simp)

end RunSupervisor

end RateHub
