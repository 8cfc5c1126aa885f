import RateHub.Lib.Latch
import RateHub.Proof.HoldIdle

/-!
# Requests for another run

The observer stores 1 in `rerun_request` and the supervisor exchanges it for 0: a latch
between two processes. Nothing else touches the word, no step of a pipeline and not the reset
of the control block before the next one. So a look of the supervisor finds a request exactly
when one was made since its look before, however many were; what comes in during a pipeline
waits for the hold after it.

In the other direction nothing keeps the supervisor from looking: with a request waiting and
no stop signal, a bounded number of its own steps leads it from the return of one pipeline
into the next, whatever everybody else does in between.
-/

namespace RateHub

namespace Pipeline

/-- The pipeline leaves `rerun_request` alone. -/
theorem rerunRequest_of_step {s s' : Pipeline} {a : Act} (hs : s.step a = some s') :
    s'.layout.supervisor.rerunRequest = s.layout.supervisor.rerunRequest := by
  cases move_of_step hs with
  | @store _ l' pc' hst =>
      cases hsup : s.sup <;> simp only [hsup, supStep, Option.some.injEq, Prod.mk.injEq,
        reduceCtorEq] at hst
      all_goals
        rw [← hst.1]
  | rerun hsup => rfl
  | source hp hm hst =>
      obtain ⟨n, rfl⟩ := Ingest.stepSource_layout hst
      rfl
  | frames hp hm hst =>
      obtain ⟨r, rfl⟩ := Ingest.stepFrames_layout hst
      rfl
  | ingestMain hp hst =>
      obtain ⟨n, rfl⟩ := Ingest.stepMain_layout hst
      rfl
  | fast hp ha hst =>
      obtain ⟨hb, hc, ov, fd, r, la, rfl⟩ := fastStep_layout hst
      rfl
  | window hp ha hst =>
      obtain ⟨hb, ov, wd, wi, rfl⟩ := windowStep_layout hst
      rfl
  | snapshot hp ha hpc hst =>
      obtain ⟨hb, ov, sd, b, rfl⟩ := snapshotStep_layout hst
      rfl
  | handOver hp ha hpc hst =>
      obtain ⟨hb, ov, sd, b, rfl⟩ := snapshotStep_layout hst
      rfl
  | watchdog hp ha hst =>
      obtain ⟨f, rfl⟩ := watchdogStep_layout hst
      rfl
  | computeMain hp hst =>
      obtain ⟨cd, rfl⟩ := computeMainStep_layout hst
      rfl
  | publish hp hw hst =>
      obtain ⟨hb, b, rfl⟩ := Publish.step_layout hst
      rfl
  | _ => rfl

end Pipeline

/-- The supervisor is about to start the rerun it was asked for. -/
def RunPc.resetting (pc : RunPc) : Nat := if pc = .reset then 1 else 0

/-- Both handlers are installed from the first hold on. -/
def RunPc.guarded : RunPc → Bool
  | .testStop => true
  | .takeRerun => true
  | .nap => true
  | .reset => true
  | _ => false

namespace RunSupervisor

variable {s s' : RunSupervisor}

/-- `rerun_request`. -/
def rerunRequest (s : RunSupervisor) : UInt32 := s.pipeline.layout.supervisor.rerunRequest

/-! ## What becomes of the requests -/

/-- What was done to the latch, and how many reruns were started. -/
structure Asking where
  log : Latch.Log := {}
  reruns : Nat := 0

/-- How a step changes it. -/
def noteAsking (g : Asking) (s : RunSupervisor) (a : RunAct) (_ : RunSupervisor) : Asking :=
  match a with
  | .request => { g with log := g.log.after .set }
  | .main _ =>
      if s.pc = .takeRerun then { g with log := g.log.after .take }
      else if s.pc = .reset then { g with reruns := g.reruns + 1 }
      else g
  | _ => g

/-- Every run, with what was asked in it. -/
def ReachableAsking : Transition.Noted RunSupervisor Asking → Prop :=
  Transition.ReachableNoted step noteAsking (fun _ _ => True) Start {}

/-- The latch, the reruns and the handlers. -/
structure Asked (s : RunSupervisor) (g : Asking) : Prop where
  latch : s.rerunRequest ≠ 0 ↔ 0 < g.log.fresh
  reruns : g.reruns + s.pc.resetting = g.log.found
  halfway : s.pc = .installTerm → s.handler .int = true
  handlers : s.pc.guarded = true → ∀ sig, s.handler sig = true

variable {g : Asking}

/-- A step outside the look and the reset. -/
theorem Asked.frame (h : Asked s g) (hreq : s'.rerunRequest = s.rerunRequest)
    (hpc : s'.pc.resetting = s.pc.resetting)
    (hhalf : s'.pc = .installTerm → s'.handler .int = true)
    (hhand : s'.pc.guarded = true → ∀ sig, s'.handler sig = true) : Asked s' g where
  latch := by rw [hreq]; exact h.latch
  reruns := by rw [hpc]; exact h.reruns
  halfway := hhalf
  handlers := hhand

theorem noteAsking_main {pid : UInt32} (ht : s.pc ≠ .takeRerun) (hr : s.pc ≠ .reset) :
    noteAsking g s (.main pid) s' = g := by
  simp only [noteAsking, if_neg ht, if_neg hr]

/-- **One step.** -/
theorem asked_step {a : RunAct} (h : Asked s g) (hs : s.step a = some s') :
    Asked s' (noteAsking g s a s') := by
  cases runMove_of_step hs with
  | pipe hr hin hp =>
      exact h.frame (Pipeline.rerunRequest_of_step hp) rfl h.halfway h.handlers
  | request ho =>
      refine ⟨?_, h.reruns, h.halfway, h.handlers⟩
      simp [rerunRequest, withSupervisorState, noteAsking]
  | observeEnds ho => exact h.frame rfl rfl h.halfway h.handlers
  | handled hsig => exact h.frame rfl rfl h.halfway h.handlers
  | @killed sig hsig =>
      -- a stop signal without a handler comes before the first hold
      have hpc : s.pc ≠ .reset := by
        intro hpc
        have := h.handlers (by rw [hpc]; rfl) sig
        rw [hsig] at this
        cases this
      refine h.frame rfl ?_ (by simp) (by simp [RunPc.guarded])
      simp [RunPc.resetting, hpc]
  | @takeRerun pid hpc hreq =>
      have hfresh : 0 < g.log.fresh := h.latch.mp hreq
      have hcount := h.reruns
      simp only [RunPc.resetting, hpc, reduceCtorEq, if_false] at hcount
      simp only [noteAsking, hpc, if_true]
      refine ⟨by simp [rerunRequest, withSupervisorState], ?_, by simp, ?_⟩
      · rw [Latch.Log.found_take_hit hfresh]
        show g.reruns + 1 = _
        omega
      · exact fun _ => h.handlers (by rw [hpc]; rfl)
  | @noRerun pid hpc hreq =>
      have hfresh : g.log.fresh = 0 := by
        by_contra hne
        exact h.latch.mpr (Nat.pos_of_ne_zero hne) hreq
      have hcount := h.reruns
      simp only [RunPc.resetting, hpc, reduceCtorEq, if_false] at hcount
      simp only [noteAsking, hpc, if_true]
      refine ⟨by simp [rerunRequest, withSupervisorState], ?_, by simp, ?_⟩
      · rw [Latch.Log.found_take_miss hfresh]
        exact hcount
      · exact fun _ => h.handlers (by rw [hpc]; rfl)
  | @reset pid p hpc hp =>
      have hcount := h.reruns
      simp only [RunPc.resetting, hpc, if_true] at hcount
      simp only [noteAsking, hpc, reduceCtorEq, if_false, if_true]
      refine ⟨?_, hcount, by simp, by simp [RunPc.guarded]⟩
      show p.layout.supervisor.rerunRequest ≠ 0 ↔ _
      rw [Pipeline.rerunRequest_of_step hp]
      exact h.latch
  | installInt hpc =>
      rw [noteAsking_main (by rw [hpc]; simp) (by rw [hpc]; simp)]
      exact h.frame rfl (by simp [RunPc.resetting, hpc]) (by simp) (by simp [RunPc.guarded])
  | installTerm hpc =>
      rw [noteAsking_main (by rw [hpc]; simp) (by rw [hpc]; simp)]
      refine h.frame rfl (by simp [RunPc.resetting, hpc]) (by simp) ?_
      rintro _ (_ | _)
      · simpa using h.halfway hpc
      · simp
  | stay hpc hflag =>
      rw [noteAsking_main (by rw [hpc]; simp) (by rw [hpc]; simp)]
      exact h.frame rfl (by simp [RunPc.resetting, hpc]) (by simp)
        (fun _ => h.handlers (by rw [hpc]; rfl))
  | nap hpc =>
      rw [noteAsking_main (by rw [hpc]; simp) (by rw [hpc]; simp)]
      exact h.frame rfl (by simp [RunPc.resetting, hpc]) (by simp)
        (fun _ => h.handlers (by rw [hpc]; rfl))
  | noObserve hpc =>
      exact h.frame rfl (by simp [RunPc.resetting, hpc]) (by simp) (by simp [RunPc.guarded])
  | _ hpc =>
      rw [noteAsking_main (by rw [hpc]; simp) (by rw [hpc]; simp)]
      exact h.frame rfl (by simp [RunPc.resetting, hpc]) (by simp) (by simp [RunPc.guarded])

theorem asked_reachable {x : Transition.Noted RunSupervisor Asking} (h : ReachableAsking x) :
    Asked x.now x.past := by
  refine Transition.ReachableNoted.invariant ?_ ?_ h
  · rintro s ⟨replay, clock, observed, paced, rfl⟩
    have hclear : (start replay clock observed paced).rerunRequest ≠ 0 ↔ 0 < Latch.Log.fresh {} :=
      ⟨fun hreq => absurd rfl hreq, fun hfresh => absurd hfresh (by decide)⟩
    cases observed <;> exact ⟨hclear, rfl, by simp [start], by simp [start, RunPc.guarded]⟩
  · intro x a s' _ hi _ hs
    exact asked_step hi hs

/--
**Every request is answered, and only requests are.**

In every run, with any number of pipelines, with stop signals and with children that die at any
point: the number of reruns started, one more while the supervisor is about to start one, is
the number of its looks before which somebody had asked since the look before. So requests made
between two looks count once, no rerun comes without a request of its own, and what was asked
since the last look is still in the flag: with it counted in, there are at most as many reruns
as requests.
-/
theorem reruns_answer_requests {x : Transition.Noted RunSupervisor Asking}
    (h : ReachableAsking x) :
    (x.now.rerunRequest ≠ 0 ↔ 0 < x.past.log.fresh)
      ∧ x.past.reruns + x.now.pc.resetting = x.past.log.looks.countP (0 < ·)
      ∧ x.past.reruns + x.now.pc.resetting + (if x.now.rerunRequest ≠ 0 then 1 else 0)
          ≤ x.past.log.sets := by
  have hasked := asked_reachable h
  refine ⟨hasked.latch, hasked.reruns, ?_⟩
  have hle := Latch.Log.found_le_sets x.past.log
  rw [hasked.reruns]
  by_cases hfresh : 0 < x.past.log.fresh
  · rw [if_pos (hasked.latch.mpr hfresh)]
    rwa [if_pos hfresh] at hle
  · rw [if_neg fun hreq => hfresh (hasked.latch.mp hreq)]
    rwa [if_neg hfresh] at hle

/-- A pipeline with an observer, and the hold after it. -/
def untilHold : List RunAct := [.main 7, .main 7] ++ emptyPipeline ++ intoHold

/-- Two requests in the hold are answered by one rerun, a third one waits for its end. -/
theorem reruns_answer_requests_three :
    ∃ x, ReachableAsking x ∧ x.past.log.sets = 3 ∧ x.past.reruns = 1 ∧ x.now.rerunRequest = 1
      ∧ x.past.reruns + x.now.pc.resetting + 1 ≤ x.past.log.sets := by
  have h : (Transition.execWhen (Transition.notedStep step noteAsking) (fun _ _ => true)
      ⟨start [] 1 true true, {}⟩ (untilHold ++ [.request] ++ again ++ [.request])).any
      (fun x => decide (x.past.log.sets = 3) && decide (x.past.reruns = 1)
        && decide (x.now.rerunRequest = 1)) = true := by
    decide +kernel
  obtain ⟨x, hrun, hx⟩ := Option.any_eq_true _ _ |>.mp h
  simp only [Bool.and_eq_true, decide_eq_true_eq] at hx
  obtain ⟨⟨hsets, hreruns⟩, hreq⟩ := hx
  have hr : ReachableAsking x :=
    Transition.ReachableNoted.execWhen (fun _ _ _ => trivial) ⟨_, _, _, _, rfl⟩ hrun
  have hle := (reruns_answer_requests hr).2.2
  rw [if_pos (by rw [hreq]; decide)] at hle
  exact ⟨x, hr, hsets, hreruns, hreq, hle⟩

/-! ## A request that waits -/

end RunSupervisor

/-- The steps of the supervisor's own, at most, from the return of a pipeline into the next
when a request is waiting. -/
def RunPc.stepsToRerun : RunPc → Option Nat
  | .testHold => some 7
  | .clearStop => some 6
  | .installInt => some 5
  | .installTerm => some 4
  | .nap => some 4
  | .testStop => some 3
  | .takeRerun => some 2
  | .reset => some 1
  | _ => none

/-- `g_hold_stop` has not been cleared yet on the way into the hold. -/
def RunPc.beforeClear : RunPc → Bool
  | .testHold => true
  | .clearStop => true
  | _ => false

namespace RunSupervisor

/-- The label is a step of the supervisor outside `run_once_pipeline`. -/
def isMain : RunAct → Bool
  | .main _ => true
  | _ => false

/-- With a request waiting, or already taken, and no stop signal. -/
structure Due (s : RunSupervisor) (n : Nat) : Prop where
  steps : s.pc.stepsToRerun = some n
  asked : s.pc = .reset ∨ s.rerunRequest ≠ 0
  observed : s.unobserved = false
  paced : s.paced = true
  clear : s.pc.beforeClear = true ∨ s.holdStop = false

/-- The rerun has started. -/
def Restarted (s : RunSupervisor) : Prop := s.pc = .pipeline ∧ s.pipeline.sup = .spawnIngest

theorem Due.pos {n : Nat} (h : Due s n) : 0 < n := by
  have hsteps := h.steps
  cases hpc : s.pc <;>
    simp only [hpc, RunPc.stepsToRerun, Option.some.injEq, reduceCtorEq] at hsteps
  all_goals omega

/-- A step that leaves the supervisor where it is. -/
theorem Due.frame {n : Nat} (h : Due s n) (hpc : s'.pc = s.pc)
    (hreq : s.rerunRequest ≠ 0 → s'.rerunRequest ≠ 0) (hobs : s'.unobserved = false)
    (hpaced : s'.paced = s.paced) (hstop : s'.holdStop = s.holdStop) : Due s' n where
  steps := by rw [hpc]; exact h.steps
  asked := by rw [hpc]; exact h.asked.imp_right hreq
  observed := hobs
  paced := hpaced.trans h.paced
  clear := by rw [hpc, hstop]; exact h.clear

/-- The supervisor goes on, and has fewer steps to go. -/
theorem Due.next {n m : Nat} (h : Due s n) (hn : s.pc.stepsToRerun = some (m + 1))
    (hpc : s'.pc.stepsToRerun = some m) (hasked : s'.pc = .reset ∨ s'.rerunRequest ≠ 0)
    (hobs : s'.unobserved = s.unobserved) (hpaced : s'.paced = s.paced)
    (hclear : s'.pc.beforeClear = true ∨ s'.holdStop = false) :
    ∃ m, Due s' m ∧ m + 1 ≤ n := by
  have hsame : n = m + 1 := Option.some.inj (h.steps.symm.trans hn)
  exact ⟨m, ⟨hpc, hasked, hobs.trans h.observed, hpaced.trans h.paced, hclear⟩,
    Nat.le_of_eq hsame.symm⟩

/-- **A step of the supervisor leads nearer to the rerun**, a step of anybody else does not
lead away. -/
theorem due_step {a : RunAct} {n : Nat} (h : Due s n) (hquiet : ∀ sig, a ≠ .signal sig)
    (hs : s.step a = some s') :
    (isMain a = true ∧ Restarted s')
      ∨ ∃ m, Due s' m ∧ m + (if isMain a then 1 else 0) ≤ n := by
  have hsteps := h.steps
  have hask : s.pc ≠ .reset → s.rerunRequest ≠ 0 := fun hne => h.asked.resolve_left hne
  have hclear : s.pc.beforeClear = false → s.holdStop = false :=
    fun hb => h.clear.resolve_left (by rw [hb]; simp)
  cases runMove_of_step hs with
  | pipe hr hin hp =>
      refine .inr ⟨n, h.frame rfl ?_ h.observed rfl rfl, Nat.le_refl n⟩
      intro hne
      have hkeep := Pipeline.rerunRequest_of_step hp
      unfold rerunRequest at hne ⊢
      rw [hkeep]
      exact hne
  | request ho =>
      refine .inr ⟨n, h.frame rfl ?_ h.observed rfl rfl, Nat.le_refl n⟩
      intro _
      simp [rerunRequest, withSupervisorState]
  | observeEnds ho => exact .inr ⟨n, h.frame rfl id rfl rfl rfl, Nat.le_refl n⟩
  | handled hsig => exact absurd rfl (hquiet _)
  | killed hsig => exact absurd rfl (hquiet _)
  | toHold hpc hno =>
      exact .inr (h.next (by rw [hpc]; rfl) rfl (.inr (hask (by rw [hpc]; simp))) rfl rfl
        (.inl rfl))
  | clearStop hpc =>
      exact .inr (h.next (by rw [hpc]; rfl) rfl (.inr (hask (by rw [hpc]; simp))) rfl rfl
        (.inr rfl))
  | installInt hpc =>
      exact .inr (h.next (by rw [hpc]; rfl) rfl (.inr (hask (by rw [hpc]; simp))) rfl rfl
        (.inr (hclear (by rw [hpc]; rfl))))
  | installTerm hpc =>
      exact .inr (h.next (by rw [hpc]; rfl) rfl (.inr (hask (by rw [hpc]; simp))) rfl rfl
        (.inr (hclear (by rw [hpc]; rfl))))
  | stay hpc hflag =>
      exact .inr (h.next (by rw [hpc]; rfl) rfl (.inr (hask (by rw [hpc]; simp))) rfl rfl
        (.inr hflag))
  | nap hpc =>
      exact .inr (h.next (by rw [hpc]; rfl) rfl (.inr (hask (by rw [hpc]; simp))) rfl rfl
        (.inr (hclear (by rw [hpc]; rfl))))
  | takeRerun hpc hreq =>
      exact .inr (h.next (by rw [hpc]; rfl) rfl (.inl rfl) rfl rfl
        (.inr (hclear (by rw [hpc]; rfl))))
  | reset hpc hp =>
      refine .inl ⟨rfl, rfl, ?_⟩
      cases Pipeline.move_of_step hp with
      | rerun hsup => rfl
  | noHold hpc hno =>
      rw [h.observed, h.paced] at hno
      cases hno
  | stop hpc hflag =>
      rw [hclear (by rw [hpc]; rfl)] at hflag
      cases hflag
  | noRerun hpc hreq => exact absurd hreq (hask (by rw [hpc]; simp))
  | _ hpc =>
      rw [hpc] at hsteps
      cases hsteps

/-- In the hold the supervisor can always take its next step. -/
theorem main_enabled {n : Nat} (hr : Reachable s) (h : Due s n) (pid : UInt32) :
    (s.step (.main pid)).isSome = true := by
  have hsteps := h.steps
  cases hpc : s.pc with
  | reset =>
      obtain ⟨past, hx⟩ := Transition.ReachableNoted.of_reachable noteLost {} hr
      have hret := (held_reachable hx).returned (by rw [hpc]; rfl)
      unfold Pipeline.hasReturned at hret
      split at hret
      · rename_i code hsup
        have hsup' : s.pipeline.sup = .returned code := hsup
        simp [step, stepMain, hpc, Pipeline.step, hsup']
      · cases hret
  | testHold =>
      simp only [step, stepMain, hpc]
      split <;> rfl
  | testStop =>
      simp only [step, stepMain, hpc]
      split <;> rfl
  | clearStop => simp [step, stepMain, hpc]
  | installInt => simp [step, stepMain, hpc]
  | installTerm => simp [step, stepMain, hpc]
  | takeRerun => simp [step, stepMain, hpc]
  | nap => simp [step, stepMain, hpc]
  | _ =>
      rw [hpc] at hsteps
      cases hsteps

/-- The run has come by the rerun. -/
def RestartsIn (s : RunSupervisor) (as : List RunAct) : Prop :=
  ∃ bs, bs <+: as ∧ ∃ z, Transition.exec step s bs = some z ∧ Restarted z

/-- **A run without a stop signal gets there, or is that much nearer.** -/
theorem due_run : ∀ (as : List RunAct) {s s' : RunSupervisor} {n : Nat}, Due s n →
    Transition.exec step s as = some s' → (∀ sig, RunAct.signal sig ∉ as) →
    RestartsIn s as ∨ ∃ m, Due s' m ∧ m + as.countP isMain ≤ n
  | [], s, s', n, h, hrun, _ => by
      obtain rfl := Option.some.inj hrun
      exact .inr ⟨n, h, Nat.le_refl n⟩
  | a :: as, s, s', n, h, hrun, hquiet => by
      simp only [Transition.exec, Option.bind_eq_some_iff] at hrun
      obtain ⟨s₁, hs, hrest⟩ := hrun
      rcases due_step h (fun sig he => hquiet sig (by rw [he]; exact List.mem_cons_self)) hs with
        ⟨_, hdone⟩ | ⟨m, hdue, hm⟩
      · exact .inl ⟨[a], ⟨as, rfl⟩, s₁, by simp [Transition.exec, hs], hdone⟩
      · rcases due_run as hdue hrest (fun sig hmem => hquiet sig (List.mem_cons_of_mem _ hmem)) with
          ⟨bs, ⟨more, hmore⟩, z, hz, hdone⟩ | ⟨k, hdue', hk⟩
        · refine .inl ⟨a :: bs, ⟨more, by rw [List.cons_append, hmore]⟩, z, ?_, hdone⟩
          simp only [Transition.exec, hs, Option.bind_some, hz]
        · refine .inr ⟨k, hdue', ?_⟩
          rw [List.countP_cons]
          omega

/--
**A request is not kept waiting.**

In every reachable state with an observer and pacing in which the supervisor is on its way from
the return of a pipeline into the hold, or in it, and a request is waiting with no stop signal
noticed since `g_hold_stop` was cleared: in every run from there without a stop signal, with
any number of steps of the children, the observer and the operating system in between, the
supervisor can take its next step in every state up to the rerun, and by the seventh step it
takes it has started the rerun.
-/
theorem request_answered {n : Nat} (hr : Reachable s) (hreq : s.rerunRequest ≠ 0)
    (hobs : s.unobserved = false) (hpaced : s.paced = true)
    (hpc : s.pc.stepsToRerun = some n) (hclear : s.pc.beforeClear = true ∨ s.holdStop = false) :
    (∀ pid, (s.step (.main pid)).isSome = true)
      ∧ ∀ (as : List RunAct) (s' : RunSupervisor), Transition.exec step s as = some s' →
          (∀ sig, RunAct.signal sig ∉ as) →
          RestartsIn s as
            ∨ (∀ pid, (s'.step (.main pid)).isSome = true) ∧ as.countP isMain < 7 := by
  have hdue : Due s n := ⟨hpc, .inr hreq, hobs, hpaced, hclear⟩
  have hseven : n ≤ 7 := by
    cases hat : s.pc <;> simp only [hat, RunPc.stepsToRerun, Option.some.injEq, reduceCtorEq] at hpc
    all_goals omega
  refine ⟨fun pid => main_enabled hr hdue pid, ?_⟩
  intro as s' hrun hquiet
  refine (due_run as hdue hrun hquiet).imp_right ?_
  rintro ⟨m, hdue', hm⟩
  have hr' : Reachable s' := Transition.Reachable.exec (fun _ _ => trivial) as hr hrun
  have hpos := hdue'.pos
  exact ⟨fun pid => main_enabled hr' hdue' pid, by omega⟩

/-- A request made during the hold is answered. -/
theorem request_answered_in_hold :
    ∃ s, Reachable s ∧ s.pc = .testStop ∧ s.rerunRequest ≠ 0
      ∧ ∀ (as : List RunAct) (s' : RunSupervisor), Transition.exec step s as = some s' →
          (∀ sig, RunAct.signal sig ∉ as) →
          RestartsIn s as
            ∨ (∀ pid, (s'.step (.main pid)).isSome = true) ∧ as.countP isMain < 7 := by
  have h : (Transition.exec step (start [] 1 true true) (untilHold ++ [.request])).any
      (fun s => decide (s.pc = .testStop) && decide (s.rerunRequest ≠ 0) && !s.unobserved
        && s.paced && !s.holdStop) = true := by
    decide +kernel
  obtain ⟨s, hrun, hs⟩ := Option.any_eq_true _ _ |>.mp h
  simp only [Bool.and_eq_true, Bool.not_eq_true', decide_eq_true_eq] at hs
  obtain ⟨⟨⟨⟨hpc, hreq⟩, hobs⟩, hpaced⟩, hclear⟩ := hs
  have hr : Reachable s :=
    Transition.Reachable.exec (fun _ _ => trivial) _ (.init ⟨_, _, _, _, rfl⟩) hrun
  exact ⟨s, hr, hpc, hreq,
    (request_answered (n := 3) hr hreq hobs hpaced (by rw [hpc]; rfl) (.inr hclear)).2⟩

end RunSupervisor

end RateHub
