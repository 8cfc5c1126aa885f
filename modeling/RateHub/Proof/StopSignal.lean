import RateHub.Proof.RunMoves

/-!
# Stop signals

`g_hold_stop` is cleared on every pass of the outer loop, right before the hold, and the
handler stays installed from the first hold on. A stop signal handled while the
supervisor is on its way back to the hold is cleared away: the supervisor then holds
as if nobody had asked it to stop.

The way back begins with the exchange that takes a rerun request. `onTheWay` is the
stretch from there to the clear.
-/

namespace RateHub

/-- Between the exchange that took a rerun request and the clear of `g_hold_stop`, or in the
pass before the first hold. -/
def RunPc.onTheWay : RunPc → Bool
  | .spawnObserve => true
  | .storeObservePid _ => true
  | .reset => true
  | .pipeline => true
  | .testHold => true
  | .clearStop => true
  | _ => false

/-- Inside the hold loop. -/
def RunPc.holding : RunPc → Bool
  | .testStop => true
  | .takeRerun => true
  | .nap => true
  | _ => false

namespace RunSupervisor

/-- The condition on a step: no stop signal is handled on the way back to the hold, and no
rerun request is taken after one was handled. -/
def heeds (s : RunSupervisor) : RunAct → Bool
  | .signal sig => !(s.handler sig && s.pc.onTheWay)
  | .main _ =>
      !(decide (s.pc = .takeRerun)
        && decide (s.pipeline.layout.supervisor.rerunRequest ≠ 0) && s.holdStop)
  | _ => true

/-- The states of the runs whose steps all meet it. -/
def ReachableHeeding : RunSupervisor → Prop :=
  Transition.Reachable step (fun s a => s.heeds a = true) Start

/-- The flag remembers every signal that was handled. -/
structure Remembered (s : RunSupervisor) : Prop where
  flag : s.handled = true → s.holdStop = true
  way : s.pc.onTheWay = true → s.handled = false

theorem remembered_start (replay : List UInt8) (clock : UInt64) (observed paced : Bool) :
    Remembered (start replay clock observed paced) :=
  ⟨fun h => absurd h (by simp [start]), fun _ => rfl⟩

theorem remembered_step {s s' : RunSupervisor} {a : RunAct} (h : Remembered s)
    (hk : s.heeds a = true) (hs : s.step a = some s') : Remembered s' := by
  have hway : s.pc.onTheWay = true → s.handled = false := h.way
  cases runMove_of_step hs with
  | pipe hr hin hp => exact ⟨h.flag, h.way⟩
  | spawnObserve hpc => exact ⟨h.flag, fun _ => hway (by rw [hpc]; rfl)⟩
  | noObserve hpc => exact ⟨h.flag, fun _ => hway (by rw [hpc]; rfl)⟩
  | storeObservePid hpc => exact ⟨h.flag, fun _ => hway (by rw [hpc]; rfl)⟩
  | returns hpc hsup => exact ⟨h.flag, fun _ => hway (by rw [hpc]; rfl)⟩
  | toHold hpc hno => exact ⟨h.flag, fun _ => hway (by rw [hpc]; rfl)⟩
  | reset hpc hp => exact ⟨h.flag, fun _ => hway (by rw [hpc]; rfl)⟩
  | clearStop hpc =>
      -- nothing was handled on the way, so there is nothing to forget
      refine ⟨?_, by intro hw; cases hw⟩
      intro hh
      rw [show s.handled = false from hway (by rw [hpc]; rfl)] at hh
      cases hh
  | takeRerun hpc hreq =>
      -- the request is taken with the flag clear
      refine ⟨h.flag, ?_⟩
      intro _
      show s.handled = false
      cases hh : s.handled with
      | false => rfl
      | true =>
          have hflag := h.flag hh
          simp [heeds, hpc, hreq, hflag] at hk
  | handled hsig =>
      refine ⟨fun _ => rfl, ?_⟩
      intro hw
      have hw' : s.pc.onTheWay = true := hw
      simp [heeds, hsig, hw'] at hk
  | request ho => exact ⟨h.flag, h.way⟩
  | observeEnds ho => exact ⟨h.flag, h.way⟩
  | _ => exact ⟨h.flag, by intro hw; cases hw⟩

/--
**No stop signal is lost in a run that heeds them.**

In every run with any number of reruns and with stop signals delivered at any moment, as
long as none is handled on the way from a taken rerun request to the clear, and no
request is taken after one was handled: the supervisor is never in its hold loop with
`g_hold_stop` clear and a stop signal behind it.
-/
theorem stop_signal_kept {s : RunSupervisor} (h : ReachableHeeding s) :
    ¬ (s.pc.holding = true ∧ s.holdStop = false ∧ s.handled = true) := by
  have hi : Remembered s := by
    refine Transition.Reachable.invariant ?_ (fun _ _ _ hi hk hs => remembered_step hi hk hs) h
    rintro _ ⟨replay, clock, observed, paced, rfl⟩
    exact remembered_start replay clock observed paced
  rintro ⟨_, hclear, hh⟩
  rw [hi.flag hh] at hclear
  cases hclear

/-- A pipeline in which nothing can be spawned, from its start to its return. -/
def emptyPipeline : List RunAct :=
  [RunAct.pipe .spawnFails, .pipe (.sup 0), .pipe .spawnFails, .pipe (.sup 0)]
    ++ (List.replicate 3
        [RunAct.pipe .spawnFails, .pipe (.sup 0), .pipe (.sup 0), .pipe (.sup 0),
          .pipe (.sup 0)]).flatten
    ++ List.replicate 4 (RunAct.pipe (.sup 0))

/-- From the return of a pipeline into the hold loop. -/
def intoHold : List RunAct := List.replicate 5 (.main 0)

/-- The observer asks for a rerun and the supervisor starts it. -/
def again : List RunAct := [.request, .main 0, .main 0, .main 0]

/-- A rerun, a stop signal in the second hold: the flag is set there. -/
theorem stop_signal_kept_second_hold :
    ∃ s, ReachableHeeding s ∧ s.pc.holding = true ∧ s.handled = true
      ∧ ¬ (s.pc.holding = true ∧ s.holdStop = false ∧ s.handled = true) := by
  have h : (Transition.execWhen step heeds (start [] 1 true true)
      ([.main 7, .main 7] ++ emptyPipeline ++ intoHold ++ again ++ emptyPipeline ++ intoHold
        ++ [.signal .term])).any
      (fun s => s.pc.holding && s.handled) = true := by
    decide +kernel
  obtain ⟨s, hrun, hs⟩ := Option.any_eq_true _ _ |>.mp h
  simp only [Bool.and_eq_true] at hs
  have hr : ReachableHeeding s :=
    Transition.Reachable.execWhen (g := heeds) (fun _ _ hg => hg) _ (.init ⟨_, _, _, _, rfl⟩) hrun
  exact ⟨s, hr, hs.1, hs.2, stop_signal_kept hr⟩

/-- The signal arrives while the rerun's pipeline executes, and the next hold does not know. -/
theorem stop_signal_lost :
    ∃ s, Reachable s ∧ s.paced = true ∧ s.observe = .running () ∧ s.pc.holding = true
      ∧ s.holdStop = false ∧ s.handled = true := by
  have h : (Transition.exec step (start [] 1 true true)
      ([.main 7, .main 7] ++ emptyPipeline ++ intoHold ++ again ++ [.signal .int] ++ emptyPipeline
        ++ intoHold)).any
      (fun s => s.paced && !s.unobserved && decide (s.observe.wait = none) && s.pc.holding
        && !s.holdStop && s.handled) = true := by
    decide +kernel
  obtain ⟨s, hrun, hs⟩ := Option.any_eq_true _ _ |>.mp h
  simp only [Bool.and_eq_true, Bool.not_eq_true', decide_eq_true_eq] at hs
  obtain ⟨⟨⟨⟨⟨hpaced, hobs⟩, hwait⟩, hhold⟩, hclear⟩, hh⟩ := hs
  refine ⟨s, Transition.Reachable.exec (fun _ _ => trivial) _ (.init ⟨_, _, _, _, rfl⟩) hrun,
    hpaced, ?_, hhold, hclear, hh⟩
  unfold unobserved at hobs
  cases ho : s.observe with
  | running u => rfl
  | unborn => simp [ho] at hobs
  | failed => simp [ho] at hobs
  | ended status => cases status <;> simp [ho, Child.wait] at hwait

end RunSupervisor

end RateHub
