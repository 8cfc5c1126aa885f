import RateHub.Proof.Finish

/-!
# What a fault leads to

The watchdog's fault flag is read in one place: by `run_compute`, after it has joined
every thread. So the flag decides the exit code of an attempt whose threads have all
ended, and does nothing for one whose thread is stuck: the join of that thread waits,
the process runs on and the supervisor waits for the process.

The exact statement is `fault_restarts_iff`. That a finished stage is enough needs the
other threads to be able to end without ingest: no stage leaves its loop before
`ingest_done` is stored (`idle_reachable`), so by then ingest is not needed any more.
-/

namespace RateHub

/-! ## No stage leaves its loop before ingest is done -/

/-- Past the window thread's loop. -/
def WindowPc.left : WindowPc → Bool
  | .lastBeat => true
  | .storeDone => true
  | .done => true
  | .storeLastBeat _ => true
  | .load last _ _ _ => last
  | .publish last _ _ => last
  | _ => false

/-- Past the snapshot thread's loop. -/
def SnapshotPc.left : SnapshotPc → Bool
  | .testWindow => false
  | .testStop => false
  | .beat => false
  | .start => false
  | .work => false
  | .storeBeat _ => false
  | .finish _ => false
  | _ => true

theorem WindowPc.next_left (last : Bool) (id : Fin kMaxSources) :
    (WindowPc.next last id).left = last := by
  unfold WindowPc.next
  split
  · rfl
  · cases last <;> rfl

theorem windowStep_left {clock : UInt64} {l l' : Layout} {t t' : Window}
    (h : windowStep clock l t = some (l', t')) (hl : t'.pc.left = true) :
    t.pc.left = true ∨ l.control.fastDone ≠ 0 ∨ l.control.shutdown ≠ 0 := by
  unfold windowStep at h
  cases hpc : t.pc with
  | testFast =>
      simp only [hpc] at h
      split at h <;> simp only [Option.some.injEq, Prod.mk.injEq] at h <;> obtain ⟨rfl, rfl⟩ := h
      · rename_i hf
        exact Or.inr (Or.inl hf)
      · cases hl
  | testStop =>
      simp only [hpc] at h
      split at h <;> simp only [Option.some.injEq, Prod.mk.injEq] at h <;> obtain ⟨rfl, rfl⟩ := h
      · rename_i hf
        exact Or.inr (Or.inr hf)
      · cases hl
  | load last id source call =>
      left
      simp only [hpc] at h
      repeat' split at h
      all_goals simp only [Option.some.injEq, Prod.mk.injEq] at h
      all_goals obtain ⟨rfl, rfl⟩ := h
      all_goals
        try simp only [WindowPc.next_left] at hl
        exact hl
  | publish last id call =>
      left
      simp only [hpc] at h
      split at h <;> simp only [Option.some.injEq, Prod.mk.injEq] at h <;> obtain ⟨rfl, rfl⟩ := h
      · simp only [WindowPc.next_left] at hl
        exact hl
      · exact hl
  | _ =>
      simp only [hpc, Option.some.injEq, Prod.mk.injEq, reduceCtorEq] at h
      all_goals
        obtain ⟨rfl, rfl⟩ := h
        first
        | exact Or.inl rfl
        | cases hl

theorem snapshotStep_left {clock : UInt64} {l l' : Layout} {t t' : SnapshotThread}
    (h : snapshotStep clock l t = some (l', t')) (hl : t'.pc.left = true) :
    t.pc.left = true ∨ l.control.windowDone ≠ 0 ∨ l.control.shutdown ≠ 0 := by
  unfold snapshotStep at h
  cases hpc : t.pc with
  | testWindow =>
      simp only [hpc] at h
      split at h <;> simp only [Option.some.injEq, Prod.mk.injEq] at h <;> obtain ⟨rfl, rfl⟩ := h
      · rename_i hf
        exact Or.inr (Or.inl hf)
      · cases hl
  | testStop =>
      simp only [hpc] at h
      split at h <;> simp only [Option.some.injEq, Prod.mk.injEq] at h <;> obtain ⟨rfl, rfl⟩ := h
      · rename_i hf
        exact Or.inr (Or.inr hf)
      · cases hl
  | beat =>
      simp only [hpc, Option.some.injEq, Prod.mk.injEq] at h
      obtain ⟨rfl, rfl⟩ := h
      cases hl
  | storeBeat now =>
      simp only [hpc, Option.some.injEq, Prod.mk.injEq] at h
      obtain ⟨rfl, rfl⟩ := h
      cases hl
  | start =>
      simp only [hpc, Option.some.injEq, Prod.mk.injEq] at h
      obtain ⟨rfl, rfl⟩ := h
      cases hl
  | work =>
      simp only [hpc, Option.some.injEq, Prod.mk.injEq] at h
      obtain ⟨rfl, rfl⟩ := h
      cases hl
  | finish work =>
      simp only [hpc, Option.some.injEq, Prod.mk.injEq] at h
      obtain ⟨rfl, rfl⟩ := h
      cases hl
  | _ => exact Or.inl rfl

/-- A done flag is stored past the loop only. -/
theorem fastStep_flag {clock : UInt64} {l l' : Layout} {t t' : Fast}
    (h : fastStep clock l t = some (l', t')) (hl : t.pc.left = false) :
    l'.control.fastDone = l.control.fastDone := by
  unfold fastStep at h
  cases hpc : t.pc with
  | storeDone => simp [hpc, FastPc.left] at hl
  | _ =>
      simp only [hpc] at h
      repeat' split at h
      all_goals try simp only [Option.some.injEq, Prod.mk.injEq, reduceCtorEq] at h
      all_goals
        obtain ⟨rfl, rfl⟩ := h
        rfl

theorem windowStep_flag {clock : UInt64} {l l' : Layout} {t t' : Window}
    (h : windowStep clock l t = some (l', t')) (hl : t.pc.left = false) :
    l'.control.windowDone = l.control.windowDone := by
  unfold windowStep at h
  cases hpc : t.pc with
  | storeDone => simp [hpc, WindowPc.left] at hl
  | _ =>
      simp only [hpc] at h
      repeat' split at h
      all_goals try simp only [Option.some.injEq, Prod.mk.injEq, reduceCtorEq] at h
      all_goals
        obtain ⟨rfl, rfl⟩ := h
        rfl

/-- The watchdog never takes a fault back. -/
theorem watchdogStep_fault {clock : UInt64} {l l' : Layout} {pc pc' : WatchdogPc}
    (h : watchdogStep clock l pc = some (l', pc')) (hf : l.control.fault ≠ 0) :
    l'.control.fault ≠ 0 := by
  unfold watchdogStep at h
  repeat' split at h
  all_goals simp only [Option.some.injEq, Prod.mk.injEq, reduceCtorEq] at h
  all_goals obtain ⟨rfl, _⟩ := h
  all_goals first
    | exact hf
    | simp

namespace Pipeline

/-- Before ingest is done every stage is in its loop and no stage has stored a flag. -/
structure Idle (s : Pipeline) : Prop where
  fastDone : s.layout.control.fastDone = 0
  windowDone : s.layout.control.windowDone = 0
  window : ∀ p, s.compute = .running p → p.window.pc.left = false
  snapshot : ∀ p, s.compute = .running p → p.snapshot.pc.left = false

/-- A step that leaves the two flags and compute alone, or ends compute. -/
theorem Idle.frame {s s' : Pipeline} (h : Idle s)
    (hf : s'.layout.control.fastDone = s.layout.control.fastDone)
    (hw : s'.layout.control.windowDone = s.layout.control.windowDone)
    (hc : ∀ p', s'.compute = .running p' → ∃ p, s.compute = .running p
      ∧ p'.window = p.window ∧ p'.snapshot = p.snapshot) : Idle s' where
  fastDone := by rw [hf]; exact h.fastDone
  windowDone := by rw [hw]; exact h.windowDone
  window p' hp' := by
    obtain ⟨p, hp, hwin, _⟩ := hc p' hp'
    rw [hwin]
    exact h.window p hp
  snapshot p' hp' := by
    obtain ⟨p, hp, _, hsnap⟩ := hc p' hp'
    rw [hsnap]
    exact h.snapshot p hp

theorem Idle.snapshotStep {s : Pipeline} {p : Compute} {l' : Layout} {t' : SnapshotThread}
    (h : Idle s) (hp : s.compute = .running p) (hno : s.layout.control.shutdown = 0)
    (hst : snapshotStep s.clock s.layout p.snapshot = some (l', t')) :
    Idle (s.withCompute (l', { p with snapshot := t' })) := by
  have hleft := snapshotStep_left hst
  obtain ⟨hb, ov, sd, b, rfl⟩ := snapshotStep_layout hst
  refine ⟨h.fastDone, h.windowDone, ?_, ?_⟩
  · intro q hq
    obtain rfl := Child.running.inj hq
    exact h.window p hp
  · intro q hq
    obtain rfl := Child.running.inj hq
    refine Bool.eq_false_iff.mpr fun hl => ?_
    rcases hleft hl with hbefore | hw | hstop
    · rw [h.snapshot p hp] at hbefore
      cases hbefore
    · exact hw h.windowDone
    · exact hstop hno

theorem idle_step {s s' : Pipeline} {a : Act} (hsound : Sound s)
    (h : s.layout.control.ingestDone = 0 → Idle s) (hs : s.step a = some s')
    (hi : s'.layout.control.ingestDone = 0) : Idle s' := by
  have hsame : ∀ p', s.compute = .running p' →
      ∃ p, s.compute = .running p ∧ p'.window = p.window ∧ p'.snapshot = p.snapshot :=
    fun p' hp' => ⟨p', hp', rfl, rfl⟩
  cases move_of_step hs with
  | spawnCompute hsup =>
      have hidle := h hi
      refine ⟨hidle.fastDone, hidle.windowDone, ?_, ?_⟩
      · intro q hq
        obtain rfl := Child.running.inj hq
        rfl
      · intro q hq
        obtain rfl := Child.running.inj hq
        rfl
  | store hst =>
      obtain ⟨sh, g, sv, rfl⟩ := (supStep_stored hst).layout
      exact (h hi).frame rfl rfl hsame
  | rerun hsup =>
      refine ⟨rfl, rfl, ?_, ?_⟩
      · intro p hp
        cases hp
      · intro p hp
        cases hp
  | source hp hm hst =>
      obtain ⟨n, rfl⟩ := Ingest.stepSource_layout hst
      exact (h hi).frame rfl rfl hsame
  | frames hp hm hst =>
      obtain ⟨r, rfl⟩ := Ingest.stepFrames_layout hst
      exact (h hi).frame rfl rfl hsame
  | ingestMain hp hst =>
      -- the main thread moves only before its flag
      have hbefore : s.layout.control.ingestDone = 0 := by
        by_contra hflag
        have hm := (hsound.joins _ hp).flag.mp hflag
        simp [Ingest.stepMain, ingestMainStep, hm] at hst
      obtain ⟨n, rfl⟩ := Ingest.stepMain_layout hst
      exact (h hbefore).frame rfl rfl hsame
  | fast hp ha hst =>
      have hstages := hsound.stages _ hp
      have hflag := fastStep_flag hst
      obtain ⟨hb, hc, ov, fd, r, la, rfl⟩ := fastStep_layout hst
      have hleft : _ = false := Bool.eq_false_iff.mpr fun hl => hstages.left hl hi
      refine (h hi).frame (hflag hleft) rfl ?_
      intro q hq
      obtain rfl := Child.running.inj hq
      exact ⟨_, hp, rfl, rfl⟩
  | window hp ha hst =>
      have hno := hsound.skeleton.no_shutdown hp
      have hflag := windowStep_flag hst
      have hleft := windowStep_left hst
      obtain ⟨hb, ov, wd, wi, rfl⟩ := windowStep_layout hst
      have hidle := h hi
      have hin := hidle.window _ hp
      have hsn := hidle.snapshot _ hp
      refine ⟨hidle.fastDone, (hflag hin).trans hidle.windowDone, ?_, ?_⟩
      · intro q hq
        obtain rfl := Child.running.inj hq
        refine Bool.eq_false_iff.mpr fun hl => ?_
        rcases hleft hl with hbefore | hf | hstop
        · rw [hin] at hbefore
          cases hbefore
        · exact hf hidle.fastDone
        · exact hstop hno
      · intro q hq
        obtain rfl := Child.running.inj hq
        exact hsn
  | snapshot hp ha hpc hst =>
      have hkeep := snapshotStep_layout hst
      have hidle : Idle s := by
        obtain ⟨hb, ov, sd, b, rfl⟩ := hkeep
        exact h hi
      exact hidle.snapshotStep hp (hsound.skeleton.no_shutdown hp) hst
  | handOver hp ha hpc hst =>
      have hkeep := snapshotStep_layout hst
      have hidle : Idle s := by
        obtain ⟨hb, ov, sd, b, rfl⟩ := hkeep
        exact h hi
      have hnext := hidle.snapshotStep hp (hsound.skeleton.no_shutdown hp) hst
      exact hnext.frame rfl rfl fun q hq => ⟨q, hq, rfl, rfl⟩
  | watchdog hp ha hst =>
      obtain ⟨f, rfl⟩ := watchdogStep_layout hst
      refine (h hi).frame rfl rfl ?_
      intro q hq
      obtain rfl := Child.running.inj hq
      exact ⟨_, hp, rfl, rfl⟩
  | computeMain hp hst =>
      obtain ⟨cd, rfl⟩ := computeMainStep_layout hst
      refine (h hi).frame rfl rfl ?_
      intro q hq
      obtain rfl := Child.running.inj hq
      exact ⟨_, hp, rfl, rfl⟩
  | publish hp hw hst =>
      obtain ⟨hb, b, rfl⟩ := Publish.step_layout hst
      exact (h hi).frame rfl rfl hsame
  | _ =>
      refine (h hi).frame rfl rfl ?_
      intro q hq
      first
      | exact hsame q hq
      | cases hq

theorem idle_reachable {ok : Pipeline → Act → Prop} {s : Pipeline}
    (h : Transition.Reachable step ok Start s) (hi : s.layout.control.ingestDone = 0) :
    Idle s := by
  have hboth : Sound s ∧ (s.layout.control.ingestDone = 0 → Idle s) := by
    refine Transition.Reachable.invariant
      (I := fun s => Sound s ∧ (s.layout.control.ingestDone = 0 → Idle s)) ?_ ?_ h
    · rintro _ ⟨replay, clock, rfl⟩
      refine ⟨sound_start replay clock, fun _ => ⟨rfl, rfl, ?_, ?_⟩⟩
      · intro p hp
        cases hp
      · intro p hp
        cases hp
    · rintro s a s' ⟨hsound, hidle⟩ _ hs
      exact ⟨sound_step hsound hs, idle_step hsound hidle hs⟩
  exact hboth.2 hi

/-- A finished stage has seen, through the flags before it, that ingest is done. -/
theorem ingestDone_of_finished {s : Pipeline} {p : Compute} {X : Stage}
    (hsound : Sound s) (hidle : s.layout.control.ingestDone = 0 → Idle s)
    (hp : s.compute = .running p) (hX : p.finished X = true) :
    s.layout.control.ingestDone ≠ 0 := by
  intro hi
  cases X with
  | fast =>
      refine (hsound.stages p hp).left ?_ hi
      cases hpc : p.fast.pc with
      | done => rfl
      | _ => simp [Compute.finished, hpc, FastPc.isDone] at hX
  | window =>
      have hin := (hidle hi).window p hp
      cases hpc : p.window.pc with
      | done => simp [hpc, WindowPc.left] at hin
      | _ => simp [Compute.finished, hpc, WindowPc.isDone] at hX
  | snapshot =>
      have hin := (hidle hi).snapshot p hp
      cases hpc : p.snapshot.pc with
      | done => simp [hpc, SnapshotPc.left] at hin
      | _ => simp [Compute.finished, hpc, SnapshotPc.isDone] at hX

/-! ## A fault and a silent stage -/

/-- The steps of the other compute threads, of `run_compute`'s main thread and of the
supervisor, as time passes. -/
def spares (X : Stage) (a : Act) : Prop :=
  match a with
  | .tick _ => True
  | .sup _ => True
  | .computeMain => True
  | .watchdog => True
  | .fast => X ≠ .fast
  | .window => X ≠ .window
  | .snapshot => X ≠ .snapshot
  | _ => False

/-- An unfinished stage that is never run: compute waits at its join, or before it. -/
def Waiting (X : Stage) (s : Pipeline) : Prop :=
  Sound s ∧ ∃ p, s.compute = .running p ∧ p.finished X = false

theorem waiting_step {X : Stage} {s s' : Pipeline} {a : Act} (h : Waiting X s) (hm : spares X a)
    (hs : s.step a = some s') : Waiting X s' := by
  obtain ⟨hsound, p, hp, hX⟩ := h
  refine ⟨sound_step hsound hs, ?_⟩
  have hawait := hsound.skeleton.running p hp
  have hstages := hsound.stages p hp
  cases move_of_step hs with
  | tick _ => exact ⟨p, hp, hX⟩
  | spawnIngest hsup => simp [hsup, SupPc.awaiting] at hawait
  | spawnPublish hsup => simp [hsup, SupPc.awaiting] at hawait
  | spawnCompute hsup => simp [hsup, SupPc.awaiting] at hawait
  | reapCompute hsup hw => simp [hp, Child.wait] at hw
  | reapIngest hsup hw => exact ⟨p, hp, hX⟩
  | reapPublish hsup hw => exact ⟨p, hp, hX⟩
  | store hst => exact ⟨p, hp, hX⟩
  | fast hp' ha hst =>
      obtain rfl := Child.running.inj (hp.symm.trans hp')
      refine ⟨_, rfl, ?_⟩
      cases X with
      | fast => exact absurd rfl hm
      | window => exact hX
      | snapshot => exact hX
  | window hp' ha hst =>
      obtain rfl := Child.running.inj (hp.symm.trans hp')
      refine ⟨_, rfl, ?_⟩
      cases X with
      | fast => exact hX
      | window => exact absurd rfl hm
      | snapshot => exact hX
  | snapshot hp' ha hpc hst =>
      obtain rfl := Child.running.inj (hp.symm.trans hp')
      refine ⟨_, rfl, ?_⟩
      cases X with
      | fast => exact hX
      | window => exact hX
      | snapshot => exact absurd rfl hm
  | handOver hp' ha hpc hst =>
      obtain rfl := Child.running.inj (hp.symm.trans hp')
      refine ⟨_, rfl, ?_⟩
      cases X with
      | fast => exact hX
      | window => exact hX
      | snapshot => exact absurd rfl hm
  | watchdog hp' ha hst =>
      obtain rfl := Child.running.inj (hp.symm.trans hp')
      refine ⟨_, rfl, ?_⟩
      cases X <;> exact hX
  | computeMain hp' hst =>
      obtain rfl := Child.running.inj (hp.symm.trans hp')
      refine ⟨_, rfl, ?_⟩
      cases X <;> exact hX
  | computeExit hp' hexit =>
      -- at its exit the main thread has joined every stage
      obtain rfl := Child.running.inj (hp.symm.trans hp')
      have hfin : p.finished X = true := by
        cases X with
        | fast => exact hstages.joinedFast (by simp [hexit, ComputeMainPc.joins])
        | window => exact hstages.joinedWindow (by simp [hexit, ComputeMainPc.joins])
        | snapshot => exact hstages.joinedSnapshot (by simp [hexit, ComputeMainPc.joins])
      rw [hX] at hfin
      cases hfin
  | _ => exact hm.elim

/-- **A stage that never runs again keeps its compute process alive for good.** -/
theorem no_end_of_waiting {X : Stage} {s : Pipeline} (h : Waiting X s) :
    ¬ Transition.CanReach step (spares X) (fun s' => s'.compute = .ended (.exited 3)) s := by
  refine Transition.CanReach.not_of_trap (P := Waiting X)
    (fun _ _ _ hw hm hs => waiting_step hw hm hs) ?_ h
  rintro s ⟨_, p, hp, _⟩ hend
  rw [hp] at hend
  cases hend

/-- The fault flag stays set: only the reset before another pipeline clears it. -/
theorem fault_step {s s' : Pipeline} {X : Stage} {a : Act} (h : s.layout.control.fault ≠ 0)
    (hm : spares X a) (hs : s.step a = some s') : s'.layout.control.fault ≠ 0 := by
  cases move_of_step hs with
  | store hst =>
      obtain ⟨sh, g, sv, rfl⟩ := (supStep_stored hst).layout
      exact h
  | fast hp ha hst =>
      obtain ⟨hb, hc, ov, fd, r, la, rfl⟩ := fastStep_layout hst
      exact h
  | window hp ha hst =>
      obtain ⟨hb, ov, wd, wi, rfl⟩ := windowStep_layout hst
      exact h
  | snapshot hp ha hpc hst =>
      obtain ⟨hb, ov, sd, b, rfl⟩ := snapshotStep_layout hst
      exact h
  | handOver hp ha hpc hst =>
      obtain ⟨hb, ov, sd, b, rfl⟩ := snapshotStep_layout hst
      exact h
  | watchdog hp ha hst => exact watchdogStep_fault hst h
  | computeMain hp hst =>
      obtain ⟨cd, rfl⟩ := computeMainStep_layout hst
      exact h
  | _ => first
    | exact h
    | exact hm.elim

/-- The steps that do not run `X` do run the other stages. -/
theorem spares_act (X Y : Stage) : spares X Y.act ∨ Y = X := by
  by_cases hYX : Y = X
  · exact Or.inr hYX
  · left
    cases Y with
    | fast => exact fun hX => hYX hX.symm
    | window => exact fun hX => hYX hX.symm
    | snapshot => exact fun hX => hYX hX.symm

/-- What the steps that do not run `X` keep, once there is a fault. -/
def Faulted (s : Pipeline) : Prop := Sound s ∧ Engaged s ∧ s.layout.control.fault ≠ 0

theorem faulted_step {s s' : Pipeline} {X : Stage} {a : Act} (h : Faulted s) (hm : spares X a)
    (hs : s.step a = some s') : Faulted s' :=
  ⟨sound_step h.1 hs, engaged_step h.2.1 hs, fault_step h.2.2 hm hs⟩

/-- With `X` finished, the rest of compute ends with status 3. -/
theorem ends_of_draining {X : Stage} {s : Pipeline} (hf : Faulted s)
    (h : Draining (fun Y => Y = X) s) :
    Transition.CanReach step (spares X) (fun s' => s'.compute = .ended (.exited 3)) s := by
  have hends : Transition.CanReach step (spares X)
      (fun s' => s'.compute = .ended (.exited (exitCode s'.layout))) s :=
    (h.stages (spares_act X)).trans fun _ h' => h'.ends trivial trivial
  refine (hends.preserve (fun _ _ _ hp hm hs => faulted_step hp hm hs) hf).imp ?_
  rintro s' ⟨⟨_, _, hfault⟩, hend⟩
  simpa [exitCode, hfault] using hend

/--
**A fault restarts compute exactly when the silent stage has finished.** Whatever the
other threads, the main thread and the supervisor do, a stage that is stuck short of its
end holds up the join.
-/
theorem fault_restarts_iff {s : Pipeline} {p : Compute} (h : Reachable s)
    (hp : s.compute = .running p) (hf : s.layout.control.fault ≠ 0) (X : Stage) :
    Transition.CanReach step (spares X) (fun s' => s'.compute = .ended (.exited 3)) s
      ↔ p.finished X = true := by
  have hsound := sound_reachable h
  have hfaulted : Faulted s := ⟨hsound, engaged_reachable h, hf⟩
  constructor
  · -- a stage that is not finished never will be, and its join waits
    intro hcan
    by_contra hX
    exact no_end_of_waiting ⟨hsound, p, hp, by simpa using hX⟩ hcan
  · intro hX
    have hi := ingestDone_of_finished hsound (idle_reachable h) hp hX
    by_cases hstart : p.main = .crash ∨ p.main = .attach
    · have hattach : Transition.CanReach step (spares X) _ s := can_attach trivial hp hstart
      refine (hattach.preserve (fun _ _ _ hq hm hs => faulted_step hq hm hs) hfaulted).trans ?_
      rintro s' ⟨hf', rfl⟩
      refine ends_of_draining hf' ⟨hf'.1, hf'.2.1, hi, _, rfl, rfl, ?_⟩
      rintro Y rfl
      cases Y <;> exact hX
    · by_cases hexit : ∃ c, p.main = .exit c
      · -- past every join: the code was read from the fault flag
        obtain ⟨c, hc⟩ := hexit
        have hcode := (hsound.stages p hp).code c hc
        rw [if_pos hf] at hcode
        have hs : s.step .computeMain = some { s with compute := .ended (.exited 3) } := by
          simp [step, stepComputeMain, hp, hc, hcode]
        exact .step (a := .computeMain) trivial hs (.here rfl)
      · refine ends_of_draining hfaulted ⟨hsound, hfaulted.2.1, hi, p, hp, ?_, ?_⟩
        · unfold Compute.attached
          split
          · rename_i hm
            exact absurd (Or.inl hm) hstart
          · rename_i hm
            exact absurd (Or.inr hm) hstart
          · rename_i c hm
            exact absurd ⟨c, hm⟩ hexit
          · rfl
        · rintro Y rfl
          exact hX

/-- Compute is running with the fault flag set; tells whether the fast thread has finished. -/
def faultSeen (s : Pipeline) : Option Bool :=
  match s.compute with
  | .running p => if s.layout.control.fault = 1 then some (p.finished .fast) else none
  | _ => none

theorem running_of_faultSeen {s : Pipeline} {b : Bool} (h : s.faultSeen = some b) :
    ∃ p, s.compute = .running p ∧ s.layout.control.fault = 1 ∧ p.finished .fast = b := by
  unfold faultSeen at h
  split at h
  · rename_i p hp
    split at h
    · rename_i hf
      exact ⟨p, hp, hf, Option.some.inj h⟩
    · exact absurd h (by simp)
  · exact absurd h (by simp)

/-- The fast thread stores one heartbeat and is silent for a second, and the watchdog
takes a sample. -/
def fastSilent : List Act :=
  List.replicate 6 (Act.sup 7) ++ List.replicate 2 Act.computeMain ++ List.replicate 3 Act.fast
    ++ [Act.tick 1000000000] ++ List.replicate 9 Act.watchdog

/-- The fast thread was only late: ingest ends and the fast thread ends after it. -/
theorem fault_restarts_after_late_fast :
    ∃ s p, Reachable s ∧ s.compute = .running p ∧ s.layout.control.fault = 1
      ∧ p.finished .fast = true
      ∧ Transition.CanReach step (spares .fast) (fun s' => s'.compute = .ended (.exited 3)) s := by
  have h : (Transition.exec step (start [] 1) (fastSilent
      ++ [Act.ingestMain, .source, .source, .frames] ++ List.replicate 3 Act.ingestMain
      ++ List.replicate 6 Act.fast)).any (fun s => s.faultSeen == some true) = true := by
    decide +kernel
  obtain ⟨s, hrun, hs⟩ := Option.any_eq_true _ _ |>.mp h
  obtain ⟨p, hp, hf, hX⟩ := running_of_faultSeen (beq_iff_eq.mp hs)
  have hr : Reachable s :=
    Transition.Reachable.exec (fun _ _ => trivial) _ (.init ⟨_, _, rfl⟩) hrun
  have hf' : s.layout.control.fault ≠ 0 := by rw [hf]; decide
  exact ⟨s, p, hr, hp, hf, hX, (fault_restarts_iff hr hp hf' .fast).mpr hX⟩

/-- If instead it stays where it is, no restart follows. -/
theorem stuck_fast_never_restarts :
    ∃ s p, Reachable s ∧ s.compute = .running p ∧ s.layout.control.fault = 1
      ∧ ¬ Transition.CanReach step (spares .fast) (fun s' => s'.compute = .ended (.exited 3)) s := by
  have h : (Transition.exec step (start [] 1) fastSilent).any
      (fun s => s.faultSeen == some false) = true := by
    decide +kernel
  obtain ⟨s, hrun, hs⟩ := Option.any_eq_true _ _ |>.mp h
  obtain ⟨p, hp, hf, hX⟩ := running_of_faultSeen (beq_iff_eq.mp hs)
  have hr : Reachable s :=
    Transition.Reachable.exec (fun _ _ => trivial) _ (.init ⟨_, _, rfl⟩) hrun
  exact ⟨s, p, hr, hp, hf, no_end_of_waiting ⟨sound_reachable hr, p, hp, hX⟩⟩

end Pipeline

end RateHub
