import RateHub.Proof.Replayed

/-!
# Attempts that end before they begin

A compute attempt that cannot be spawned, is told to crash or cannot attach leaves nothing
behind: the mapping is as its constructor left it. So over one pipeline in which no compute
process is killed and none has ended with a fault, at most one attempt ever gets to work,
and it works alone. What it pops is all that is ever popped, and the snapshot it hands
over shows exactly the records it popped.
-/

namespace RateHub

/-- Past the attach. -/
def Compute.begun (p : Compute) : Bool :=
  match p.main with
  | .crash => false
  | .attach => false
  | _ => true

theorem Compute.begun_of_attached {p : Compute} (h : p.attached = true) : p.begun = true := by
  unfold Compute.attached at h
  unfold Compute.begun
  cases hm : p.main <;> simp [hm] at h ⊢

namespace Pipeline

/-- One pipeline, and nobody kills compute. -/
def orderly (_ : Pipeline) (a : Act) : Bool := decide (a ≠ .rerun) && decide (a ≠ .killCompute)

/-- The states of the orderly runs. -/
def ReachableOrderly : Pipeline → Prop :=
  Transition.Reachable step (fun s a => s.orderly a = true) Start

theorem ReachableOrderly.reachable {s : Pipeline} (h : ReachableOrderly s) : Reachable s :=
  h.mono fun _ _ _ => trivial

/-! ## The supervisor between two attempts -/

/-- The attempt that was waited for is over, and it failed. -/
def Failed (s : Pipeline) : Prop :=
  ∃ status, status ≠ 0 ∧ s.compute.wait = some status ∧ status ∈ s.exits

/-- What the supervisor knows of the last attempt, where it stands between two. -/
def Between (s : Pipeline) : Prop :=
  match s.sup with
  | .spawnIngest => s.compute = .unborn
  | .storeIngestPid _ => s.compute = .unborn
  | .spawnPublish => s.compute = .unborn
  | .storePublishPid _ => s.compute = .unborn
  | .storeComputeExit _ status => s.compute.wait = some status ∧ status ∈ s.exits
  | .addGeneration _ => Failed s
  | .spawnCompute _ => s.compute = .unborn ∨ Failed s
  | _ => True

/-- Compute does not move while the supervisor is not waiting for it. -/
theorem Between.frame {s s' : Pipeline} (h : Between s) (hsup : s'.sup = s.sup)
    (hc : s'.compute = s.compute) (hx : s'.exits = s.exits) : Between s' := by
  unfold Between Failed at h ⊢
  rw [hsup, hc, hx]
  exact h

theorem between_of_awaiting {s : Pipeline} (h : s.sup.awaiting = true) : Between s := by
  unfold Between
  cases hsup : s.sup <;> first | trivial | rw [hsup] at h; cases h

theorem Between.store {s : Pipeline} (h : Between s) {l' : Layout} {pc' : SupPc}
    (hs : supStep s.layout s.sup = some (l', pc')) :
    Between { s with layout := l', sup := pc' } := by
  unfold Between at h ⊢
  cases hsup : s.sup with
  | storeIngestPid pid =>
      simp only [hsup, supStep, Option.some.injEq, Prod.mk.injEq] at hs h
      rw [← hs.2]
      exact h
  | storePublishPid pid =>
      simp only [hsup, supStep, Option.some.injEq, Prod.mk.injEq] at hs h
      rw [← hs.2]
      exact Or.inl h
  | storeComputeExit n status =>
      simp only [hsup, supStep, Option.some.injEq, Prod.mk.injEq] at hs h
      rw [← hs.2]
      unfold SupPc.afterCompute
      by_cases hzero : status = 0
      · rw [if_pos hzero]
        trivial
      · rw [if_neg hzero]
        by_cases hlast : n = kMaxComputeAttempts
        · rw [if_pos hlast]
          trivial
        · rw [if_neg hlast]
          exact ⟨status, hzero, h.1, h.2⟩
  | addGeneration n =>
      simp only [hsup, supStep, Option.some.injEq, Prod.mk.injEq] at hs h
      rw [← hs.2]
      exact Or.inr h
  | _ =>
      simp only [hsup, supStep, Option.some.injEq, Prod.mk.injEq, reduceCtorEq] at hs
      all_goals
        rw [← hs.2]
        trivial

theorem between_step {s s' : Pipeline} {a : Act} (h : Between s) (hsk : Skeleton s)
    (hs : s.step a = some s') : Between s' := by
  -- a step of compute finds the supervisor waiting
  have hrun : ∀ {p : Compute}, s.compute = .running p → s'.sup = s.sup → Between s' := by
    intro p hp hsup
    exact between_of_awaiting (by rw [hsup]; exact hsk.running p hp)
  cases move_of_step hs with
  | spawnIngest hsup =>
      unfold Between at h ⊢
      rw [hsup] at h
      exact h
  | noIngest hsup =>
      unfold Between at h ⊢
      rw [hsup] at h
      exact h
  | spawnPublish hsup =>
      unfold Between at h ⊢
      rw [hsup] at h
      exact h
  | noPublish hsup =>
      unfold Between at h ⊢
      rw [hsup] at h
      exact h
  | spawnCompute hsup => trivial
  | noCompute hsup => trivial
  | reapCompute hsup hw => exact ⟨hw, by simp⟩
  | reapIngest hsup hw => trivial
  | reapPublish hsup hw => trivial
  | rerun hsup => exact rfl
  | store hst => exact h.store hst
  | fast hp ha hst => exact hrun hp rfl
  | window hp ha hst => exact hrun hp rfl
  | snapshot hp ha hpc hst => exact hrun hp rfl
  | handOver hp ha hpc hst => exact hrun hp rfl
  | watchdog hp ha hst => exact hrun hp rfl
  | computeMain hp hst => exact hrun hp rfl
  | computeExit hp hm => exact hrun hp rfl
  | computeCrash hp hm => exact hrun hp rfl
  | computeRefused hp hm => exact hrun hp rfl
  | killCompute hp => exact hrun hp rfl
  | _ => exact h.frame rfl rfl rfl

theorem between_reachable {s : Pipeline} (h : Reachable s) : Between s := by
  induction h with
  | init hstart =>
      obtain ⟨replay, clock, rfl⟩ := hstart
      exact rfl
  | tail hr _ hs ih => exact between_step ih (sound_reachable hr).skeleton hs

/-! ## One attempt at work -/

/-- No attempt has got to work. -/
structure Unused (s : Pipeline) : Prop where
  layout : s.layout.Untouched
  popped : s.layout.ring.popped = []
  handed : s.handed = []

/-- The attempt at work: what it integrated is all that was popped. -/
structure Works (s : Pipeline) (p : Compute) : Prop where
  integrated : p.fast.integrated = s.layout.ring.popped
  current : Current s.layout p.fast
  handed : s.handed = if p.snapshot.pc.handed then [(s.attempt, p.snapshot.snap)] else []

/-- The number of the last attempt made. -/
def lastAttempt (s : Pipeline) : Nat := if s.sup.awaiting then s.attempt else s.exits.length

/-- The attempt that got to work has ended: its snapshot shows what was popped. -/
def Worked (s : Pipeline) : Prop :=
  s.handed = [(s.lastAttempt, expected s.lastAttempt s.layout.ring.popped)]

/-- At most one attempt gets to work. -/
def OneWorker (s : Pipeline) : Prop :=
  match s.compute with
  | .running p => if p.begun then Works s p else Unused s ∧ p = { Compute.init with main := p.main }
  | .ended (.exited code) => (Unused s ∧ (code = 1 ∨ code = 2)) ∨ ((code = 0 ∨ code = 3) ∧ Worked s)
  | .ended .signaled => False
  | _ => Unused s

theorem Unused.frame {s s' : Pipeline} (h : Unused s)
    (hf : s'.layout.control.fastDone = s.layout.control.fastDone)
    (hl : s'.layout.latest = s.layout.latest) (hw : s'.layout.window = s.layout.window)
    (hr : s'.layout.ring.popped = s.layout.ring.popped) (hh : s'.handed = s.handed) : Unused s' :=
  ⟨⟨hf.trans h.layout.fastDone, hl.trans h.layout.latest, hw.trans h.layout.window⟩,
    hr.trans h.popped, hh.trans h.handed⟩

/-- A step that leaves compute and what it works on alone. -/
theorem OneWorker.frame {s s' : Pipeline} (h : OneWorker s) (hc : s'.compute = s.compute)
    (hf : s'.layout.control.fastDone = s.layout.control.fastDone)
    (hl : s'.layout.latest = s.layout.latest) (hw : s'.layout.window = s.layout.window)
    (hr : s'.layout.ring.popped = s.layout.ring.popped) (hh : s'.handed = s.handed)
    (hatt : ∀ p, s.compute = .running p → s'.attempt = s.attempt)
    (hlast : s'.lastAttempt = s.lastAttempt) : OneWorker s' := by
  unfold OneWorker at h ⊢
  rw [hc]
  cases hcom : s.compute with
  | running p =>
      simp only [hcom] at h ⊢
      split
      · rename_i hb
        rw [if_pos hb] at h
        refine ⟨h.integrated.trans hr.symm, ?_, ?_⟩
        · have hcur := h.current
          unfold Current at hcur ⊢
          rw [hl]
          exact hcur
        · rw [hh, hatt p hcom]
          exact h.handed
      · rename_i hb
        rw [if_neg hb] at h
        exact ⟨h.1.frame hf hl hw hr hh, h.2⟩
  | ended status =>
      cases status with
      | signaled =>
          simp only [hcom] at h
      | exited code =>
          simp only [hcom] at h ⊢
          refine h.imp (fun hu => ⟨hu.1.frame hf hl hw hr hh, hu.2⟩) (fun hu => ⟨hu.1, ?_⟩)
          unfold Worked
          rw [hh, hlast, hr]
          exact hu.2
  | unborn =>
      simp only [hcom] at h ⊢
      exact h.frame hf hl hw hr hh
  | failed =>
      simp only [hcom] at h ⊢
      exact h.frame hf hl hw hr hh

theorem lastAttempt_congr {s s' : Pipeline} (ha : s'.sup.awaiting = s.sup.awaiting)
    (hx : s'.exits = s.exits) : s'.lastAttempt = s.lastAttempt := by
  unfold lastAttempt attempt
  rw [ha, hx]

/-- A new attempt finds the mapping unused. -/
theorem unused_of_spawn {s : Pipeline} (h : OneWorker s) (hb : Between s) (hx : 3 ∉ s.exits)
    {n : Nat} (hsup : s.sup = .spawnCompute n) : Unused s := by
  unfold Between at hb
  rw [hsup] at hb
  unfold OneWorker at h
  rcases hb with hun | ⟨status, hne, hwait, hmem⟩
  · rw [hun] at h
    exact h
  · cases hcom : s.compute with
    | unborn =>
        rw [hcom] at hwait
        cases hwait
    | failed =>
        rw [hcom] at h
        exact h
    | running p =>
        rw [hcom] at hwait
        cases hwait
    | ended st =>
        cases st with
        | signaled =>
            simp only [hcom] at h
        | exited code =>
            simp only [hcom] at h
            rw [hcom] at hwait
            obtain rfl := Option.some.inj hwait
            rcases h with ⟨hu, _⟩ | ⟨hcode, _⟩
            · exact hu
            · rcases hcode with rfl | rfl
              · exact absurd rfl hne
              · exact absurd hmem hx

/-- An attempt that has handed its snapshot over has made it of the records it popped. -/
theorem Works.worked {s : Pipeline} {p : Compute} (h : Works s p) (hset : ReachableSettled s)
    (hp : s.compute = .running p) (hhanded : p.snapshot.pc.handed = true) :
    p.snapshot.snap = expected s.attempt s.layout.ring.popped := by
  obtain ⟨hst, hall⟩ := SnapshotPc.filled_of_handed hhanded
  obtain ⟨hgen, hrows⟩ := complete_of_filled hset hp hst hall
  have hlast := lastPass_reachable hset hp
  have hwin := hlast.windowDone (SnapshotPc.pastLoop_of_taken (hall ⟨0, by decide⟩))
  have hfast := hlast.fastDone (Or.inr (WindowPc.pastLast_of_isDone hwin))
  have hwork := working_reachable hset.reachable hp
  have hrows' : p.snapshot.snap.rows = (replayed s.layout.ring.popped).window := by
    funext id
    rw [hrows id, h.current.lastRow hwork hfast id, h.integrated]
  unfold expected
  rw [← hgen, ← hrows']

/-- A running attempt, before its attach and past it. -/
theorem oneWorker_running {s : Pipeline} {p : Compute} (hp : s.compute = .running p)
    (hno : p.begun = false → Unused s ∧ p = { Compute.init with main := p.main })
    (hyes : p.begun = true → Works s p) : OneWorker s := by
  unfold OneWorker
  simp only [hp]
  split
  · rename_i hb
    exact hyes hb
  · rename_i hb
    exact hno (by simpa using hb)

/-- An attempt past its attach. -/
theorem oneWorker_begun {s : Pipeline} {p : Compute} (hp : s.compute = .running p)
    (hb : p.begun = true) (h : Works s p) : OneWorker s :=
  oneWorker_running hp (fun hno => Bool.noConfusion (hb.symm.trans hno)) (fun _ => h)

theorem OneWorker.works {s : Pipeline} {p : Compute} (h : OneWorker s) (hp : s.compute = .running p)
    (hb : p.begun = true) : Works s p := by
  unfold OneWorker at h
  simpa only [hp, hb, if_true] using h

theorem OneWorker.unused {s : Pipeline} {p : Compute} (h : OneWorker s)
    (hp : s.compute = .running p) (hb : p.begun = false) :
    Unused s ∧ p = { Compute.init with main := p.main } := by
  unfold OneWorker at h
  simpa only [hp, hb, Bool.false_eq_true, if_false] using h

/-- A step of a thread of the attempt at work, other than the hand-over. -/
theorem Works.step {s : Pipeline} {p p' : Compute} {l' : Layout} (h : Works s p)
    (hint : p'.fast.integrated = l'.ring.popped) (hcur : Current l' p'.fast)
    (hpc : p'.snapshot.pc.handed = p.snapshot.pc.handed)
    (hsnap : p'.snapshot.pc.handed = true → p'.snapshot.snap = p.snapshot.snap) :
    Works (s.withCompute (l', p')) p' where
  integrated := hint
  current := hcur
  handed := by
    show s.handed = if p'.snapshot.pc.handed then [(s.attempt, p'.snapshot.snap)] else []
    rw [h.handed]
    cases hh : p'.snapshot.pc.handed with
    | true => rw [← hpc, hh, hsnap hh]
    | false => rw [← hpc, hh]; rfl

/-- **At most one attempt gets to work.** -/
theorem oneWorker_step {s s' : Pipeline} {a : Act} (h : OneWorker s) (hset : ReachableSettled s)
    (hx : 3 ∉ s.exits) (hok : s.orderly a = true) (hs : s.step a = some s') : OneWorker s' := by
  have hsound := sound_reachable hset
  have hb := between_reachable hset.reachable
  cases move_of_step hs with
  | rerun hsup => simp [orderly] at hok
  | killCompute hp => simp [orderly] at hok
  | spawnCompute hsup =>
      have hu := unused_of_spawn h hb hx hsup
      exact oneWorker_running rfl (fun _ => ⟨hu.frame rfl rfl rfl rfl rfl, rfl⟩)
        (fun hbegun => by cases hbegun)
  | noCompute hsup => exact (unused_of_spawn h hb hx hsup).frame rfl rfl rfl rfl rfl
  | reapCompute hsup hw =>
      refine h.frame rfl rfl rfl rfl rfl rfl ?_ ?_
      · intro p hp
        rw [hp] at hw
        cases hw
      · simp [lastAttempt, attempt, hsup, SupPc.awaiting]
  | fast hp ha hst =>
      have hbegun := Compute.begun_of_attached ha
      have hwork := h.works hp hbegun
      obtain ⟨new, hpop, hint⟩ := fastStep_integrated hst
      refine oneWorker_begun rfl hbegun (hwork.step ?_ ?_ rfl (fun _ => rfl))
      · rw [hint, hwork.integrated, hpop]
      · exact (fastMove hst).current hwork.current
  | window hp ha hst =>
      have hbegun := Compute.begun_of_attached ha
      have hwork := h.works hp hbegun
      obtain ⟨hb, ov, wd, wi, rfl⟩ := windowStep_layout hst
      exact oneWorker_begun rfl hbegun
        (hwork.step hwork.integrated hwork.current rfl (fun _ => rfl))
  | snapshot hp ha hpc hst =>
      have hbegun := Compute.begun_of_attached ha
      have hwork := h.works hp hbegun
      obtain ⟨hsame, _, hkeep⟩ := (snapshotMove hst).handed
      obtain ⟨hb, ov, sd, b, rfl⟩ := snapshotStep_layout hst
      exact oneWorker_begun rfl hbegun
        (hwork.step hwork.integrated hwork.current (hsame hpc) hkeep)
  | @handOver p l' t' hp ha hpc hst =>
      have hbegun := Compute.begun_of_attached ha
      have hwork := h.works hp hbegun
      obtain ⟨_, hexch, hkeep⟩ := (snapshotMove hst).handed
      have hempty : s.handed = [] := by
        rw [hwork.handed, hpc]
        rfl
      obtain ⟨hb, ov, sd, b, rfl⟩ := snapshotStep_layout hst
      refine oneWorker_begun rfl hbegun ⟨hwork.integrated, hwork.current, ?_⟩
      show s.handed ++ [(s.attempt, p.snapshot.snap)]
        = if t'.pc.handed then [(s.attempt, t'.snap)] else []
      rw [hempty, hexch hpc, hkeep (hexch hpc)]
      rfl
  | watchdog hp ha hst =>
      have hbegun := Compute.begun_of_attached ha
      have hwork := h.works hp hbegun
      obtain ⟨f, rfl⟩ := watchdogStep_layout hst
      exact oneWorker_begun rfl hbegun
        (hwork.step hwork.integrated hwork.current rfl (fun _ => rfl))
  | @computeMain p l' pc' hp hst =>
      obtain ⟨cd, hl⟩ := computeMainStep_layout hst
      cases hbegun : p.begun with
      | true =>
          have hwork := h.works hp hbegun
          have hnext : ({ p with main := pc' } : Compute).begun = true := by
            unfold computeMainStep at hst
            unfold Compute.begun at hbegun
            cases hm : p.main <;> simp only [hm, reduceCtorEq, Bool.false_eq_true] at hst hbegun
            all_goals (try split at hst)
            all_goals simp only [Option.some.injEq, Prod.mk.injEq, reduceCtorEq] at hst
            all_goals rw [← hst.2]; rfl
          subst hl
          exact oneWorker_begun rfl hnext
            (hwork.step hwork.integrated hwork.current rfl (fun _ => rfl))
      | false =>
          obtain ⟨hu, hinit⟩ := h.unused hp hbegun
          have hu' : Unused (s.withCompute (l', { p with main := pc' })) :=
            hu.frame (by rw [hl]; rfl) (by rw [hl]; rfl) (by rw [hl]; rfl) (by rw [hl]; rfl) rfl
          have hfast : p.fast = Fast.init := by rw [hinit]; rfl
          have hsnap : p.snapshot = SnapshotThread.init := by rw [hinit]; rfl
          refine oneWorker_running rfl (fun _ => ⟨hu', ?_⟩) (fun _ => ⟨?_, ?_, ?_⟩)
          · rw [hinit]
          · show p.fast.integrated = _
            rw [hu'.popped, hfast]
            rfl
          · show Current l' p.fast
            rw [hfast]
            exact current_init hu'.layout.latest
          · show _ = if p.snapshot.pc.handed then _ else _
            rw [hu'.handed, hsnap]
            rfl
  | @computeExit p code hp hm =>
      have hbegun : p.begun = true := by simp [Compute.begun, hm]
      have hwork := h.works hp hbegun
      have hst := hsound.stages p hp
      have hhanded := SnapshotPc.handed_of_isDone (hst.joinedSnapshot (by rw [hm]; exact Nat.le_add_left 3 1))
      have hlast : s.lastAttempt = s.attempt := if_pos (hsound.skeleton.running p hp)
      refine Or.inr ⟨?_, ?_⟩
      · rw [hst.code code hm]
        split
        · exact Or.inr rfl
        · exact Or.inl rfl
      · show s.handed = [(s.lastAttempt, expected s.lastAttempt s.layout.ring.popped)]
        rw [hlast, hwork.handed, if_pos hhanded, hwork.worked hset hp hhanded]
  | @computeCrash p hp hm =>
      obtain ⟨hu, _⟩ := h.unused hp (by simp [Compute.begun, hm])
      exact Or.inl ⟨hu.frame rfl rfl rfl rfl rfl, Or.inr rfl⟩
  | @computeRefused p hp hm =>
      obtain ⟨hu, _⟩ := h.unused hp (by simp [Compute.begun, hm])
      exact Or.inl ⟨hu.frame rfl rfl rfl rfl rfl, Or.inl rfl⟩
  | spawnIngest hsup =>
      exact h.frame rfl rfl rfl rfl rfl rfl (fun _ _ => rfl)
        (lastAttempt_congr (by rw [hsup]; rfl) rfl)
  | noIngest hsup =>
      exact h.frame rfl rfl rfl rfl rfl rfl (fun _ _ => rfl)
        (lastAttempt_congr (by rw [hsup]; rfl) rfl)
  | spawnPublish hsup =>
      exact h.frame rfl rfl rfl rfl rfl rfl (fun _ _ => rfl)
        (lastAttempt_congr (by rw [hsup]; rfl) rfl)
  | noPublish hsup =>
      exact h.frame rfl rfl rfl rfl rfl rfl (fun _ _ => rfl)
        (lastAttempt_congr (by rw [hsup]; rfl) rfl)
  | reapIngest hsup hw =>
      exact h.frame rfl rfl rfl rfl rfl rfl (fun _ _ => rfl)
        (lastAttempt_congr (by rw [hsup]; rfl) rfl)
  | reapPublish hsup hw =>
      exact h.frame rfl rfl rfl rfl rfl rfl (fun _ _ => rfl)
        (lastAttempt_congr (by rw [hsup]; rfl) rfl)
  | store hst =>
      have hstored := supStep_stored hst
      obtain ⟨sh, g, sv, rfl⟩ := hstored.layout
      exact h.frame rfl rfl rfl rfl rfl rfl (fun _ _ => rfl)
        (lastAttempt_congr hstored.awaiting rfl)
  | source hp hm hst =>
      obtain ⟨n, rfl⟩ := Ingest.stepSource_layout hst
      exact h.frame rfl rfl rfl rfl rfl rfl (fun _ _ => rfl) rfl
  | frames hp hm hst =>
      have hpop := Ingest.stepFrames_popped hst
      obtain ⟨r, rfl⟩ := Ingest.stepFrames_layout hst
      exact h.frame rfl rfl rfl rfl hpop rfl (fun _ _ => rfl) rfl
  | ingestMain hp hst =>
      obtain ⟨n, rfl⟩ := Ingest.stepMain_layout hst
      exact h.frame rfl rfl rfl rfl rfl rfl (fun _ _ => rfl) rfl
  | publish hp hw hst =>
      obtain ⟨hb, b, rfl⟩ := Publish.step_layout hst
      exact h.frame rfl rfl rfl rfl rfl rfl (fun _ _ => rfl) rfl
  | _ => exact h.frame rfl rfl rfl rfl rfl rfl (fun _ _ => rfl) rfl

/-- The list of statuses only grows. -/
theorem exits_subset {s s' : Pipeline} {a : Act} (hs : s.step a = some s') :
    s.exits ⊆ s'.exits := by
  cases move_of_step hs with
  | reapCompute hsup hw => exact List.subset_append_left _ _
  | _ => exact fun _ h => h

/-- **In an orderly run without a fault**, every attempt starts on a settled mapping and at
most one gets to work. -/
theorem oneWorker_reachable {s : Pipeline} (h : ReachableOrderly s) (hx : 3 ∉ s.exits) :
    ReachableSettled s ∧ OneWorker s := by
  induction h with
  | init hstart =>
      refine ⟨.init hstart, ?_⟩
      obtain ⟨replay, clock, rfl⟩ := hstart
      exact ⟨⟨rfl, rfl, rfl⟩, rfl, rfl⟩
  | @tail s s' a hr hok hs ih =>
      have hx' : 3 ∉ s.exits := fun hmem => hx (exits_subset hs hmem)
      obtain ⟨hset, hone⟩ := ih hx'
      refine ⟨hset.tail ?_ hs, oneWorker_step hone hset hx' hok hs⟩
      cases a with
      | sup pid =>
          cases hsup : s.sup with
          | spawnCompute n =>
              have hu := unused_of_spawn hone (between_reachable hset.reachable) hx' hsup
              simp [startsSettled, hsup, hu.layout.fastDone, hu.layout.settled]
          | _ => simp [startsSettled, hsup]
      | _ => rfl

end Pipeline

end RateHub
