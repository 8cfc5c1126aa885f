import RateHub.Proof.StageMoves
import RateHub.Proof.System

/-!
# The system, seen from compute

Most invariants of a compute attempt are about the attempt's threads, the words of the
control block they share and the slots they publish to. From there the system can do
little: the attempt starts, one of its threads moves, it ends, the supervisor reaps it,
a rerun clears the control block, or something happens that compute does not see.
`AttemptMove` lists these.
-/

namespace RateHub

namespace Pipeline

/-- What a step that compute does not see leaves alone. -/
structure Unseen (s s' : Pipeline) : Prop where
  compute : s'.compute = s.compute
  exits : s'.exits = s.exits
  handed : s'.handed = s.handed
  clock : s.clock ≤ s'.clock
  fastDone : s'.layout.control.fastDone = s.layout.control.fastDone
  windowDone : s'.layout.control.windowDone = s.layout.control.windowDone
  snapshotDone : s'.layout.control.snapshotDone = s.layout.control.snapshotDone
  computeDone : s'.layout.control.computeDone = s.layout.control.computeDone
  fault : s'.layout.control.fault = s.layout.control.fault
  heartbeatFast : s'.layout.control.heartbeatFast = s.layout.control.heartbeatFast
  heartbeatWindow : s'.layout.control.heartbeatWindow = s.layout.control.heartbeatWindow
  heartbeatSnapshot : s'.layout.control.heartbeatSnapshot = s.layout.control.heartbeatSnapshot
  latest : s'.layout.latest = s.layout.latest
  window : s'.layout.window = s.layout.window

/-- The ways a step can concern compute. The state after a thread's step is given by the
parts compute knows of. -/
inductive AttemptMove (s : Pipeline) (a : Act) (s' : Pipeline) : Prop
  | unseen (h : Unseen s s')
  | rerun (hl : s'.layout = resetControl s.layout) (hc : s'.compute = .unborn)
      (hx : s'.exits = s.exits) (hh : s'.handed = s.handed) (hk : s'.clock = s.clock)
  | spawn {n : Nat} {pid : UInt32} (hact : a = .sup pid) (hsup : s.sup = .spawnCompute n)
      (hl : s'.layout = s.layout) (hc : s'.compute = .running Compute.init)
      (hx : s'.exits = s.exits) (hh : s'.handed = s.handed) (hk : s'.clock = s.clock)
  | noSpawn {n : Nat} (hsup : s.sup = .spawnCompute n) (hl : s'.layout = s.layout)
      (hc : s'.compute = .failed) (hx : s'.exits = s.exits) (hh : s'.handed = s.handed)
      (hk : s'.clock = s.clock)
  | reap {status : UInt32} (hw : s.compute.wait = some status) (hl : s'.layout = s.layout)
      (hc : s'.compute = s.compute) (hx : s'.exits = s.exits ++ [status])
      (hh : s'.handed = s.handed) (hk : s'.clock = s.clock)
  | fast {p : Compute} {t' : Fast} (hact : a = .fast) (hp : s.compute = .running p)
      (ha : p.attached = true) (h : FastMove s.clock s.layout p.fast s'.layout t')
      (hc : s'.compute = .running { p with fast := t' }) (hx : s'.exits = s.exits)
      (hh : s'.handed = s.handed) (hk : s'.clock = s.clock)
  | window {p : Compute} {t' : Window} (hact : a = .window) (hp : s.compute = .running p)
      (ha : p.attached = true) (h : WindowMove s.clock s.layout p.window s'.layout t')
      (hc : s'.compute = .running { p with window := t' }) (hx : s'.exits = s.exits)
      (hh : s'.handed = s.handed) (hk : s'.clock = s.clock)
  | snapshot {p : Compute} {t' : SnapshotThread} (hact : a = .snapshot)
      (hp : s.compute = .running p) (ha : p.attached = true)
      (h : SnapshotMove s.clock s.layout p.snapshot s'.layout t')
      (hc : s'.compute = .running { p with snapshot := t' }) (hx : s'.exits = s.exits)
      (hh : (p.snapshot.pc ≠ .publish .exchange ∧ s'.handed = s.handed)
        ∨ (p.snapshot.pc = .publish .exchange
            ∧ s'.handed = s.handed ++ [(s.attempt, p.snapshot.snap)]))
      (hk : s'.clock = s.clock)
  | watchdog {p : Compute} {pc' : WatchdogPc} (hact : a = .watchdog) (hp : s.compute = .running p)
      (ha : p.attached = true) (h : WatchdogMove s.clock s.layout p.watchdog s'.layout pc')
      (hc : s'.compute = .running { p with watchdog := pc' }) (hx : s'.exits = s.exits)
      (hh : s'.handed = s.handed) (hk : s'.clock = s.clock)
  | main {p : Compute} {pc' : ComputeMainPc} (hact : a = .computeMain)
      (hp : s.compute = .running p) (h : computeMainStep s.layout p = some (s'.layout, pc'))
      (hc : s'.compute = .running { p with main := pc' }) (hx : s'.exits = s.exits)
      (hh : s'.handed = s.handed) (hk : s'.clock = s.clock)
  | ended {p : Compute} {status : WaitStatus} (hp : s.compute = .running p)
      (hcode : ∀ code, status = .exited code → p.main = .exit code ∨ code = 1 ∨ code = 2)
      (hl : s'.layout = s.layout) (hc : s'.compute = .ended status) (hx : s'.exits = s.exits)
      (hh : s'.handed = s.handed) (hk : s'.clock = s.clock)

variable {s s' : Pipeline}

/-- A step that moves none of the parts compute knows of. -/
theorem unseen_of_layout (hcom : s'.compute = s.compute) (hx : s'.exits = s.exits)
    (hh : s'.handed = s.handed) (hk : s.clock ≤ s'.clock)
    (hl : ∃ sh g di hi hp sv r b, s'.layout =
      { s.layout with
        control := { s.layout.control with shutdown := sh, generation := g, ingestDone := di
                                           heartbeatIngest := hi, heartbeatPublish := hp }
        supervisor := sv, ring := r, snapshots := b }) : Unseen s s' := by
  obtain ⟨sh, g, di, hi, hp, sv, r, b, hl⟩ := hl
  exact ⟨hcom, hx, hh, hk, by rw [hl], by rw [hl], by rw [hl], by rw [hl], by rw [hl], by rw [hl],
    by rw [hl], by rw [hl], by rw [hl], by rw [hl]⟩

/-- **Every step is one of these.** -/
theorem attemptMove {a : Act} (h : s.step a = some s') : AttemptMove s a s' := by
  have hrefl : s.clock ≤ s.clock := UInt64.le_refl _
  cases move_of_step h with
  | tick hle => exact .unseen (unseen_of_layout rfl rfl rfl hle ⟨_, _, _, _, _, _, _, _, rfl⟩)
  | spawnCompute hsup => exact .spawn rfl hsup rfl rfl rfl rfl rfl
  | noCompute hsup => exact .noSpawn hsup rfl rfl rfl rfl rfl
  | reapCompute hsup hw => exact .reap hw rfl rfl rfl rfl rfl
  | rerun hsup => exact .rerun rfl rfl rfl rfl rfl
  | fast hp ha hst => exact .fast rfl hp ha (fastMove hst) rfl rfl rfl rfl
  | window hp ha hst => exact .window rfl hp ha (windowMove hst) rfl rfl rfl rfl
  | snapshot hp ha hpc hst =>
      exact .snapshot rfl hp ha (snapshotMove hst) rfl rfl (Or.inl ⟨hpc, rfl⟩) rfl
  | handOver hp ha hpc hst =>
      exact .snapshot rfl hp ha (snapshotMove hst) rfl rfl (Or.inr ⟨hpc, rfl⟩) rfl
  | watchdog hp ha hst => exact .watchdog rfl hp ha (watchdogMove hst) rfl rfl rfl rfl
  | computeMain hp hst => exact .main rfl hp hst rfl rfl rfl rfl
  | computeExit hp hm =>
      exact .ended hp (fun code hc => Or.inl (by rw [hm, WaitStatus.exited.inj hc])) rfl rfl rfl
        rfl rfl
  | computeCrash hp hm =>
      exact .ended hp (fun code hc => Or.inr (Or.inr (WaitStatus.exited.inj hc).symm)) rfl rfl rfl
        rfl rfl
  | computeRefused hp hm =>
      exact .ended hp (fun code hc => Or.inr (Or.inl (WaitStatus.exited.inj hc).symm)) rfl rfl rfl
        rfl rfl
  | killCompute hp => exact .ended hp (fun code hc => by cases hc) rfl rfl rfl rfl rfl
  | store hst =>
      obtain ⟨sh, g, sv, rfl⟩ := (supStep_stored hst).layout
      exact .unseen (unseen_of_layout rfl rfl rfl hrefl ⟨_, _, _, _, _, _, _, _, rfl⟩)
  | source hp hm hst =>
      obtain ⟨n, rfl⟩ := Ingest.stepSource_layout hst
      exact .unseen (unseen_of_layout rfl rfl rfl hrefl ⟨_, _, _, _, _, _, _, _, rfl⟩)
  | frames hp hm hst =>
      obtain ⟨r, rfl⟩ := Ingest.stepFrames_layout hst
      exact .unseen (unseen_of_layout rfl rfl rfl hrefl ⟨_, _, _, _, _, _, _, _, rfl⟩)
  | ingestMain hp hst =>
      obtain ⟨n, rfl⟩ := Ingest.stepMain_layout hst
      exact .unseen (unseen_of_layout rfl rfl rfl hrefl ⟨_, _, _, _, _, _, _, _, rfl⟩)
  | publish hp hw hst =>
      obtain ⟨hb, b, rfl⟩ := Publish.step_layout hst
      exact .unseen (unseen_of_layout rfl rfl rfl hrefl ⟨_, _, _, _, _, _, _, _, rfl⟩)
  | _ => exact .unseen (unseen_of_layout rfl rfl rfl hrefl ⟨_, _, _, _, _, _, _, _, rfl⟩)

/-- The ways a step can end with compute running: it started just now, one of its threads
moved, or the step does not concern it. -/
inductive RunningMove (s : Pipeline) (a : Act) (s' : Pipeline) : Compute → Prop
  | unseen {p : Compute} (hp : s.compute = .running p) (h : Unseen s s') : RunningMove s a s' p
  | spawn {n : Nat} {pid : UInt32} (hact : a = .sup pid) (hsup : s.sup = .spawnCompute n)
      (hl : s'.layout = s.layout) (hc : s'.compute = .running Compute.init) :
      RunningMove s a s' Compute.init
  | fast {p : Compute} {t' : Fast} (hact : a = .fast) (hp : s.compute = .running p)
      (h : FastMove s.clock s.layout p.fast s'.layout t')
      (hc : s'.compute = .running { p with fast := t' }) : RunningMove s a s' { p with fast := t' }
  | window {p : Compute} {t' : Window} (hact : a = .window) (hp : s.compute = .running p)
      (h : WindowMove s.clock s.layout p.window s'.layout t')
      (hc : s'.compute = .running { p with window := t' }) :
      RunningMove s a s' { p with window := t' }
  | snapshot {p : Compute} {t' : SnapshotThread} (hact : a = .snapshot)
      (hp : s.compute = .running p) (h : SnapshotMove s.clock s.layout p.snapshot s'.layout t')
      (hc : s'.compute = .running { p with snapshot := t' }) :
      RunningMove s a s' { p with snapshot := t' }
  | watchdog {p : Compute} {pc' : WatchdogPc} (hact : a = .watchdog) (hp : s.compute = .running p)
      (h : WatchdogMove s.clock s.layout p.watchdog s'.layout pc')
      (hc : s'.compute = .running { p with watchdog := pc' }) :
      RunningMove s a s' { p with watchdog := pc' }
  | main {p : Compute} {pc' : ComputeMainPc} (hact : a = .computeMain)
      (hp : s.compute = .running p) (h : computeMainStep s.layout p = some (s'.layout, pc'))
      (hc : s'.compute = .running { p with main := pc' }) :
      RunningMove s a s' { p with main := pc' }

theorem runningMove {a : Act} {q : Compute} (h : s.step a = some s')
    (hq : s'.compute = .running q) : RunningMove s a s' q := by
  have hnot : ∀ {c : Child Compute}, s'.compute = c → c ≠ .running q → RunningMove s a s' q := by
    intro c hc hne
    exact absurd (hc.symm.trans hq) hne
  cases attemptMove h with
  | unseen hu => exact .unseen (hu.compute ▸ hq) hu
  | rerun hl hc => exact hnot hc (by simp)
  | noSpawn hsup hl hc => exact hnot hc (by simp)
  | ended hp hcode hl hc => exact hnot hc (by simp)
  | reap hw hl hc =>
      -- a child that was waited for does not run
      rw [← hc, hq] at hw
      cases hw
  | spawn hact hsup hl hc =>
      obtain rfl := Child.running_unique hc hq
      exact .spawn hact hsup hl hc
  | fast hact hp ha hm hc =>
      obtain rfl := Child.running_unique hc hq
      exact .fast hact hp hm hc
  | window hact hp ha hm hc =>
      obtain rfl := Child.running_unique hc hq
      exact .window hact hp hm hc
  | snapshot hact hp ha hm hc =>
      obtain rfl := Child.running_unique hc hq
      exact .snapshot hact hp hm hc
  | watchdog hact hp ha hm hc =>
      obtain rfl := Child.running_unique hc hq
      exact .watchdog hact hp hm hc
  | main hact hp hm hc =>
      obtain rfl := Child.running_unique hc hq
      exact .main hact hp hm hc

end Pipeline

end RateHub
