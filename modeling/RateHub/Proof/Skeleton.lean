import RateHub.Proof.Moves

/-!
# The supervisor and its children

Where the supervisor stands decides which children can exist and what the shutdown
flag is: compute runs only between its spawn and the end of the wait for it, and the
flag is set exactly from its store on. So while compute runs, the flag is clear.
-/

namespace RateHub

/-- Past the store of `shutdown`. -/
def SupPc.stopping : SupPc → Bool
  | .waitIngest _ => true
  | .storeIngestExit _ _ => true
  | .waitPublish _ _ => true
  | .storePublishExit _ _ _ => true
  | .returned _ => true
  | _ => false

/-- Between the spawn of a compute attempt and the end of the wait for it. -/
def SupPc.awaiting : SupPc → Bool
  | .storeComputePid _ _ => true
  | .waitCompute _ => true
  | _ => false

/-- Before the spawn of publish. -/
def SupPc.beforePublish : SupPc → Bool
  | .spawnIngest => true
  | .spawnPublish => true
  | .storeIngestPid _ => true
  | _ => false

/-- The loop counter is in range. -/
def SupPc.Counts : SupPc → Prop
  | .spawnCompute n => 1 ≤ n ∧ n ≤ kMaxComputeAttempts
  | .storeComputePid n _ => 1 ≤ n ∧ n ≤ kMaxComputeAttempts
  | .waitCompute n => 1 ≤ n ∧ n ≤ kMaxComputeAttempts
  | .storeComputeExit n _ => 1 ≤ n ∧ n ≤ kMaxComputeAttempts
  | .addGeneration n => 1 ≤ n ∧ n < kMaxComputeAttempts
  | _ => True

theorem Child.wait_zero {P : Type} {c : Child P} (h : c.wait = some 0) :
    c = .ended (.exited 0) := by
  cases c with
  | unborn => simp [Child.wait] at h
  | failed => simp [Child.wait] at h
  | running p => simp [Child.wait] at h
  | ended status =>
      cases status with
      | exited code =>
          simp only [Child.wait, Option.some.injEq] at h
          rw [h]
      | signaled => simp [Child.wait] at h

theorem Child.running_unique {P : Type} {c : Child P} {p q : P} (hp : c = .running p)
    (hq : c = .running q) : q = p :=
  Child.running.inj (hq.symm.trans hp)

/-- A child that runs on with a part of it as it was. -/
theorem Child.runs_on {P β : Type} {c c' : Child P} {p q : P} (f : P → β) (hp : c = .running p)
    (hq : c' = .running q) (hf : f q = f p) :
    ∀ q', c' = .running q' → ∃ p', c = .running p' ∧ f q' = f p' := by
  intro q' hq'
  obtain rfl := Child.running_unique hq hq'
  exact ⟨p, hp, hf⟩

/-- A child that a step did not start, with `f` of its state as it was. -/
structure Child.Keeps {P β : Type} (f : P → β) (c c' : Child P) : Prop where
  unborn : c' = .unborn → c = .unborn
  running : ∀ p', c' = .running p' → ∃ p, c = .running p ∧ f p' = f p

namespace Child

variable {P β : Type} {f : P → β} {c : Child P}

theorem Keeps.refl : c.Keeps f c := ⟨id, fun p' hp' => ⟨p', hp', rfl⟩⟩

theorem Keeps.ended {status : WaitStatus} : c.Keeps f (.ended status) := ⟨by simp, by simp⟩

theorem Keeps.failed : c.Keeps f .failed := ⟨by simp, by simp⟩

theorem Keeps.runs {p p' : P} (hp : c = .running p) (hf : f p' = f p) : c.Keeps f (.running p') :=
  ⟨by simp, Child.runs_on f hp rfl hf⟩

end Child

namespace Pipeline

structure Skeleton (s : Pipeline) : Prop where
  /-- The flag is set exactly from its store on. -/
  shutdown : s.layout.control.shutdown ≠ 0 ↔ s.sup.stopping = true
  ingest : s.ingest = .unborn ↔ s.sup = .spawnIngest
  publish : s.publish = .unborn ↔ s.sup.beforePublish = true
  /-- Compute runs only while the supervisor is about to wait for it. -/
  running : ∀ p, s.compute = .running p → s.sup.awaiting = true
  spawned : s.sup.awaiting = true → s.compute ≠ .unborn
  counts : s.sup.Counts

theorem skeleton_start (replay : List UInt8) (clock : UInt64) : Skeleton (start replay clock) where
  shutdown := by simp [start, Layout.init, SupPc.stopping]
  ingest := by simp [start]
  publish := by simp [start, SupPc.beforePublish]
  running := by intro p h; cases h
  spawned := by intro h; cases h
  counts := trivial

/-- A step that moves neither the supervisor nor the flag, and starts no child. -/
theorem Skeleton.frame {s s' : Pipeline} (h : Skeleton s) (hsup : s'.sup = s.sup)
    (hflag : s'.layout.control.shutdown = s.layout.control.shutdown)
    (hi : s'.ingest = .unborn ↔ s.ingest = .unborn)
    (hp : s'.publish = .unborn ↔ s.publish = .unborn)
    (hr : ∀ p', s'.compute = .running p' → ∃ p, s.compute = .running p)
    (hu : s'.compute = .unborn → s.compute = .unborn) : Skeleton s' where
  shutdown := by rw [hflag, hsup]; exact h.shutdown
  ingest := by rw [hi, hsup]; exact h.ingest
  publish := by rw [hp, hsup]; exact h.publish
  running := by
    intro p' hp'
    obtain ⟨p, hrun⟩ := hr p' hp'
    rw [hsup]
    exact h.running p hrun
  spawned := by
    intro ha hun
    rw [hsup] at ha
    exact h.spawned ha (hu hun)
  counts := by rw [hsup]; exact h.counts

/-- A step of one of ingest's threads. -/
theorem Skeleton.withIngest {s : Pipeline} (h : Skeleton s) {p p' : Ingest}
    (hp : s.ingest = .running p) {l' : Layout}
    (hflag : l'.control.shutdown = s.layout.control.shutdown) :
    Skeleton (s.withIngest (l', p')) :=
  h.frame rfl hflag (by simp [Pipeline.withIngest, hp]) Iff.rfl (fun p' hp' => ⟨p', hp'⟩) id

/-- Ingest ends. -/
theorem Skeleton.endIngest {s : Pipeline} (h : Skeleton s) {p : Ingest}
    (hp : s.ingest = .running p) (status : WaitStatus) :
    Skeleton { s with ingest := .ended status } :=
  h.frame rfl rfl (by simp [hp]) Iff.rfl (fun p' hp' => ⟨p', hp'⟩) id

/-- A step of one of compute's threads. -/
theorem Skeleton.withCompute {s : Pipeline} (h : Skeleton s) {p p' : Compute}
    (hp : s.compute = .running p) {l' : Layout}
    (hflag : l'.control.shutdown = s.layout.control.shutdown) :
    Skeleton (s.withCompute (l', p')) :=
  h.frame rfl hflag Iff.rfl Iff.rfl (fun _ _ => ⟨p, hp⟩) (fun hu => by cases hu)

/-- Compute ends. -/
theorem Skeleton.endCompute {s : Pipeline} (h : Skeleton s) {p : Compute}
    (hp : s.compute = .running p) (status : WaitStatus) :
    Skeleton { s with compute := .ended status } :=
  h.frame rfl rfl Iff.rfl Iff.rfl (fun _ _ => ⟨p, hp⟩) (fun hu => by cases hu)

/-- A step of publish. -/
theorem Skeleton.withPublish {s : Pipeline} (h : Skeleton s) {p p' : Publish}
    (hp : s.publish = .running p) {l' : Layout}
    (hflag : l'.control.shutdown = s.layout.control.shutdown) :
    Skeleton (s.withPublish (l', p')) :=
  h.frame rfl hflag Iff.rfl (by simp [Pipeline.withPublish, hp]) (fun p' hp' => ⟨p', hp'⟩) id

/-- Publish ends. -/
theorem Skeleton.endPublish {s : Pipeline} (h : Skeleton s) {p : Publish}
    (hp : s.publish = .running p) (status : WaitStatus) :
    Skeleton { s with publish := .ended status } :=
  h.frame rfl rfl Iff.rfl (by simp [hp]) (fun p' hp' => ⟨p', hp'⟩) id

/-- The history and the output file play no part in it. -/
theorem Skeleton.hand {s : Pipeline} (h : Skeleton s) (snap : Snapshot) : Skeleton (s.hand snap) :=
  h.frame rfl rfl Iff.rfl Iff.rfl (fun p' hp' => ⟨p', hp'⟩) id

theorem Skeleton.openOut {s : Pipeline} (h : Skeleton s) : Skeleton s.openOut :=
  h.frame rfl rfl Iff.rfl Iff.rfl (fun p' hp' => ⟨p', hp'⟩) id

theorem Skeleton.write {s : Pipeline} (h : Skeleton s) (last : Snapshot) :
    Skeleton (s.write last) :=
  h.frame rfl rfl Iff.rfl Iff.rfl (fun p' hp' => ⟨p', hp'⟩) id

end Pipeline

/-- Publish works on the triple buffer and its heartbeat. -/
theorem Publish.step_layout {l l' : Layout} {p p' : Publish} (h : p.step l = some (l', p')) :
    ∃ hb b, l' = { l with control := { l.control with heartbeatPublish := hb }
                          snapshots := b } := by
  unfold Publish.step at h
  repeat' split at h
  all_goals simp only [Option.some.injEq, Prod.mk.injEq, reduceCtorEq] at h
  all_goals exact ⟨_, _, h.1.symm⟩

/-- What a store of the supervisor does to where it stands and to the flag. -/
structure SupStored (l l' : Layout) (pc pc' : SupPc) : Prop where
  from_ne : pc ≠ .spawnIngest
  to_ne : pc' ≠ .spawnIngest
  publish : pc'.beforePublish = pc.beforePublish
  awaiting : pc'.awaiting = pc.awaiting
  counts : pc.Counts → pc'.Counts
  shutdown : (l'.control.shutdown = l.control.shutdown ∧ pc'.stopping = pc.stopping)
    ∨ (l'.control.shutdown = 1 ∧ pc'.stopping = true)
  layout : ∃ sh g sv, l' = { l with control := { l.control with shutdown := sh, generation := g }
                                    supervisor := sv }

theorem supStep_stored {l l' : Layout} {pc pc' : SupPc} (h : supStep l pc = some (l', pc')) :
    SupStored l l' pc pc' := by
  cases pc with
  | storeComputeExit n status =>
      simp only [supStep, Option.some.injEq, Prod.mk.injEq] at h
      obtain ⟨rfl, rfl⟩ := h
      unfold SupPc.afterCompute
      -- the three ways out of the attempt loop's body
      split
      · exact ⟨by simp, by simp, rfl, rfl, fun _ => trivial, Or.inl ⟨rfl, rfl⟩, _, _, _, rfl⟩
      · split
        · exact ⟨by simp, by simp, rfl, rfl, fun _ => trivial, Or.inl ⟨rfl, rfl⟩, _, _, _, rfl⟩
        · rename_i hlast
          refine ⟨by simp, by simp, rfl, rfl, fun hn => ⟨hn.1, ?_⟩, Or.inl ⟨rfl, rfl⟩, _, _, _, rfl⟩
          exact Nat.lt_of_le_of_ne hn.2 hlast
  | storeShutdown ok =>
      simp only [supStep, Option.some.injEq, Prod.mk.injEq] at h
      obtain ⟨rfl, rfl⟩ := h
      exact ⟨by simp, by simp, rfl, rfl, fun _ => trivial, Or.inr ⟨rfl, rfl⟩, _, _, _, rfl⟩
  | addGeneration n =>
      simp only [supStep, Option.some.injEq, Prod.mk.injEq] at h
      obtain ⟨rfl, rfl⟩ := h
      exact ⟨by simp, by simp, rfl, rfl, fun hn => ⟨Nat.le_add_left 1 n, hn.2⟩,
        Or.inl ⟨rfl, rfl⟩, _, _, _, rfl⟩
  | storePublishPid pid =>
      simp only [supStep, Option.some.injEq, Prod.mk.injEq] at h
      obtain ⟨rfl, rfl⟩ := h
      exact ⟨by simp, by simp, rfl, rfl, fun _ => ⟨by decide, by decide⟩, Or.inl ⟨rfl, rfl⟩,
        _, _, _, rfl⟩
  | _ =>
      simp only [supStep, Option.some.injEq, Prod.mk.injEq, reduceCtorEq] at h
      all_goals
        obtain ⟨rfl, rfl⟩ := h
        exact ⟨by simp, by simp, rfl, rfl, id, Or.inl ⟨rfl, rfl⟩, _, _, _, rfl⟩

/-- Where publish's status is stored, only the wait for publish leads. -/
theorem supStep_ne_storePublishExit {l l' : Layout} {pc : SupPc} {ok : Bool} {ist st : UInt32} :
    supStep l pc ≠ some (l', .storePublishExit ok ist st) := by
  cases pc with
  | storeComputeExit n status =>
      simp only [supStep, SupPc.afterCompute]
      split
      · simp
      · split <;> simp
  | _ => simp [supStep]

/-- The return follows the store of publish's status. -/
theorem supStep_returned {l l' : Layout} {pc : SupPc} {code : UInt32}
    (h : supStep l pc = some (l', .returned code)) :
    ∃ ok ist st, pc = .storePublishExit ok ist st ∧ code = pipelineResult ok ist st := by
  cases pc with
  | storePublishExit ok ist st =>
      simp only [supStep, Option.some.injEq, Prod.mk.injEq, SupPc.returned.injEq] at h
      exact ⟨ok, ist, st, rfl, h.2.symm⟩
  | storeComputeExit n status =>
      simp only [supStep, SupPc.afterCompute] at h
      split at h
      · simp at h
      · split at h <;> simp at h
  | _ => simp [supStep] at h

namespace Pipeline

theorem Skeleton.store {s : Pipeline} (h : Skeleton s) {l' : Layout} {pc' : SupPc}
    (hs : supStep s.layout s.sup = some (l', pc')) :
    Skeleton { s with layout := l', sup := pc' } := by
  have hst := supStep_stored hs
  refine ⟨?_, ?_, ?_, ?_, ?_, hst.counts h.counts⟩
  · show l'.control.shutdown ≠ 0 ↔ pc'.stopping = true
    rcases hst.shutdown with ⟨hflag, hstop⟩ | ⟨hflag, hstop⟩
    · rw [hflag, hstop]
      exact h.shutdown
    · simp [hflag, hstop]
  · show s.ingest = .unborn ↔ pc' = .spawnIngest
    rw [h.ingest]
    exact ⟨fun he => absurd he hst.from_ne, fun he => absurd he hst.to_ne⟩
  · show s.publish = .unborn ↔ pc'.beforePublish = true
    rw [hst.publish]
    exact h.publish
  · intro p hp
    exact hst.awaiting.trans (h.running p hp)
  · intro ha
    exact h.spawned (hst.awaiting ▸ ha)

/-- While the supervisor is not waiting for compute, compute does not run. -/
theorem Skeleton.not_running {s : Pipeline} (h : Skeleton s) (ha : s.sup.awaiting = false)
    (p : Compute) : s.compute ≠ .running p := by
  intro hp
  rw [h.running p hp] at ha
  exact absurd ha (by simp)

/-- While compute runs, the flag is clear. -/
theorem Skeleton.no_shutdown {s : Pipeline} (h : Skeleton s) {p : Compute}
    (hp : s.compute = .running p) : s.layout.control.shutdown = 0 := by
  have ha := h.running p hp
  by_cases hflag : s.layout.control.shutdown = 0
  · exact hflag
  · have hstop := h.shutdown.mp hflag
    cases hsup : s.sup <;> simp [hsup, SupPc.awaiting, SupPc.stopping] at ha hstop

/-- A child has been waited for, or a spawn moved the supervisor on. -/
theorem Skeleton.moveSup {s s' : Pipeline} (h : Skeleton s)
    (hflag : s'.layout.control.shutdown = s.layout.control.shutdown)
    (hstop : s'.sup.stopping = s.sup.stopping)
    (hi : s'.ingest = .unborn ↔ s'.sup = .spawnIngest)
    (hp : s'.publish = .unborn ↔ s'.sup.beforePublish = true)
    (hr : ∀ p, s'.compute = .running p → s'.sup.awaiting = true)
    (hu : s'.sup.awaiting = true → s'.compute ≠ .unborn) (hc : s'.sup.Counts) : Skeleton s' :=
  ⟨by rw [hflag, hstop]; exact h.shutdown, hi, hp, hr, hu, hc⟩

/-- **The skeleton holds in every run.** -/
theorem skeleton_step {s s' : Pipeline} {a : Act} (h : Skeleton s) (hs : s.step a = some s') :
    Skeleton s' := by
  have hcounts := h.counts
  cases move_of_step hs with
  | tick _ => exact h.frame rfl rfl Iff.rfl Iff.rfl (fun p hp => ⟨p, hp⟩) id
  | spawnIngest hsup =>
      have hpub := h.publish
      rw [hsup] at hpub
      refine h.moveSup rfl (by rw [hsup]; rfl) (by simp) (by simpa [SupPc.beforePublish] using hpub)
        (fun p hp => absurd hp (h.not_running (by rw [hsup]; rfl) p)) (by simp [SupPc.awaiting])
        trivial
  | noIngest hsup =>
      have hpub := h.publish
      rw [hsup] at hpub
      refine h.moveSup rfl (by rw [hsup]; rfl) (by simp) (by simpa [SupPc.beforePublish] using hpub)
        (fun p hp => absurd hp (h.not_running (by rw [hsup]; rfl) p)) (by simp [SupPc.awaiting])
        trivial
  | spawnPublish hsup =>
      have hing := h.ingest
      rw [hsup] at hing
      refine h.moveSup rfl (by rw [hsup]; rfl) (by simpa using hing) (by simp [SupPc.beforePublish])
        (fun p hp => absurd hp (h.not_running (by rw [hsup]; rfl) p)) (by simp [SupPc.awaiting])
        trivial
  | noPublish hsup =>
      have hing := h.ingest
      rw [hsup] at hing
      refine h.moveSup rfl (by rw [hsup]; rfl) (by simpa using hing) (by simp [SupPc.beforePublish])
        (fun p hp => absurd hp (h.not_running (by rw [hsup]; rfl) p)) (by simp [SupPc.awaiting])
        trivial
  | spawnCompute hsup =>
      have hing := h.ingest
      have hpub := h.publish
      rw [hsup] at hing hpub hcounts
      refine h.moveSup rfl (by rw [hsup]; rfl) (by simpa using hing)
        (by simpa [SupPc.beforePublish] using hpub) (fun _ _ => rfl) (by simp) hcounts
  | noCompute hsup =>
      have hing := h.ingest
      have hpub := h.publish
      rw [hsup] at hing hpub hcounts
      refine h.moveSup rfl (by rw [hsup]; rfl) (by simpa using hing)
        (by simpa [SupPc.beforePublish] using hpub) (fun _ _ => rfl) (by simp) hcounts
  | reapCompute hsup hw =>
      -- a wait that returned has a child that is not running
      have hing := h.ingest
      have hpub := h.publish
      rw [hsup] at hing hpub hcounts
      refine h.moveSup rfl (by rw [hsup]; rfl) (by simpa using hing)
        (by simpa [SupPc.beforePublish] using hpub) ?_ (by simp [SupPc.awaiting]) hcounts
      intro p hp
      rw [hp] at hw
      exact absurd hw (by simp [Child.wait])
  | reapIngest hsup hw =>
      have hing := h.ingest
      have hpub := h.publish
      rw [hsup] at hing hpub
      exact h.moveSup rfl (by rw [hsup]; rfl) (by simpa using hing)
        (by simpa [SupPc.beforePublish] using hpub)
        (fun p hp => absurd hp (h.not_running (by rw [hsup]; rfl) p)) (by simp [SupPc.awaiting])
        trivial
  | reapPublish hsup hw =>
      have hing := h.ingest
      have hpub := h.publish
      rw [hsup] at hing hpub
      exact h.moveSup rfl (by rw [hsup]; rfl) (by simpa using hing)
        (by simpa [SupPc.beforePublish] using hpub)
        (fun p hp => absurd hp (h.not_running (by rw [hsup]; rfl) p)) (by simp [SupPc.awaiting])
        trivial
  | store hst => exact h.store hst
  | rerun hsup =>
      refine ⟨by simp [resetControl, SupPc.stopping], by simp, by simp [SupPc.beforePublish], ?_, ?_,
        trivial⟩
      · intro p hp
        cases hp
      · intro ha
        cases ha
  | source hp hm hst =>
      obtain ⟨n, rfl⟩ := Ingest.stepSource_layout hst
      exact h.withIngest hp rfl
  | frames hp hm hst =>
      obtain ⟨r, rfl⟩ := Ingest.stepFrames_layout hst
      exact h.withIngest hp rfl
  | ingestAttach hp hm => exact h.withIngest hp rfl
  | ingestMain hp hst =>
      obtain ⟨n, rfl⟩ := Ingest.stepMain_layout hst
      exact h.withIngest hp rfl
  | ingestExit hp hm => exact h.endIngest hp _
  | ingestRefused hp hm => exact h.endIngest hp _
  | killIngest hp => exact h.endIngest hp _
  | fast hp ha hst =>
      obtain ⟨hb, hc, ov, fd, r, la, rfl⟩ := fastStep_layout hst
      exact h.withCompute hp rfl
  | window hp ha hst =>
      obtain ⟨hb, ov, wd, wi, rfl⟩ := windowStep_layout hst
      exact h.withCompute hp rfl
  | snapshot hp ha hpc hst =>
      obtain ⟨hb, ov, sd, b, rfl⟩ := snapshotStep_layout hst
      exact h.withCompute hp rfl
  | handOver hp ha hpc hst =>
      obtain ⟨hb, ov, sd, b, rfl⟩ := snapshotStep_layout hst
      refine Skeleton.hand (h.withCompute hp ?_) _
      rfl
  | watchdog hp ha hst =>
      obtain ⟨f, rfl⟩ := watchdogStep_layout hst
      exact h.withCompute hp rfl
  | computeMain hp hst =>
      obtain ⟨cd, rfl⟩ := computeMainStep_layout hst
      exact h.withCompute hp rfl
  | computeExit hp hm => exact h.endCompute hp _
  | computeCrash hp hm => exact h.endCompute hp _
  | computeRefused hp hm => exact h.endCompute hp _
  | killCompute hp => exact h.endCompute hp _
  | publish hp hw hst =>
      obtain ⟨hb, b, rfl⟩ := Publish.step_layout hst
      exact h.withPublish hp rfl
  | publishOpen hp hc => exact Skeleton.openOut (h.withPublish hp rfl)
  | publishWrite hp hw => exact Skeleton.write (h.withPublish hp rfl) _
  | publishExit hp hc => exact h.endPublish hp _
  | publishRefused hp hc => exact h.endPublish hp _
  | openFails hp hc => exact h.withPublish hp rfl
  | killPublish hp => exact h.endPublish hp _

end Pipeline

end RateHub
