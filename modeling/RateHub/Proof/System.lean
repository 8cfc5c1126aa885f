import RateHub.Proof.Skeleton
import RateHub.Proof.Stages

/-!
# What holds in every run of the system

`Sound` puts together what the parts say: the supervisor's skeleton, the stages of a
running compute, the joins of a running ingest, and the ring's own invariant over
the two calls in progress. It has no condition on the run: children may die at any
point, spawns may fail, pipelines may follow each other on one mapping.
-/

namespace RateHub

/-! ## Ingest's joins and its flag -/

/-- The joins and the flag of a running ingest. -/
structure Joins (l : Layout) (p : Ingest) : Prop where
  source : p.main = .joinFrames ∨ p.main = .storeDone ∨ p.main = .exit → p.source.pc = .done
  frames : p.main = .storeDone ∨ p.main = .exit → p.frames = .done
  /-- The flag is ingest's last store. -/
  flag : l.control.ingestDone ≠ 0 ↔ p.main = .exit

theorem joins_init {l : Layout} (h : l.control.ingestDone = 0) (replay : List UInt8) :
    Joins l (Ingest.init replay) where
  source := by intro hm; rcases hm with hm | hm | hm <;> cases hm
  frames := by intro hm; rcases hm with hm | hm <;> cases hm
  flag := by simp [h, Ingest.init]

theorem Joins.frame {l l' : Layout} {p : Ingest} (h : Joins l p)
    (hi : l'.control.ingestDone = l.control.ingestDone) : Joins l' p :=
  ⟨h.source, h.frames, by rw [hi]; exact h.flag⟩

theorem Joins.stepSource {l l' : Layout} {p p' : Ingest} (h : Joins l p)
    (hs : p.stepSource l = some (l', p')) : Joins l' p' := by
  obtain ⟨n, rfl⟩ := Ingest.stepSource_layout hs
  have hnd : p.source.pc ≠ .done := by
    intro hd
    simp [Ingest.stepSource, sourceStep, hd] at hs
  simp only [Ingest.stepSource, Option.map_eq_some_iff, Prod.mk.injEq] at hs
  obtain ⟨_, _, _, rfl⟩ := hs
  exact ⟨fun hm => absurd (h.source hm) hnd, h.frames, h.flag⟩

theorem Joins.stepFrames {l l' : Layout} {p p' : Ingest} (h : Joins l p)
    (hs : p.stepFrames l = some (l', p')) : Joins l' p' := by
  obtain ⟨r, rfl⟩ := Ingest.stepFrames_layout hs
  have hnd : p.frames ≠ .done := by
    intro hd
    simp [Ingest.stepFrames, framesStep, hd] at hs
  simp only [Ingest.stepFrames, Option.map_eq_some_iff, Prod.mk.injEq] at hs
  obtain ⟨_, _, _, rfl⟩ := hs
  exact ⟨h.source, fun hm => absurd (h.frames hm) hnd, h.flag⟩

theorem Joins.stepMain {l l' : Layout} {p p' : Ingest} (h : Joins l p)
    (hs : p.stepMain l = some (l', p')) : Joins l' p' := by
  simp only [Ingest.stepMain, Option.map_eq_some_iff, Prod.mk.injEq] at hs
  obtain ⟨⟨l₁, m₁⟩, hmain, rfl, rfl⟩ := hs
  have hflag := h.flag
  unfold ingestMainStep at hmain
  cases hm : p.main with
  | attach => simp [hm] at hmain
  | joinSource =>
      simp only [hm] at hmain
      split at hmain
      · rename_i hd
        simp only [Option.some.injEq, Prod.mk.injEq] at hmain
        obtain ⟨rfl, rfl⟩ := hmain
        exact ⟨fun _ => hd, by simp, by simpa [hm] using hflag⟩
      · exact absurd hmain (by simp)
  | joinFrames =>
      simp only [hm] at hmain
      split at hmain
      · rename_i hd
        simp only [Option.some.injEq, Prod.mk.injEq] at hmain
        obtain ⟨rfl, rfl⟩ := hmain
        exact ⟨fun _ => h.source (Or.inl hm), fun _ => hd, by simpa [hm] using hflag⟩
      · exact absurd hmain (by simp)
  | storeDone =>
      simp only [hm, Option.some.injEq, Prod.mk.injEq] at hmain
      obtain ⟨rfl, rfl⟩ := hmain
      exact ⟨fun _ => h.source (Or.inr (Or.inl hm)), fun _ => h.frames (Or.inl hm), by simp⟩
  | exit => simp [hm] at hmain

namespace Pipeline

/-- The `try_push` in progress. -/
def pushCall (s : Pipeline) : SpscRing.PushPc Record :=
  match s.ingest with
  | .running p => p.pushCall
  | _ => .idle

/-- The `try_pop` in progress. -/
def popCall (s : Pipeline) : SpscRing.PopPc Record :=
  match s.compute with
  | .running p => p.fast.popCall
  | _ => .idle

/-! ## Together -/

/-- What holds in every run. -/
structure Sound (s : Pipeline) : Prop where
  skeleton : Skeleton s
  stages : ∀ p, s.compute = .running p → Stages s.layout p
  joins : ∀ p, s.ingest = .running p → Joins s.layout p
  calls : SpscRing.CallInv s.layout.ring s.pushCall s.popCall
  /-- No flag before there is an ingest to store it. -/
  flag : s.ingest = .unborn → s.layout.control.ingestDone = 0
  /-- A compute that ended well had seen the flag. -/
  ended : s.compute = .ended (.exited 0) → s.sup.awaiting = true → s.layout.control.ingestDone ≠ 0

theorem sound_start (replay : List UInt8) (clock : UInt64) : Sound (start replay clock) where
  skeleton := skeleton_start replay clock
  stages := by intro p hp; cases hp
  joins := by intro p hp; cases hp
  calls := ⟨SpscRing.inv_init _, trivial, trivial⟩
  flag := fun _ => rfl
  ended := by intro hc; cases hc

/-- A step of the supervisor that starts nobody. -/
theorem Sound.moveSup {s s' : Pipeline} (h : Sound s) (hsk : Skeleton s')
    (hing : s'.ingest = s.ingest) (hcom : s'.compute = s.compute)
    (hring : s'.layout.ring = s.layout.ring)
    (hi : s'.layout.control.ingestDone = s.layout.control.ingestDone)
    (hf : s'.layout.control.fastDone = s.layout.control.fastDone)
    (hw : s'.layout.control.windowDone = s.layout.control.windowDone)
    (hs : s'.layout.control.snapshotDone = s.layout.control.snapshotDone)
    (hfault : s'.layout.control.fault = s.layout.control.fault)
    (hawait : s'.sup.awaiting = true → s.sup.awaiting = true) : Sound s' where
  skeleton := hsk
  stages p hp := (h.stages p (hcom ▸ hp)).frame (by rw [hi]; exact id) hf hw hs hfault
  joins p hp := (h.joins p (hing ▸ hp)).frame hi
  calls := by
    have hc := h.calls
    unfold pushCall popCall at hc ⊢
    rw [hing, hcom, hring]
    exact hc
  flag hu := by rw [hi]; exact h.flag (hing ▸ hu)
  ended hc ha := by rw [hi]; exact h.ended (hcom ▸ hc) (hawait ha)

theorem pushCall_running {s : Pipeline} {p : Ingest} (hp : s.ingest = .running p) :
    s.pushCall = p.pushCall := by
  simp [pushCall, hp]

theorem popCall_running {s : Pipeline} {p : Compute} (hp : s.compute = .running p) :
    s.popCall = p.fast.popCall := by
  simp [popCall, hp]

/-- A step of one of ingest's threads. -/
theorem Sound.withIngest {s : Pipeline} (h : Sound s) {p p' : Ingest} {l' : Layout}
    (hp : s.ingest = .running p) (hj : Joins l' p')
    (hcalls : SpscRing.CallInv l'.ring p'.pushCall s.popCall)
    (hl : ∃ n d r, l' = { s.layout with
      control := { s.layout.control with heartbeatIngest := n, ingestDone := d }, ring := r })
    (hmono : s.layout.control.ingestDone ≠ 0 → l'.control.ingestDone ≠ 0) :
    Sound (s.withIngest (l', p')) := by
  obtain ⟨n, d, r, rfl⟩ := hl
  refine ⟨h.skeleton.withIngest hp rfl, ?_, ?_, hcalls, ?_, ?_⟩
  · intro q hq
    exact (h.stages q hq).frame hmono rfl rfl rfl rfl
  · intro q hq
    obtain rfl := Child.running.inj hq
    exact hj
  · intro hu
    cases hu
  · intro hc ha
    exact hmono (h.ended hc ha)

/-- Ingest ends. -/
theorem Sound.endIngest {s : Pipeline} (h : Sound s) {p : Ingest} (hp : s.ingest = .running p)
    (status : WaitStatus) : Sound { s with ingest := .ended status } := by
  refine ⟨h.skeleton.endIngest hp status, h.stages, ?_, h.calls.dropPush, ?_, h.ended⟩
  · intro q hq
    cases hq
  · intro hu
    cases hu

/-- A step of one of compute's threads. -/
theorem Sound.withCompute {s : Pipeline} (h : Sound s) {p p' : Compute} {l' : Layout}
    (hp : s.compute = .running p) (hst : Stages l' p')
    (hcalls : SpscRing.CallInv l'.ring s.pushCall p'.fast.popCall)
    (hflag : l'.control.shutdown = s.layout.control.shutdown)
    (hi : l'.control.ingestDone = s.layout.control.ingestDone) :
    Sound (s.withCompute (l', p')) := by
  refine ⟨h.skeleton.withCompute hp hflag, ?_, ?_, hcalls, ?_, ?_⟩
  · intro q hq
    obtain rfl := Child.running.inj hq
    exact hst
  · intro q hq
    exact (h.joins q hq).frame hi
  · intro hu
    exact hi.trans (h.flag hu)
  · intro hc
    cases hc

/-- The same, for the threads that leave the ring alone. -/
theorem Sound.withStage {s : Pipeline} (h : Sound s) {p p' : Compute} {l' : Layout}
    (hp : s.compute = .running p) (hst : Stages l' p') (hfast : p'.fast = p.fast)
    (hring : l'.ring = s.layout.ring) (hflag : l'.control.shutdown = s.layout.control.shutdown)
    (hi : l'.control.ingestDone = s.layout.control.ingestDone) :
    Sound (s.withCompute (l', p')) := by
  refine h.withCompute hp hst ?_ hflag hi
  rw [hring, hfast, ← popCall_running hp]
  exact h.calls

/-- Compute ends. -/
theorem Sound.endCompute {s : Pipeline} (h : Sound s) {p : Compute}
    (hp : s.compute = .running p) (status : WaitStatus)
    (hz : status = .exited 0 → s.layout.control.ingestDone ≠ 0) :
    Sound { s with compute := .ended status } := by
  refine ⟨h.skeleton.endCompute hp status, ?_, h.joins, h.calls.dropPop, h.flag, ?_⟩
  · intro q hq
    cases hq
  · intro hc _
    exact hz (Child.ended.inj hc)

/-- A step of publish. -/
theorem Sound.withPublish {s : Pipeline} (h : Sound s) {p p' : Publish} {l' : Layout}
    (hp : s.publish = .running p)
    (hl : ∃ hb b, l' = { s.layout with
      control := { s.layout.control with heartbeatPublish := hb }, snapshots := b }) :
    Sound (s.withPublish (l', p')) := by
  obtain ⟨hb, b, rfl⟩ := hl
  exact h.moveSup (h.skeleton.withPublish hp rfl) rfl rfl rfl rfl rfl rfl rfl rfl id

/-- **It holds in every run.** -/
theorem sound_step {s s' : Pipeline} {a : Act} (h : Sound s) (hs : s.step a = some s') :
    Sound s' := by
  have hsk := skeleton_step h.skeleton hs
  cases move_of_step hs with
  | tick _ => exact h.moveSup hsk rfl rfl rfl rfl rfl rfl rfl rfl id
  | spawnIngest hsup =>
      -- a new ingest finds the flag clear: there was none before it in this pipeline
      have hu := h.skeleton.ingest.mpr hsup
      refine ⟨hsk, h.stages, ?_, h.calls.dropPush, ?_, ?_⟩
      · intro q hq
        obtain rfl := Child.running.inj hq
        exact joins_init (h.flag hu) _
      · intro hn
        cases hn
      · intro _ ha
        cases ha
  | noIngest hsup =>
      refine ⟨hsk, h.stages, ?_, h.calls.dropPush, ?_, ?_⟩
      · intro q hq
        cases hq
      · intro hn
        cases hn
      · intro _ ha
        cases ha
  | spawnPublish hsup =>
      exact h.moveSup hsk rfl rfl rfl rfl rfl rfl rfl rfl (fun ha => by cases ha)
  | noPublish hsup =>
      exact h.moveSup hsk rfl rfl rfl rfl rfl rfl rfl rfl (fun ha => by cases ha)
  | spawnCompute hsup =>
      refine ⟨hsk, ?_, h.joins, h.calls.dropPop, h.flag, ?_⟩
      · intro q hq
        obtain rfl := Child.running.inj hq
        exact stages_init _
      · intro hc
        cases hc
  | noCompute hsup =>
      refine ⟨hsk, ?_, h.joins, h.calls.dropPop, h.flag, ?_⟩
      · intro q hq
        cases hq
      · intro hc
        cases hc
  | reapCompute hsup hw =>
      exact h.moveSup hsk rfl rfl rfl rfl rfl rfl rfl rfl (fun ha => by cases ha)
  | reapIngest hsup hw =>
      exact h.moveSup hsk rfl rfl rfl rfl rfl rfl rfl rfl (fun ha => by cases ha)
  | reapPublish hsup hw =>
      exact h.moveSup hsk rfl rfl rfl rfl rfl rfl rfl rfl (fun ha => by cases ha)
  | store hst =>
      have hstored := supStep_stored hst
      obtain ⟨sh, g, sv, rfl⟩ := hstored.layout
      exact h.moveSup hsk rfl rfl rfl rfl rfl rfl rfl rfl (fun ha => hstored.awaiting ▸ ha)
  | rerun hsup =>
      -- the reset leaves the ring alone and clears the flags; no child is left
      refine ⟨hsk, ?_, ?_, h.calls.dropPush.dropPop, fun _ => rfl, ?_⟩
      · intro q hq
        cases hq
      · intro q hq
        cases hq
      · intro hc
        cases hc
  | source hp hm hst =>
      have hj := (h.joins _ hp).stepSource hst
      obtain ⟨n, rfl⟩ := Ingest.stepSource_layout hst
      refine h.withIngest hp hj ?_ ⟨n, _, _, rfl⟩ id
      have hcalls := h.calls
      rw [pushCall_running hp] at hcalls
      simp only [Ingest.stepSource, Option.map_eq_some_iff, Prod.mk.injEq] at hst
      obtain ⟨_, _, _, rfl⟩ := hst
      exact hcalls
  | frames hp hm hst =>
      have hcalls := h.calls
      rw [pushCall_running hp] at hcalls
      have hc := Ingest.stepFrames_calls hcalls hst
      have hj := (h.joins _ hp).stepFrames hst
      obtain ⟨r, rfl⟩ := Ingest.stepFrames_layout hst
      exact h.withIngest hp hj hc ⟨_, _, r, rfl⟩ id
  | ingestAttach hp hm =>
      have hcalls := h.calls
      rw [pushCall_running hp] at hcalls
      have hflag := (h.joins _ hp).flag
      refine h.withIngest hp ⟨by simp, by simp, ?_⟩ hcalls ⟨_, _, _, rfl⟩ id
      simpa [hm] using hflag
  | ingestMain hp hst =>
      have hj := (h.joins _ hp).stepMain hst
      have hcalls := h.calls
      rw [pushCall_running hp] at hcalls
      obtain ⟨n, rfl⟩ := Ingest.stepMain_layout hst
      refine h.withIngest hp hj ?_ ⟨_, n, _, rfl⟩ ?_
      · simp only [Ingest.stepMain, Option.map_eq_some_iff, Prod.mk.injEq] at hst
        obtain ⟨_, _, _, rfl⟩ := hst
        exact hcalls
      · -- the main thread moves only before its flag
        intro hflag
        have hm := (h.joins _ hp).flag.mp hflag
        simp [Ingest.stepMain, ingestMainStep, hm] at hst
  | ingestExit hp hm => exact h.endIngest hp _
  | ingestRefused hp hm => exact h.endIngest hp _
  | killIngest hp => exact h.endIngest hp _
  | fast hp ha hst =>
      have hcalls := h.calls
      rw [popCall_running hp] at hcalls
      have hc := fastStep_calls hcalls hst
      have hstages := (h.stages _ hp).fast (h.skeleton.no_shutdown hp) hst
      obtain ⟨hb, hc', ov, fd, r, la, rfl⟩ := fastStep_layout hst
      exact h.withCompute hp hstages hc rfl rfl
  | window hp ha hst =>
      have hstages := (h.stages _ hp).window hst
      obtain ⟨hb, ov, wd, wi, rfl⟩ := windowStep_layout hst
      exact h.withStage hp hstages rfl rfl rfl rfl
  | snapshot hp ha hpc hst =>
      have hstages := (h.stages _ hp).snapshot hst
      obtain ⟨hb, ov, sd, b, rfl⟩ := snapshotStep_layout hst
      exact h.withStage hp hstages rfl rfl rfl rfl
  | handOver hp ha hpc hst =>
      have hstages := (h.stages _ hp).snapshot hst
      obtain ⟨hb, ov, sd, b, rfl⟩ := snapshotStep_layout hst
      have hnext := h.withStage hp hstages rfl rfl rfl rfl
      exact hnext.moveSup hsk rfl rfl rfl rfl rfl rfl rfl rfl id
  | watchdog hp ha hst =>
      have hstages := (h.stages _ hp).watchdog hst
      obtain ⟨f, rfl⟩ := watchdogStep_layout hst
      exact h.withStage hp hstages rfl rfl rfl rfl
  | computeMain hp hst =>
      have hstages := (h.stages _ hp).main hst
      obtain ⟨cd, rfl⟩ := computeMainStep_layout hst
      exact h.withStage hp hstages rfl rfl rfl rfl
  | computeExit hp hm =>
      -- an exit with any code comes after the join of a fast thread that saw the flag
      exact h.endCompute hp _ (fun _ => (h.stages _ hp).flag_of_exit hm)
  | computeCrash hp hm => exact h.endCompute hp _ (by simp)
  | computeRefused hp hm => exact h.endCompute hp _ (by simp)
  | killCompute hp => exact h.endCompute hp _ (by simp)
  | publish hp hw hst => exact h.withPublish hp (Publish.step_layout hst)
  | publishOpen hp hc => exact h.moveSup hsk rfl rfl rfl rfl rfl rfl rfl rfl id
  | publishWrite hp hw => exact h.moveSup hsk rfl rfl rfl rfl rfl rfl rfl rfl id
  | publishExit hp hc => exact h.moveSup hsk rfl rfl rfl rfl rfl rfl rfl rfl id
  | publishRefused hp hc => exact h.moveSup hsk rfl rfl rfl rfl rfl rfl rfl rfl id
  | openFails hp hc => exact h.moveSup hsk rfl rfl rfl rfl rfl rfl rfl rfl id
  | killPublish hp => exact h.moveSup hsk rfl rfl rfl rfl rfl rfl rfl rfl id

/-- The states of every run, over any number of pipelines. -/
def Reachable : Pipeline → Prop := Transition.Reachable step (fun _ _ => True) Start

theorem sound_reachable {ok : Pipeline → Act → Prop} {s : Pipeline}
    (h : Transition.Reachable step ok Start s) : Sound s := by
  refine Transition.Reachable.invariant ?_ (fun _ _ _ hi _ hs => sound_step hi hs) h
  rintro _ ⟨replay, clock, rfl⟩
  exact sound_start replay clock

end Pipeline

end RateHub
