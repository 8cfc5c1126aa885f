import RateHub.Lib.History
import RateHub.Proof.Collect
import RateHub.Proof.StageOrder
import RateHub.Proof.StopSignal

/-!
# What the observer sees of a hold

In the hold loop every child has been waited for. `idle`, though, is computed from
flags: `shutdown`, which the supervisor has stored by then, and `ingest_done` and
`compute_done`, which ingest and compute store on their way out. A child that dies before
its store leaves the flag clear, and the wait for it does not set it. So a hold after such a
pipeline is never reported as idle.

The history variable tells, for ingest and for compute, whether the store was lost: it
becomes certain when ingest ends, and when the last compute attempt ends.
-/

namespace RateHub

/-- Which of the two stores will not be made in this pipeline. -/
structure Lost where
  ingest : Bool := false
  compute : Bool := false

/-- The last compute attempt is next, or in progress. -/
def SupPc.lastAttempt : SupPc → Bool
  | .spawnCompute n => n == kMaxComputeAttempts
  | .storeComputePid n _ => n == kMaxComputeAttempts
  | .waitCompute n => n == kMaxComputeAttempts
  | _ => false

/-- A step by which a store is lost: ingest ends with `ingest_done` clear, or compute's last
attempt ends with `compute_done` clear. -/
def Lost.after (g : Lost) (s : Pipeline) : Act → Lost
  | .spawnFails =>
      if s.sup = .spawnIngest then { g with ingest := true }
      else if s.sup.lastAttempt ∧ s.layout.control.computeDone = 0 then { g with compute := true }
      else g
  | .ingestRefused => { g with ingest := true }
  | .killIngest => if s.layout.control.ingestDone = 0 then { g with ingest := true } else g
  | .computeCrash | .computeRefused | .killCompute =>
      if s.sup.lastAttempt ∧ s.layout.control.computeDone = 0 then { g with compute := true } else g
  | .rerun => {}
  | _ => g

/-! ## The pipeline -/

/-- Past the wait for ingest. -/
def SupPc.pastIngest : SupPc → Bool
  | .storeIngestExit _ _ => true
  | .waitPublish _ _ => true
  | .storePublishExit _ _ _ => true
  | .returned _ => true
  | _ => false

/-- There will be no further compute attempt, and the last one has ended. -/
def computeSettled (pc : SupPc) (c : Child Compute) : Bool :=
  match pc with
  | .storeComputePid n _ => c.wait.any fun status => status == 0 || n == kMaxComputeAttempts
  | .waitCompute n => c.wait.any fun status => status == 0 || n == kMaxComputeAttempts
  | .storeComputeExit n status => status == 0 || n == kMaxComputeAttempts
  | .storeShutdown _ => true
  | pc => pc.stopping

/-- A flag and whether its store was lost: with `settled`, one or the other. -/
structure Settles (settled : Bool) (done : UInt32) (lost : Bool) : Prop where
  after : settled = true → (done ≠ 0 ↔ lost = false)
  before : settled = false → lost = false

theorem Settles.pending {done : UInt32} {lost : Bool} (h : lost = false) : Settles false done lost :=
  ⟨by simp, fun _ => h⟩

theorem Settles.stored {settled : Bool} {done : UInt32} {lost : Bool} (hd : done ≠ 0)
    (h : lost = false) : Settles settled done lost :=
  ⟨fun _ => ⟨fun _ => h, fun _ => hd⟩, fun _ => h⟩

theorem Settles.lost {done : UInt32} (hd : done = 0) : Settles true done true :=
  ⟨by simp [hd], by simp⟩

/-- A store that is lost under a condition. -/
theorem ite_lost (g : Lost) (c : Prop) [Decidable c] :
    { g with compute := if c then true else g.compute } = if c then { g with compute := true } else g := by
  split <;> rfl

namespace Pipeline

/-- The flags of a pipeline, with what was lost. -/
structure Ending (s : Pipeline) (g : Lost) : Prop where
  sound : Sound s
  ingest : Settles s.ingest.wait.isSome s.layout.control.ingestDone g.ingest
  reaped : s.sup.pastIngest = true → s.ingest.wait.isSome = true
  stored : ∀ p, s.compute = .running p → p.main.stored = true → s.layout.control.computeDone ≠ 0
  compute : Settles (computeSettled s.sup s.compute) s.layout.control.computeDone g.compute

variable {s s' : Pipeline} {g : Lost}

theorem ending_start (replay : List UInt8) (clock : UInt64) : Ending (start replay clock) {} where
  sound := sound_start replay clock
  ingest := .pending rfl
  reaped := by intro h; cases h
  stored := by intro p hp; cases hp
  compute := .pending rfl

/-- A step at which no child ends. -/
theorem Ending.frame (h : Ending s g) (hs : Sound s')
    (hw : s'.ingest.wait.isSome = s.ingest.wait.isSome)
    (hi : s.ingest.wait.isSome = true →
      s'.layout.control.ingestDone = s.layout.control.ingestDone)
    (hpast : s'.sup.pastIngest = s.sup.pastIngest)
    (hover : computeSettled s'.sup s'.compute = computeSettled s.sup s.compute)
    (hc : s'.layout.control.computeDone = s.layout.control.computeDone)
    (hm : s.compute.Keeps Compute.main s'.compute) : Ending s' g where
  sound := hs
  ingest := by
    rw [hw]
    refine ⟨?_, h.ingest.before⟩
    intro hov
    rw [hi hov]
    exact h.ingest.after hov
  reaped := by
    rw [hpast, hw]
    exact h.reaped
  stored := by
    intro p' hp' hst
    obtain ⟨p, hp, he⟩ := hm.running p' hp'
    rw [hc]
    exact h.stored p hp (he ▸ hst)
  compute := by
    rw [hover, hc]
    exact h.compute

/-- Ingest ends. -/
theorem Ending.ingestEnds (h : Ending s g) {i : Child Ingest} {sup : SupPc} {lost : Bool}
    (hs : Sound { s with sup := sup, ingest := i }) (hw : i.wait.isSome = true)
    (hset : Settles true s.layout.control.ingestDone lost)
    (hover : computeSettled sup s.compute = computeSettled s.sup s.compute) :
    Ending { s with sup := sup, ingest := i } { g with ingest := lost } where
  sound := hs
  ingest := by
    rw [hw]
    exact hset
  reaped _ := hw
  stored := h.stored
  compute := by
    rw [hover]
    exact h.compute

/-- A compute attempt ends. -/
theorem Ending.computeEnds (h : Ending s g) {c : Child Compute} {sup : SupPc} {lost : Bool}
    (hs : Sound { s with sup := sup, compute := c }) (hn : ∀ p, c ≠ .running p)
    (hpast : sup.pastIngest = s.sup.pastIngest)
    (hset : Settles (computeSettled sup c) s.layout.control.computeDone lost) :
    Ending { s with sup := sup, compute := c } { g with compute := lost } where
  sound := hs
  ingest := h.ingest
  reaped := by
    rw [hpast]
    exact h.reaped
  stored := by
    intro p hp
    exact absurd hp (hn p)
  compute := hset

/-- While compute runs, there is an attempt. -/
theorem computeSettled_running (pc : SupPc) (ha : pc.awaiting = true) (p : Compute) :
    computeSettled pc (.running p) = false := by
  cases pc <;> first | rfl | cases ha

/-- An attempt that fails is the last one when its number says so. -/
theorem computeSettled_failed {pc : SupPc} {c : Child Compute} {status : UInt32}
    (ha : pc.awaiting = true) (hw : c.wait = some status) (hne : status ≠ 0) :
    computeSettled pc c = pc.lastAttempt := by
  cases pc with
  | storeComputePid n pid => simp [computeSettled, SupPc.lastAttempt, hw, hne]
  | waitCompute n => simp [computeSettled, SupPc.lastAttempt, hw, hne]
  | _ => cases ha

/-- What the end of a failed attempt settles. -/
theorem settles_failed {pc : SupPc} {c : Child Compute} {status : UInt32} (done : UInt32)
    {lost : Bool} (ha : pc.awaiting = true) (hw : c.wait = some status) (hne : status ≠ 0) (hl : lost = false) :
    Settles (computeSettled pc c) done
      (if pc.lastAttempt = true ∧ done = 0 then true else lost) := by
  rw [computeSettled_failed ha hw hne]
  by_cases hlast : pc.lastAttempt = true
  · by_cases hd : done = 0
    · rw [if_pos ⟨hlast, hd⟩, hlast]
      exact .lost hd
    · rw [if_neg (fun hc => hd hc.2)]
      exact .stored hd hl
  · rw [if_neg (fun hc => hlast hc.1), Bool.eq_false_of_not_eq_true hlast]
    exact .pending hl

/-- A store of the supervisor neither ends an attempt nor waits for ingest. -/
theorem supStep_settled {l l' : Layout} {pc pc' : SupPc} (c : Child Compute)
    (h : supStep l pc = some (l', pc')) :
    computeSettled pc' c = computeSettled pc c ∧ pc'.pastIngest = pc.pastIngest := by
  cases pc with
  | storeComputeExit n status =>
      simp only [supStep, Option.some.injEq, Prod.mk.injEq] at h
      obtain ⟨_, rfl⟩ := h
      unfold SupPc.afterCompute
      split
      · rename_i hz
        simp [computeSettled, SupPc.pastIngest, hz]
      · rename_i hz
        split
        · rename_i hn
          simp [computeSettled, SupPc.pastIngest, hn]
        · rename_i hn
          simp [computeSettled, SupPc.pastIngest, SupPc.stopping, hz, hn]
  | _ =>
      simp only [supStep, Option.some.injEq, Prod.mk.injEq, reduceCtorEq] at h
      all_goals
        obtain ⟨_, rfl⟩ := h
        exact ⟨rfl, rfl⟩

/-- The main thread of compute passes the store only by making it. -/
theorem computeMainStep_stored {l l' : Layout} {p : Compute} {pc' : ComputeMainPc}
    (h : computeMainStep l p = some (l', pc'))
    (hst : p.main.stored = true → l.control.computeDone ≠ 0) (hst' : pc'.stored = true) :
    l'.control.computeDone ≠ 0 := by
  unfold computeMainStep at h
  cases hm : p.main with
  | storeDone =>
      simp only [hm, Option.some.injEq, Prod.mk.injEq] at h
      obtain ⟨rfl, rfl⟩ := h
      exact (by decide : (1 : UInt32) ≠ 0)
  | loadFault =>
      simp only [hm, Option.some.injEq, Prod.mk.injEq] at h
      obtain ⟨rfl, rfl⟩ := h
      exact hst (by rw [hm]; rfl)
  | exit code => simp [hm] at h
  | _ =>
      simp only [hm] at h
      (try split at h) <;> try simp only [Option.some.injEq, Prod.mk.injEq, reduceCtorEq] at h
      all_goals
        obtain ⟨rfl, rfl⟩ := h
        cases hst'

/-- A running ingest is not settled yet. -/
theorem Ending.ingest_running (h : Ending s g) {p : Ingest} (hp : s.ingest = .running p) :
    g.ingest = false :=
  h.ingest.before (by rw [hp]; rfl)

/-- Nor is a running attempt. -/
theorem Ending.compute_running (h : Ending s g) {p : Compute} (hp : s.compute = .running p) :
    g.compute = false := by
  refine h.compute.before ?_
  rw [hp]
  exact computeSettled_running _ (h.sound.skeleton.running p hp) p

/-- A step of one of compute's threads. -/
theorem Ending.computeMoves (h : Ending s g) (hs : Sound s') {p p' : Compute}
    (hp : s.compute = .running p) (hp' : s'.compute = .running p') (hing : s'.ingest = s.ingest)
    (hsup : s'.sup = s.sup)
    (hi : s'.layout.control.ingestDone = s.layout.control.ingestDone)
    (hst : p'.main.stored = true → s'.layout.control.computeDone ≠ 0) : Ending s' g := by
  refine ⟨hs, ?_, ?_, ?_, ?_⟩
  · rw [hing, hi]
    exact h.ingest
  · rw [hing, hsup]
    exact h.reaped
  · intro q hq
    obtain rfl := Child.running_unique hp' hq
    exact hst
  · rw [hsup, hp', computeSettled_running _ (h.sound.skeleton.running p hp)]
    exact .pending (h.compute_running hp)

/-- A step of one of ingest's threads. -/
theorem Ending.withIngest (h : Ending s g) {p p' : Ingest} {l' : Layout}
    (hs : Sound (s.withIngest (l', p'))) (hp : s.ingest = .running p)
    (hc : l'.control.computeDone = s.layout.control.computeDone) :
    Ending (s.withIngest (l', p')) g := by
  refine h.frame hs (by rw [hp]; rfl) ?_ rfl rfl hc .refl
  intro hw
  rw [hp] at hw
  cases hw

/-- A step of publish. -/
theorem Ending.publishMoves (h : Ending s g) (hs : Sound s') (hi : s'.ingest = s.ingest)
    (hc : s'.compute = s.compute) (hsup : s'.sup = s.sup)
    (hl : ∃ hb b, s'.layout = { s.layout with
      control := { s.layout.control with heartbeatPublish := hb }, snapshots := b }) :
    Ending s' g := by
  obtain ⟨hb, b, hl⟩ := hl
  refine h.frame hs (by rw [hi]) (fun _ => by rw [hl]) (by rw [hsup]) (by rw [hsup, hc])
    (by rw [hl]) ?_
  rw [hc]
  exact .refl

/-- An attempt fails while compute runs. -/
theorem Ending.failedAttempt (h : Ending s g) {p : Compute} {status : WaitStatus} {code : UInt32}
    (hs : Sound { s with compute := .ended status }) (hp : s.compute = .running p)
    (hw : (Child.ended status : Child Compute).wait = some code) (hne : code ≠ 0) :
    Ending { s with compute := .ended status }
      (if s.sup.lastAttempt = true ∧ s.layout.control.computeDone = 0 then
        { g with compute := true } else g) := by
  have hset := settles_failed s.layout.control.computeDone
    (h.sound.skeleton.running p hp) hw hne (h.compute_running hp)
  have hends := h.computeEnds hs (by simp) rfl hset
  rw [← ite_lost]
  exact hends

/-- **One step of a pipeline.** -/
theorem ending_step {a : Act} (h : Ending s g) (hs : s.step a = some s') :
    Ending s' (g.after s a) := by
  have hsound := sound_step h.sound hs
  cases move_of_step hs with
  | tick _ => exact h.frame hsound rfl (fun _ => rfl) rfl rfl rfl .refl
  | spawnIngest hsup =>
      have hu := h.sound.skeleton.ingest.mpr hsup
      refine h.frame hsound (by rw [hu]; rfl) (fun _ => rfl) (by rw [hsup]; rfl)
        (by rw [hsup]; rfl) rfl .refl
  | noIngest hsup =>
      have hu := h.sound.skeleton.ingest.mpr hsup
      simp only [Lost.after, hsup, if_true]
      exact h.ingestEnds hsound rfl (.lost (h.sound.flag hu)) (by rw [hsup]; rfl)
  | spawnPublish hsup =>
      exact h.frame hsound rfl (fun _ => rfl) (by rw [hsup]; rfl) (by rw [hsup]; rfl) rfl .refl
  | noPublish hsup =>
      simp only [Lost.after, hsup, SupPc.lastAttempt, reduceCtorEq, false_and, if_false]
      exact h.frame hsound rfl (fun _ => rfl) (by rw [hsup]; rfl) (by rw [hsup]; rfl) rfl .refl
  | spawnCompute hsup =>
      refine ⟨hsound, h.ingest, ?_, ?_, ?_⟩
      · intro hpast
        cases hpast
      · intro p hp hst
        obtain rfl := Child.running.inj hp
        cases hst
      · exact .pending (h.compute.before (by rw [hsup]; rfl))
  | @noCompute n hsup =>
      have hl : g.compute = false := h.compute.before (by rw [hsup]; rfl)
      have hset : Settles (computeSettled (.storeComputePid n none) .failed)
          s.layout.control.computeDone _ := settles_failed _ rfl rfl (by decide) hl
      have hends := h.computeEnds hsound (by simp) (by rw [hsup]; rfl) hset
      rw [ite_lost] at hends
      simp only [Lost.after, hsup, reduceCtorEq, if_false]
      exact hends
  | reapCompute hsup hw =>
      refine h.frame hsound rfl (fun _ => rfl) (by rw [hsup]; rfl) ?_ rfl .refl
      rw [hsup]
      simp [computeSettled, hw]
  | reapIngest hsup hw =>
      refine ⟨hsound, h.ingest, fun _ => by simp [hw], h.stored, ?_⟩
      have hc := h.compute
      rw [hsup] at hc
      exact hc
  | reapPublish hsup hw =>
      exact h.frame hsound rfl (fun _ => rfl) (by rw [hsup]; rfl) (by rw [hsup]; rfl) rfl .refl
  | store hst =>
      obtain ⟨hover, hpast⟩ := supStep_settled s.compute hst
      obtain ⟨sh, gen, sv, rfl⟩ := (supStep_stored hst).layout
      exact h.frame hsound rfl (fun _ => rfl) hpast hover rfl .refl
  | rerun hsup =>
      refine ⟨hsound, .pending rfl, ?_, ?_, .pending rfl⟩
      · intro hpast
        cases hpast
      · intro p hp
        cases hp
  | source hp hm hst =>
      obtain ⟨n, rfl⟩ := Ingest.stepSource_layout hst
      exact h.withIngest hsound hp rfl
  | frames hp hm hst =>
      obtain ⟨r, rfl⟩ := Ingest.stepFrames_layout hst
      exact h.withIngest hsound hp rfl
  | ingestAttach hp hm => exact h.withIngest hsound hp rfl
  | ingestMain hp hst =>
      obtain ⟨n, rfl⟩ := Ingest.stepMain_layout hst
      exact h.withIngest hsound hp rfl
  | ingestExit hp hm =>
      have hdone := (h.sound.joins _ hp).flag.mpr hm
      exact h.ingestEnds hsound rfl (.stored hdone (h.ingest_running hp)) rfl
  | ingestRefused hp hm =>
      have hclear : s.layout.control.ingestDone = 0 := by
        by_contra hne
        rw [(h.sound.joins _ hp).flag.mp hne] at hm
        cases hm
      exact h.ingestEnds hsound rfl (.lost hclear) rfl
  | killIngest hp =>
      simp only [Lost.after]
      split
      · rename_i hclear
        exact h.ingestEnds hsound rfl (.lost hclear) rfl
      · rename_i hdone
        exact h.ingestEnds hsound rfl (.stored hdone (h.ingest_running hp)) rfl
  | fast hp ha hst =>
      have hst' := h.stored _ hp
      obtain ⟨hb, hc, ov, fd, r, la, rfl⟩ := fastStep_layout hst
      exact h.computeMoves hsound hp rfl rfl rfl rfl hst'
  | window hp ha hst =>
      have hst' := h.stored _ hp
      obtain ⟨hb, ov, wd, wi, rfl⟩ := windowStep_layout hst
      exact h.computeMoves hsound hp rfl rfl rfl rfl hst'
  | snapshot hp ha hpc hst =>
      have hst' := h.stored _ hp
      obtain ⟨hb, ov, sd, b, rfl⟩ := snapshotStep_layout hst
      exact h.computeMoves hsound hp rfl rfl rfl rfl hst'
  | handOver hp ha hpc hst =>
      have hst' := h.stored _ hp
      obtain ⟨hb, ov, sd, b, rfl⟩ := snapshotStep_layout hst
      exact h.computeMoves hsound hp rfl rfl rfl rfl hst'
  | watchdog hp ha hst =>
      have hst' := h.stored _ hp
      obtain ⟨f, rfl⟩ := watchdogStep_layout hst
      exact h.computeMoves hsound hp rfl rfl rfl rfl hst'
  | computeMain hp hst =>
      have hnext := computeMainStep_stored hst (h.stored _ hp)
      obtain ⟨cd, rfl⟩ := computeMainStep_layout hst
      exact h.computeMoves hsound hp rfl rfl rfl rfl hnext
  | computeExit hp hm =>
      have hdone := h.stored _ hp (by rw [hm]; rfl)
      exact h.computeEnds hsound (by simp) rfl (.stored hdone (h.compute_running hp))
  | computeCrash hp hm => exact h.failedAttempt hsound hp rfl (by decide)
  | computeRefused hp hm => exact h.failedAttempt hsound hp rfl (by decide)
  | killCompute hp => exact h.failedAttempt hsound hp rfl (by decide)
  | publish hp hw hst =>
      exact h.publishMoves hsound rfl rfl rfl (Publish.step_layout hst)
  | publishOpen hp hc => exact h.publishMoves hsound rfl rfl rfl ⟨_, _, rfl⟩
  | publishWrite hp hw => exact h.publishMoves hsound rfl rfl rfl ⟨_, _, rfl⟩
  | publishExit hp hc => exact h.publishMoves hsound rfl rfl rfl ⟨_, _, rfl⟩
  | publishRefused hp hc => exact h.publishMoves hsound rfl rfl rfl ⟨_, _, rfl⟩
  | openFails hp hc => exact h.publishMoves hsound rfl rfl rfl ⟨_, _, rfl⟩
  | killPublish hp => exact h.publishMoves hsound rfl rfl rfl ⟨_, _, rfl⟩

/-- The supervisor's own words play no part in it. -/
theorem Ending.supervisor (h : Ending s g) (sv : SupervisorState) :
    Ending { s with layout := { s.layout with supervisor := sv } } g := by
  have hsk : Skeleton { s with layout := { s.layout with supervisor := sv } } :=
    h.sound.skeleton.frame rfl rfl Iff.rfl Iff.rfl (fun p hp => ⟨p, hp⟩) id
  exact h.frame (h.sound.moveSup hsk rfl rfl rfl rfl rfl rfl rfl rfl id) rfl (fun _ => rfl) rfl rfl
    rfl .refl

/-- A step of somebody else leaves the supervisor where it is. -/
theorem step_sup {a : Act} (hs : s.step a = some s') (hin : RunSupervisor.inside a = false)
    (hr : a ≠ .rerun) : s'.sup = s.sup := by
  cases move_of_step hs with
  | rerun hsup => exact absurd rfl hr
  | _ => first | rfl | cases hin

end Pipeline

/-! ## The outer loop -/

/-- Between the return of a pipeline and the reset for the next one. -/
def RunPc.afterPipeline : RunPc → Bool
  | .testHold => true
  | .clearStop => true
  | .installInt => true
  | .installTerm => true
  | .testStop => true
  | .takeRerun => true
  | .nap => true
  | .reset => true
  | _ => false

namespace RunSupervisor

/-- How a step of the supervisor and its children changes what is lost. -/
def noteLost (g : Lost) (s : RunSupervisor) (a : RunAct) (_ : RunSupervisor) : Lost :=
  match a with
  | .pipe a => g.after s.pipeline a
  | .main _ => if s.pc = .reset then {} else g
  | _ => g

theorem noteLost_main {g : Lost} {s s' : RunSupervisor} {pid : UInt32} (hpc : s.pc ≠ .reset) :
    noteLost g s (.main pid) s' = g := by
  simp only [noteLost, hpc, if_false]

theorem noteLost_reset {g : Lost} {s s' : RunSupervisor} {pid : UInt32} (hpc : s.pc = .reset) :
    noteLost g s (.main pid) s' = {} := by
  simp only [noteLost, hpc, if_true]

/-- Every run, with any number of pipelines, and with what was lost in the last one. -/
def ReachableLosing : Transition.Noted RunSupervisor Lost → Prop :=
  Transition.ReachableNoted step noteLost (fun _ _ => True) Start {}

/-- The pipeline's flags, and where the supervisor stands in it. -/
structure Held (s : RunSupervisor) (g : Lost) : Prop where
  ending : s.pipeline.Ending g
  returned : s.pc.afterPipeline = true → s.pipeline.hasReturned = true

variable {s s' : RunSupervisor} {g : Lost}

/-- **One step of the supervisor and its children.** -/
theorem held_step {a : RunAct} (h : Held s g) (hs : s.step a = some s') :
    Held s' (noteLost g s a s') := by
  have hret : s.pc.afterPipeline = true → s.pipeline.hasReturned = true := h.returned
  cases runMove_of_step hs with
  | @pipe a p hr hin hp =>
      refine ⟨Pipeline.ending_step h.ending hp, ?_⟩
      intro hafter
      have hafter' : s.pc.afterPipeline = true := hafter
      have hout : inside a = false := by
        by_contra hne
        rw [hin (by simpa using hne)] at hafter'
        cases hafter'
      have hkept := hret hafter'
      unfold Pipeline.hasReturned at hkept ⊢
      rw [Pipeline.step_sup hp hout hr]
      exact hkept
  | returns hpc hsup =>
      rw [noteLost_main (by rw [hpc]; simp)]
      refine ⟨h.ending, ?_⟩
      intro _
      show s.pipeline.hasReturned = true
      simp only [Pipeline.hasReturned, hsup]
  | reset hpc hp =>
      rw [noteLost_reset hpc]
      exact ⟨Pipeline.ending_step h.ending hp, by intro hafter; cases hafter⟩
  | handled hsig => exact ⟨h.ending, h.returned⟩
  | killed hsig => exact ⟨h.ending, by intro hafter; cases hafter⟩
  | request ho => exact ⟨h.ending.supervisor _, h.returned⟩
  | observeEnds ho => exact ⟨h.ending, h.returned⟩
  | noObserve hpc => exact ⟨h.ending, by intro hafter; cases hafter⟩
  | spawnObserve hpc =>
      rw [noteLost_main (by rw [hpc]; simp)]
      exact ⟨h.ending, by intro hafter; cases hafter⟩
  | storeObservePid hpc =>
      rw [noteLost_main (by rw [hpc]; simp)]
      exact ⟨h.ending.supervisor _, by intro hafter; cases hafter⟩
  | alone hpc hobs =>
      rw [noteLost_main (by rw [hpc]; simp)]
      exact ⟨h.ending, by intro hafter; cases hafter⟩
  | release hpc hobs =>
      rw [noteLost_main (by rw [hpc]; simp)]
      exact ⟨h.ending.supervisor _, by intro hafter; cases hafter⟩
  | waitObserve hpc hw =>
      rw [noteLost_main (by rw [hpc]; simp)]
      exact ⟨h.ending, by intro hafter; cases hafter⟩
  | takeRerun hpc hreq =>
      rw [noteLost_main (by rw [hpc]; simp)]
      exact ⟨h.ending.supervisor _, fun _ => hret (by rw [hpc]; rfl)⟩
  | noRerun hpc hreq =>
      rw [noteLost_main (by rw [hpc]; simp)]
      exact ⟨h.ending.supervisor _, fun _ => hret (by rw [hpc]; rfl)⟩
  | _ hpc =>
      -- between the pipeline and the next reset
      rw [noteLost_main (by rw [hpc]; simp)]
      exact ⟨h.ending, fun _ => hret (by rw [hpc]; rfl)⟩

theorem held_reachable {x : Transition.Noted RunSupervisor Lost} (h : ReachableLosing x) :
    Held x.now x.past := by
  refine Transition.ReachableNoted.invariant ?_ ?_ h
  · rintro s ⟨replay, clock, observed, paced, rfl⟩
    refine ⟨Pipeline.ending_start replay clock, ?_⟩
    intro ha
    unfold start at ha
    cases observed <;> cases ha
  · intro x a s' _ hi _ hs
    exact held_step hi hs

/-! ## The hold -/

theorem RunPc.holding_after {pc : RunPc} (h : pc.holding = true) : pc.afterPipeline = true := by
  cases pc <;> first | rfl | cases h

/-- In the hold the pipeline has returned. -/
theorem Held.sup_returned (h : Held s g) (hold : s.pc.holding = true) :
    ∃ code, s.pipeline.sup = .returned code := by
  have hret := h.returned (RunPc.holding_after hold)
  unfold Pipeline.hasReturned at hret
  split at hret
  · exact ⟨_, ‹_›⟩
  · cases hret

/-- Every child has been waited for, and the flags are settled. -/
theorem Held.flags (h : Held s g) (hold : s.pc.holding = true) :
    s.pipeline.layout.control.shutdown ≠ 0
      ∧ (s.pipeline.layout.control.ingestDone ≠ 0 ↔ g.ingest = false)
      ∧ (s.pipeline.layout.control.computeDone ≠ 0 ↔ g.compute = false) := by
  obtain ⟨code, hsup⟩ := h.sup_returned hold
  have hover : computeSettled s.pipeline.sup s.pipeline.compute = true := by
    rw [hsup]
    rfl
  exact ⟨h.ending.sound.skeleton.shutdown.mpr (by rw [hsup]; rfl),
    h.ending.ingest.after (h.ending.reaped (by rw [hsup]; rfl)), h.ending.compute.after hover⟩

/-- In the hold no store can be lost any more. -/
theorem Held.quiet (h : Held s g) (hold : s.pc.holding = true) {a : RunAct}
    (hs : s.step a = some s') : noteLost g s a s' = g := by
  have hpipe : s.pc ≠ .pipeline := by
    intro he
    rw [he] at hold
    cases hold
  have hreset : s.pc ≠ .reset := by
    intro he
    rw [he] at hold
    cases hold
  obtain ⟨code, hsup⟩ := h.sup_returned hold
  -- neither ingest nor compute is there to end
  have hnoIngest : ∀ q, s.pipeline.ingest ≠ .running q := by
    intro q hq
    have hwait := h.ending.reaped (by rw [hsup]; rfl)
    rw [hq] at hwait
    cases hwait
  have hnoCompute := h.ending.sound.skeleton.not_running (by rw [hsup]; rfl)
  cases runMove_of_step hs with
  | @pipe a p hr hin hp =>
      have hout : inside a = false := by
        by_contra hne
        exact hpipe (hin (by simpa using hne))
      cases Pipeline.move_of_step hp with
      | rerun _ => exact absurd rfl hr
      | ingestRefused hq _ => exact absurd hq (hnoIngest _)
      | killIngest hq => exact absurd hq (hnoIngest _)
      | computeCrash hq _ => exact absurd hq (hnoCompute _)
      | computeRefused hq _ => exact absurd hq (hnoCompute _)
      | killCompute hq => exact absurd hq (hnoCompute _)
      | _ => first | rfl | cases hout
  | _ => first | rfl | exact noteLost_main hreset

/-- `y` is a later moment of the hold in which the supervisor is at `x`. -/
def HeldOn (x y : Transition.Noted RunSupervisor Lost) : Prop :=
  Transition.Reachable (Transition.notedStep step noteLost) (fun z _ => z.now.pc.holding = true)
      (· = x) y
    ∧ y.now.pc.holding = true

theorem HeldOn.reachable {x y : Transition.Noted RunSupervisor Lost} (hx : ReachableLosing x)
    (h : HeldOn x y) : ReachableLosing y ∧ y.past = x.past := by
  refine Transition.Reachable.invariant (I := fun y => ReachableLosing y ∧ y.past = x.past) ?_ ?_
    h.1
  · rintro y rfl
    exact ⟨hx, rfl⟩
  · rintro y a z ⟨hy, hpast⟩ hold hs
    obtain ⟨hstep, hz⟩ := Transition.notedStep_some hs
    refine ⟨hy.tail trivial hs, ?_⟩
    rw [hz, (held_reachable hy).quiet hold hstep, hpast]

/--
**When a hold is reported as idle.** In every run, with any number of pipelines and with
children that die at any point: a call of `collect_telemetry` whose loads all fall into one
hold returns `idle = 1` exactly when, in the pipeline before this hold, ingest did not end
with `ingest_done` clear and the last compute attempt did not end with `compute_done` clear.
-/
theorem hold_reports_idle {x : Transition.Noted RunSupervisor Lost} (h : ReachableLosing x)
    (nowNs : UInt64) {ls : Nat → Layout}
    (hls : ∀ k, ∃ y, HeldOn x y ∧ ls k = y.now.pipeline.layout) :
    ∃ snap, (∀ snap', Collects ls nowNs snap' ↔ snap' = snap)
      ∧ (snap.idle = 1 ↔ x.past.ingest = false ∧ x.past.compute = false) := by
  have hflags : ∀ k, (ls k).control.shutdown ≠ 0
      ∧ ((ls k).control.ingestDone ≠ 0 ↔ x.past.ingest = false)
      ∧ ((ls k).control.computeDone ≠ 0 ↔ x.past.compute = false) := by
    intro k
    obtain ⟨y, hy, hl⟩ := hls k
    obtain ⟨hr, hpast⟩ := hy.reachable h
    rw [hl, ← hpast]
    exact (held_reachable hr).flags hy.2
  obtain ⟨snap, hreturns, _, hidle⟩ := collects ls nowNs
  refine ⟨snap, hreturns, ?_⟩
  rw [hidle, idleOf_eq_one, (hflags 8).2.1, (hflags 12).2.2]
  exact ⟨fun hall => hall.2, fun hboth => ⟨(hflags 1).1, hboth⟩⟩

/-- Ingest starts, finds its file empty and ends; publish starts. -/
def emptyIngest : List RunAct :=
  List.map RunAct.pipe ([Act.sup 7, .sup 0, .sup 7, .sup 0, .ingestMain, .source, .source, .frames]
    ++ List.replicate 4 .ingestMain)

/-- Publish finds the shutdown flag and ends, and the pipeline returns. -/
def publishStops : List RunAct :=
  List.map RunAct.pipe (List.replicate 3 .publish ++ List.replicate 2 (.sup 0))

/-- The first attempt of compute does its work, on no records. -/
def emptyCompute : List RunAct :=
  List.map RunAct.pipe ([Act.sup 7, .sup 0] ++ List.replicate 2 .computeMain
    ++ List.replicate 9 .fast ++ List.replicate 452 .window ++ List.replicate 328 .snapshot
    ++ [.watchdog] ++ List.replicate 7 .computeMain ++ List.replicate 5 (.sup 0))

/-- Compute crashes in each of its three attempts. -/
def crashes : List RunAct :=
  List.map RunAct.pipe
    ((List.replicate 3 [Act.sup 7, .computeCrash, .sup 0, .sup 0, .sup 0, .sup 0]).flatten
      ++ List.replicate 2 (.sup 0))

/-- After a pipeline in which all goes well. -/
theorem hold_reports_idle_success :
    ∃ x, ReachableLosing x ∧ x.now.pc.holding = true
      ∧ ∃ snap, Collects (fun _ => x.now.pipeline.layout) 999 snap ∧ snap.idle = 1 := by
  have h : (Transition.execWhen (Transition.notedStep step noteLost) (fun _ _ => true)
      ⟨start [] 1 true true, {}⟩
      ([.main 7, .main 7] ++ emptyIngest ++ emptyCompute ++ publishStops ++ intoHold)).any
      (fun x => x.now.pc.holding && decide (x.past.ingest = false)
        && decide (x.past.compute = false)) = true := by
    decide +kernel
  obtain ⟨x, hrun, hx⟩ := Option.any_eq_true _ _ |>.mp h
  simp only [Bool.and_eq_true, decide_eq_true_eq] at hx
  obtain ⟨⟨hold, hi⟩, hc⟩ := hx
  have hr : ReachableLosing x :=
    Transition.ReachableNoted.execWhen (fun _ _ _ => trivial) ⟨_, _, _, _, rfl⟩ hrun
  obtain ⟨snap, hreturns, hidle⟩ := hold_reports_idle hr 999
    (fun _ => ⟨x, ⟨.init rfl, hold⟩, rfl⟩)
  exact ⟨x, hr, hold, snap, (hreturns snap).mpr rfl, hidle.mpr ⟨hi, hc⟩⟩

/-- After three crashes: the supervisor holds, and the observer is told that it does not
idle. -/
theorem crashed_hold_not_idle :
    ∃ s, Reachable s ∧ s.paced = true ∧ s.unobserved = false ∧ s.pc.holding = true
      ∧ ∃ snap, (∀ snap', Collects (fun _ => s.pipeline.layout) 999 snap' ↔ snap' = snap)
        ∧ snap.idle = 0 := by
  have h : (Transition.exec step (start [] 1 true true)
      ([.main 7, .main 7] ++ emptyIngest ++ crashes ++ publishStops ++ intoHold)).any
      (fun s => s.paced && !s.unobserved && s.pc.holding
        && decide (idleOf (fun _ => s.pipeline.layout) = 0)) = true := by
    decide +kernel
  obtain ⟨s, hrun, hs⟩ := Option.any_eq_true _ _ |>.mp h
  simp only [Bool.and_eq_true, Bool.not_eq_true', decide_eq_true_eq] at hs
  obtain ⟨⟨⟨hpaced, hobs⟩, hold⟩, hzero⟩ := hs
  obtain ⟨snap, hreturns, _, hidle⟩ := collects (fun _ => s.pipeline.layout) 999
  exact ⟨s, Transition.Reachable.exec (fun _ _ => trivial) _ (.init ⟨_, _, _, _, rfl⟩) hrun,
    hpaced, hobs, hold, snap, hreturns, hidle.trans hzero⟩

end RunSupervisor

end RateHub
