import RateHub.Process.CrashSwitch
import RateHub.Proof.Output

/-!
# What the crash switch does

With `always` no attempt gets to work, so the run fails whatever else happens and no file is
written. With `once` the marker counts: an attempt that ends with status 2, or is about to,
has left it, and no attempt that finds it does. With any other value, or none, no attempt
ends with status 2.
-/

namespace RateHub

namespace Switched

variable {crash : Option String} {shm : String} {x x' : Switched}

/-- The ways a step can come about. -/
inductive SwitchMove (crash : Option String) (shm : String) (x : Switched) : Switched → Prop
  | system {a : Act} {s : Pipeline} (hperm : x.permits a = true) (hs : x.system.step a = some s) :
      SwitchMove crash shm x
        { x with system := s, pc := if x.spawns a then .ask else x.pc }
  | ask (hasking : x.asking = true) (hpc : x.pc = .ask) :
      SwitchMove crash shm x { x with pc := crashAsked crash (x.files (crashMarker shm)) }
  | created (hasking : x.asking = true) (hpc : x.pc = .create) :
      SwitchMove crash shm x
        { x with pc := .answered true
                 files := Function.update x.files (crashMarker shm) true }
  | refused (hasking : x.asking = true) (hpc : x.pc = .create) :
      SwitchMove crash shm x { x with pc := .answered false }

theorem switchMove {a : SwitchedAct} (h : x.step crash shm a = some x') :
    SwitchMove crash shm x x' := by
  cases a with
  | system a =>
      simp only [step] at h
      split at h
      · rename_i hperm
        simp only [Option.map_eq_some_iff] at h
        obtain ⟨s, hs, rfl⟩ := h
        exact .system hperm hs
      · exact absurd h (by simp)
  | ask =>
      simp only [step] at h
      split at h
      · rename_i hask
        obtain rfl := Option.some.inj h
        exact .ask hask.1 hask.2
      · exact absurd h (by simp)
  | create good =>
      simp only [step] at h
      split at h
      · rename_i hask
        cases good with
        | true =>
            obtain rfl := Option.some.inj h
            exact .created hask.1 hask.2
        | false =>
            obtain rfl := Option.some.inj h
            exact .refused hask.1 hask.2
      · exact absurd h (by simp)

/-- The pipeline inside is a pipeline. -/
theorem Reachable.pipeline (h : Reachable crash shm x) : Pipeline.Reachable x.system := by
  induction h with
  | init hstart => exact .init hstart.1
  | tail _ _ hs ih =>
      cases switchMove hs with
      | system hperm hst => exact ih.tail trivial hst
      | _ => exact ih

theorem asking_iff : x.asking = true ↔ ∃ p, x.system.compute = .running p ∧ p.main = .crash := by
  unfold asking
  cases x.system.compute <;> simp

end Switched

namespace Pipeline

variable {s s' : Pipeline}

/-! ## Counting crashes -/

/-- An attempt that has ended with status 2 and has not been waited for. -/
def crashDue (s : Pipeline) : Nat :=
  if s.compute.wait = some 2 ∧ s.sup.awaiting = true then 1 else 0

/-- The attempts that have ended with status 2. -/
def crashes (s : Pipeline) : Nat := s.exits.count 2 + s.crashDue

theorem crashDue_le (s : Pipeline) : s.crashDue ≤ 1 := by
  unfold crashDue
  split <;> omega

theorem crashDue_of_wait (h : s.compute.wait ≠ some 2) : s.crashDue = 0 :=
  if_neg fun hboth => h hboth.1

theorem crashDue_of_idle (h : s.sup.awaiting = false) : s.crashDue = 0 :=
  if_neg fun hboth => Bool.noConfusion (h.symm.trans hboth.2)

/-- A step that leaves compute, its record and the supervisor's wait alone. -/
theorem crashes_congr (hcom : s'.compute = s.compute) (hx : s'.exits = s.exits)
    (hawait : s'.sup.awaiting = s.sup.awaiting) : s'.crashes = s.crashes := by
  unfold crashes crashDue
  rw [hcom, hx, hawait]

/-- A step after which compute has not ended with status 2. -/
theorem crashes_le (hx : s'.exits = s.exits) (hw : s'.compute.wait ≠ some 2) :
    s'.crashes ≤ s.crashes := by
  unfold crashes
  rw [crashDue_of_wait hw, hx]
  exact Nat.le_add_right _ _

/-- **Only a crash adds one.** -/
theorem crashes_step {a : Act} (hsound : Sound s) (hs : s.step a = some s') :
    s'.crashes ≤ s.crashes ∨ (a = .computeCrash ∧ s'.crashes ≤ s.crashes + 1) := by
  cases move_of_step hs with
  | computeCrash hp hm =>
      refine Or.inr ⟨rfl, ?_⟩
      have hnone : s.crashDue = 0 := crashDue_of_wait (by rw [hp]; simp [Child.wait])
      unfold crashes
      rw [hnone]
      exact Nat.add_le_add_left (crashDue_le _) _
  | @reapCompute pid n status hsup hw =>
      left
      have hidle : ({ s with sup := .storeComputeExit n status
                             exits := s.exits ++ [status] } : Pipeline).crashDue = 0 :=
        crashDue_of_idle rfl
      unfold crashes
      rw [hidle, List.count_append, Nat.add_zero]
      refine Nat.add_le_add_left ?_ _
      -- the status moves from the child to the record
      by_cases htwo : status = 2
      · subst htwo
        have hdue : s.crashDue = 1 := if_pos ⟨hw, by rw [hsup]; rfl⟩
        rw [hdue]
        decide
      · rw [List.count_singleton, if_neg (by simpa using htwo)]
        exact Nat.zero_le _
  | @computeExit p code hp hm =>
      refine Or.inl (crashes_le rfl ?_)
      have hcode := (hsound.stages p hp).code code hm
      show some code ≠ some 2
      rw [hcode]
      split <;> decide
  | spawnIngest hsup => exact Or.inl (Nat.le_of_eq (crashes_congr rfl rfl (by rw [hsup]; rfl)))
  | noIngest hsup => exact Or.inl (Nat.le_of_eq (crashes_congr rfl rfl (by rw [hsup]; rfl)))
  | spawnPublish hsup => exact Or.inl (Nat.le_of_eq (crashes_congr rfl rfl (by rw [hsup]; rfl)))
  | noPublish hsup => exact Or.inl (Nat.le_of_eq (crashes_congr rfl rfl (by rw [hsup]; rfl)))
  | reapIngest hsup hw => exact Or.inl (Nat.le_of_eq (crashes_congr rfl rfl (by rw [hsup]; rfl)))
  | reapPublish hsup hw => exact Or.inl (Nat.le_of_eq (crashes_congr rfl rfl (by rw [hsup]; rfl)))
  | store hst => exact Or.inl (Nat.le_of_eq (crashes_congr rfl rfl (supStep_stored hst).awaiting))
  | spawnCompute hsup => exact Or.inl (crashes_le rfl (by simp [Child.wait]))
  | noCompute hsup => exact Or.inl (crashes_le rfl (by simp [Child.wait]))
  | rerun hsup => exact Or.inl (crashes_le rfl (by simp [Child.wait]))
  | fast hp ha hst => exact Or.inl (crashes_le rfl (by simp [withCompute, Child.wait]))
  | window hp ha hst => exact Or.inl (crashes_le rfl (by simp [withCompute, Child.wait]))
  | snapshot hp ha hpc hst => exact Or.inl (crashes_le rfl (by simp [withCompute, Child.wait]))
  | handOver hp ha hpc hst => exact Or.inl (crashes_le rfl (by simp [withCompute, hand, Child.wait]))
  | watchdog hp ha hst => exact Or.inl (crashes_le rfl (by simp [withCompute, Child.wait]))
  | computeMain hp hst => exact Or.inl (crashes_le rfl (by simp [withCompute, Child.wait]))
  | computeRefused hp hm => exact Or.inl (crashes_le rfl (by simp [Child.wait]))
  | killCompute hp => exact Or.inl (crashes_le rfl (by simp [Child.wait]))
  | _ => exact Or.inl (Nat.le_of_eq (crashes_congr rfl rfl rfl))

/-- An attempt stands before its first step only where it stood there, or has just started. -/
theorem before_crash {a : Act} {p' : Compute} (hs : s.step a = some s')
    (hp' : s'.compute = .running p') (hm' : p'.main = .crash) :
    (∃ p, s.compute = .running p ∧ p.main = .crash)
      ∨ ∃ pid n, a = .sup pid ∧ s.sup = .spawnCompute n := by
  cases move_of_step hs with
  | spawnCompute hsup => exact Or.inr ⟨_, _, rfl, hsup⟩
  | fast hp ha hst => exact Or.inl ⟨_, hp, by rw [← hm', ← Child.running.inj hp']⟩
  | window hp ha hst => exact Or.inl ⟨_, hp, by rw [← hm', ← Child.running.inj hp']⟩
  | snapshot hp ha hpc hst => exact Or.inl ⟨_, hp, by rw [← hm', ← Child.running.inj hp']⟩
  | handOver hp ha hpc hst => exact Or.inl ⟨_, hp, by rw [← hm', ← Child.running.inj hp']⟩
  | watchdog hp ha hst => exact Or.inl ⟨_, hp, by rw [← hm', ← Child.running.inj hp']⟩
  | @computeMain p l' pc' hp hst =>
      obtain rfl := Child.running.inj hp'
      have hpc : pc' = .crash := hm'
      subst hpc
      unfold computeMainStep at hst
      cases hm : p.main <;> simp only [hm, reduceCtorEq] at hst
      all_goals (try split at hst)
      all_goals simp only [Option.some.injEq, Prod.mk.injEq, reduceCtorEq, and_false] at hst
  | noCompute hsup => cases hp'
  | rerun hsup => cases hp'
  | computeExit hp hm => cases hp'
  | computeCrash hp hm => cases hp'
  | computeRefused hp hm => cases hp'
  | killCompute hp => cases hp'
  | _ => exact Or.inl ⟨p', hp', hm'⟩

end Pipeline

namespace Switched

variable {crash : Option String} {shm : String} {x x' : Switched}

/-! ## Once -/

/-- The attempt in progress has been told to crash. -/
def told (x : Switched) : Nat := if x.asking = true ∧ x.pc = .answered true then 1 else 0

theorem told_of_pc (h : x.pc ≠ .answered true) : x.told = 0 := if_neg fun hboth => h hboth.2

theorem told_le (x : Switched) : x.told ≤ 1 := by
  unfold told
  split <;> omega

/-- A step of the pipeline tells nobody to crash. -/
theorem told_system {a : Act} {s : Pipeline} (hs : x.system.step a = some s) :
    ({ x with system := s, pc := if x.spawns a then .ask else x.pc } : Switched).told ≤ x.told := by
  by_cases hspawns : x.spawns a = true
  · -- an attempt that has just started has not been told anything
    rw [if_pos hspawns, told_of_pc (by simp)]
    exact Nat.zero_le _
  · rw [if_neg hspawns]
    by_cases hboth : ({ x with system := s, pc := x.pc } : Switched).asking = true
        ∧ x.pc = .answered true
    · obtain ⟨p', hp', hm'⟩ := asking_iff.mp hboth.1
      rcases Pipeline.before_crash hs hp' hm' with ⟨p, hp, hm⟩ | ⟨pid, n, rfl, hsup⟩
      · rw [show x.told = 1 from if_pos ⟨asking_iff.mpr ⟨p, hp, hm⟩, hboth.2⟩]
        exact told_le _
      · exact absurd (by simp [spawns, hsup]) hspawns
    · exact Nat.le_trans (Nat.le_of_eq (if_neg hboth)) (Nat.zero_le _)

/-- The marker counts the crash. -/
structure Once (shm : String) (x : Switched) : Prop where
  created : x.pc = .create → x.files (crashMarker shm) = false
  told : x.pc = .answered true → x.files (crashMarker shm) = true
  count : x.system.crashes + x.told ≤ (x.files (crashMarker shm)).toNat

theorem once_step (h : Once shm x) (hsound : Pipeline.Sound x.system)
    (hm : SwitchMove (some "once") shm x x') : Once shm x' := by
  cases hm with
  | @system a s hperm hs =>
      have htold := told_system hs
      have hpc : ∀ pc, pc ≠ .ask → (if x.spawns a then CrashPc.ask else x.pc) = pc → x.pc = pc := by
        intro pc hne heq
        split at heq
        · exact absurd heq.symm hne
        · exact heq
      refine ⟨fun hc => h.created (hpc _ (by simp) hc), fun hc => h.told (hpc _ (by simp) hc), ?_⟩
      rcases Pipeline.crashes_step hsound hs with hle | ⟨rfl, hle⟩
      · exact Nat.le_trans (Nat.add_le_add hle htold) h.count
      · -- the attempt that ends had been told to
        have hyes : x.pc = .answered true := by simpa [permits] using hperm
        have hgone : ({ x with system := s
                               pc := if x.spawns .computeCrash then .ask else x.pc } : Switched).told
            = 0 := by
          cases Pipeline.move_of_step hs with
          | computeCrash hp hm => simp [Switched.told, asking]
        have hasking : x.asking = true := by
          cases Pipeline.move_of_step hs with
          | computeCrash hp hm => exact asking_iff.mpr ⟨_, hp, hm⟩
        have hone : x.told = 1 := if_pos ⟨hasking, hyes⟩
        have hcount := h.count
        rw [hone] at hcount
        rw [hgone]
        exact Nat.le_trans hle hcount
  | ask hasking hpc =>
      have hcount := h.count
      rw [told_of_pc (by rw [hpc]; simp)] at hcount
      cases hmark : x.files (crashMarker shm) with
      | true =>
          rw [hmark] at hcount
          refine ⟨by simp [crashAsked], by simp [crashAsked], ?_⟩
          rw [told_of_pc (by simp [crashAsked])]
          simpa [hmark] using hcount
      | false =>
          rw [hmark] at hcount
          refine ⟨fun _ => hmark, by simp [crashAsked], ?_⟩
          rw [told_of_pc (by simp [crashAsked])]
          simpa [hmark] using hcount
  | created hasking hpc =>
      have hcount := h.count
      rw [h.created hpc, told_of_pc (by rw [hpc]; simp)] at hcount
      refine ⟨by simp, by simp, ?_⟩
      have hzero : x.system.crashes = 0 := by simpa using hcount
      simp only [hzero, Function.update_self, Bool.toNat_true, Nat.zero_add]
      exact told_le _
  | refused hasking hpc =>
      have hcount := h.count
      rw [told_of_pc (by rw [hpc]; simp)] at hcount
      refine ⟨by simp, by simp, ?_⟩
      rw [told_of_pc (by simp)]
      exact hcount

theorem once_reachable (h : Reachable (some "once") shm x) : Once shm x := by
  induction h with
  | init hstart =>
      obtain ⟨⟨replay, clock, hs⟩, hpc⟩ := hstart
      refine ⟨by simp [hpc], by simp [hpc], ?_⟩
      rw [told_of_pc (by simp [hpc]), hs]
      exact Nat.zero_le _
  | tail hr _ hs ih =>
      exact once_step ih (Pipeline.sound_reachable (Reachable.pipeline hr)) (switchMove hs)

/-! ## Never -/

/-- No attempt has crashed, and none will. -/
structure NeverCrashes (x : Switched) : Prop where
  pc : x.pc = .ask ∨ x.pc = .answered false
  crashes : x.system.crashes = 0

theorem neverCrashes_reachable (ha : crash ≠ some "always") (ho : crash ≠ some "once")
    (h : Reachable crash shm x) : NeverCrashes x := by
  have hasked : ∀ marked, crashAsked crash marked = .answered false := by
    intro marked
    cases crash with
    | none => rfl
    | some value =>
        have hva : value ≠ "always" := fun he => ha (congrArg some he)
        have hvo : value ≠ "once" := fun he => ho (congrArg some he)
        simp [crashAsked, hva, hvo]
  induction h with
  | init hstart =>
      obtain ⟨⟨replay, clock, hs⟩, hpc⟩ := hstart
      exact ⟨Or.inl hpc, by rw [hs]; rfl⟩
  | tail hr _ hs ih =>
      cases switchMove hs with
      | @system a s hperm hst =>
          refine ⟨?_, ?_⟩
          · simp only
            split
            · exact Or.inl rfl
            · exact ih.pc
          · rcases Pipeline.crashes_step (Pipeline.sound_reachable (Reachable.pipeline hr)) hst with
              hle | ⟨rfl, _⟩
            · exact Nat.le_zero.mp (Nat.le_trans hle (Nat.le_of_eq ih.crashes))
            · have hyes := of_decide_eq_true hperm
              rcases ih.pc with hpc | hpc <;> rw [hpc] at hyes <;> cases hyes
      | ask hasking hpc => exact ⟨Or.inr (hasked _), ih.crashes⟩
      | created hasking hpc =>
          rcases ih.pc with h | h <;> rw [h] at hpc <;> cases hpc
      | refused hasking hpc =>
          rcases ih.pc with h | h <;> rw [h] at hpc <;> cases hpc

/-! ## Always -/

/-- No attempt gets past the switch. -/
structure NeverStarts (x : Switched) : Prop where
  pc : x.pc = .ask ∨ x.pc = .answered true
  compute : ∀ p, x.system.compute = .running p → p = Compute.init
  failed : x.system.compute ≠ .ended (.exited 0)
  unused : Pipeline.Unused x.system
  spared : Pipeline.ReachableSpared x.system

/-- Nothing has been handed over, so publish is never inside an adoption. -/
theorem killsClean_of_unused {s : Pipeline} (hw : Pipeline.Whole s) (hu : Pipeline.Unused s)
    (hc : ∀ p, s.compute = .running p → p = Compute.init) (a : Act) : s.killsClean a = true := by
  cases a with
  | killCompute =>
      have hidle : s.pubCall = .idle := by
        unfold Pipeline.pubCall
        cases hcom : s.compute with
        | running p =>
            obtain rfl := hc p hcom
            rfl
        | _ => rfl
      simp [Pipeline.killsClean, TripleBuffer.cleanKill, Pipeline.buffer, hidle]
  | killPublish =>
      have hnone : s.layout.snapshots.published = [] := by
        rw [hw.handed, hu.handed]
        rfl
      obtain ⟨w, m, r, fresh, hown⟩ := TripleBuffer.inv_reachable hw.buffer
      have hseen : s.layout.snapshots.seen ≤ s.layout.snapshots.published.length := hown.seen_le
      rw [hnone] at hseen
      have hnot : ∀ old, s.conCall ≠ .update old := by
        intro old hold
        unfold Pipeline.conCall at hold
        cases hpub : s.publish with
        | running q =>
            simp only [hpub] at hold
            have hpc : q.pc = .consume (.update old) := by
              cases hq : q.pc <;> simp [hq, PublishPc.conCall] at hold ⊢
              exact hold
            have := (hw.reads q hpub).seen (by rw [hpc]; rfl)
            simp at hseen
            omega
        | _ => simp [hpub] at hold
      unfold Pipeline.killsClean TripleBuffer.cleanKill Pipeline.buffer
      cases hcall : s.conCall with
      | update old => exact absurd hcall (hnot old)
      | _ => rfl
  | _ => rfl

/-- What a pipeline's step does where no attempt gets past its first step. -/
theorem unstarted_step {s s' : Pipeline} {a : Act} (hu : Pipeline.Unused s)
    (hc : ∀ p, s.compute = .running p → p = Compute.init) (hf : s.compute ≠ .ended (.exited 0))
    (ha : a = .computeMain → ∀ p, s.compute ≠ .running p) (hs : s.step a = some s') :
    Pipeline.Unused s' ∧ (∀ p, s'.compute = .running p → p = Compute.init)
      ∧ s'.compute ≠ .ended (.exited 0) := by
  -- the four threads start with the attach
  have hidle : ∀ p, s.compute = .running p → p.attached = true → False := by
    intro p hp hatt
    rw [hc p hp] at hatt
    cases hatt
  cases Pipeline.move_of_step hs with
  | fast hp hatt hst => exact absurd hatt (hidle _ hp)
  | window hp hatt hst => exact absurd hatt (hidle _ hp)
  | snapshot hp hatt hpc hst => exact absurd hatt (hidle _ hp)
  | handOver hp hatt hpc hst => exact absurd hatt (hidle _ hp)
  | watchdog hp hatt hst => exact absurd hatt (hidle _ hp)
  | computeMain hp hst => exact absurd hp (ha rfl _)
  | computeExit hp hm => exact absurd hp (ha rfl _)
  | computeCrash hp hm => exact ⟨hu.frame rfl rfl rfl rfl rfl, by simp, by simp⟩
  | computeRefused hp hm => exact ⟨hu.frame rfl rfl rfl rfl rfl, by simp, by simp⟩
  | killCompute hp => exact ⟨hu.frame rfl rfl rfl rfl rfl, by simp, by simp⟩
  | spawnCompute hsup =>
      exact ⟨hu.frame rfl rfl rfl rfl rfl, fun p hp => (Child.running.inj hp).symm, by simp⟩
  | noCompute hsup => exact ⟨hu.frame rfl rfl rfl rfl rfl, by simp, by simp⟩
  | rerun hsup =>
      exact ⟨⟨⟨rfl, hu.layout.latest, hu.layout.window⟩, hu.popped, hu.handed⟩, by simp, by simp⟩
  | store hst =>
      obtain ⟨sh, g, sv, rfl⟩ := (supStep_stored hst).layout
      exact ⟨hu.frame rfl rfl rfl rfl rfl, hc, hf⟩
  | source hp hm hst =>
      obtain ⟨n, rfl⟩ := Ingest.stepSource_layout hst
      exact ⟨hu.frame rfl rfl rfl rfl rfl, hc, hf⟩
  | frames hp hm hst =>
      have hpop := Ingest.stepFrames_popped hst
      obtain ⟨r, rfl⟩ := Ingest.stepFrames_layout hst
      exact ⟨hu.frame rfl rfl rfl hpop rfl, hc, hf⟩
  | ingestMain hp hst =>
      obtain ⟨n, rfl⟩ := Ingest.stepMain_layout hst
      exact ⟨hu.frame rfl rfl rfl rfl rfl, hc, hf⟩
  | publish hp hw hst =>
      obtain ⟨hb, b, rfl⟩ := Publish.step_layout hst
      exact ⟨hu.frame rfl rfl rfl rfl rfl, hc, hf⟩
  | _ => exact ⟨hu.frame rfl rfl rfl rfl rfl, hc, hf⟩

theorem neverStarts_reachable (h : Reachable (some "always") shm x) : NeverStarts x := by
  induction h with
  | init hstart =>
      obtain ⟨⟨replay, clock, hs⟩, hpc⟩ := hstart
      refine ⟨Or.inl hpc, ?_, ?_, ?_, .init ⟨replay, clock, hs⟩⟩
      · rw [hs]
        intro p hp
        cases hp
      · rw [hs]
        simp [Pipeline.start]
      · rw [hs]
        exact ⟨⟨rfl, rfl, rfl⟩, rfl, rfl⟩
  | @tail x x' a hr _ hs ih =>
      cases switchMove hs with
      | @system a s hperm hst =>
          have hmain : a = .computeMain → ∀ p, x.system.compute ≠ .running p := by
            rintro rfl p hp
            have hasking : x.asking = true :=
              asking_iff.mpr ⟨p, hp, by rw [ih.compute p hp]; rfl⟩
            have hno : x.pc = .answered false := by simpa [permits, hasking] using hperm
            rcases ih.pc with hpc | hpc <;> rw [hpc] at hno <;> cases hno
          obtain ⟨hu, hc, hf⟩ := unstarted_step ih.unused ih.compute ih.failed hmain hst
          refine ⟨?_, hc, hf, hu, ih.spared.tail ?_ hst⟩
          · show (if x.spawns a then CrashPc.ask else x.pc) = .ask ∨ _
            split
            · exact Or.inl rfl
            · exact ih.pc
          · exact killsClean_of_unused (Pipeline.whole_reachable ih.spared) ih.unused ih.compute a
      | ask hasking hpc => exact ⟨Or.inr rfl, ih.compute, ih.failed, ih.unused, ih.spared⟩
      | created hasking hpc => rcases ih.pc with h | h <;> rw [h] at hpc <;> cases hpc
      | refused hasking hpc => rcases ih.pc with h | h <;> rw [h] at hpc <;> cases hpc

/-- Publish opens no file where nothing is handed over. -/
theorem NeverStarts.unwritten (h : NeverStarts x) : x.system.outFile = none := by
  obtain ⟨past, hnoting⟩ := Transition.ReachableNoted.of_reachable Pipeline.noteTorn false h.spared
  obtain ⟨-, hfiled⟩ := Pipeline.filed_reachable hnoting
  cases hfile : x.system.outFile with
  | none => rfl
  | some text => exact absurd h.unused.handed (hfiled.source text hfile).1

/--
**What the switch can do to a run.** Over any number of pipelines of one supervisor, with
spawns failing and processes refused and killed at any point, even between the look for the
marker and its creation: without a value, or with another value than the two, no attempt ends
with status 2; with `once` at most one does; with `always` no attempt takes a record from the
ring or hands a snapshot over, there is no output file, and no pipeline returns 0.
-/
theorem crash_switch (h : Reachable crash shm x) :
    (crash ≠ some "always" → crash ≠ some "once" → 2 ∉ x.system.exits)
      ∧ (crash = some "once" → x.system.exits.count 2 ≤ 1)
      ∧ (crash = some "always" → x.system.layout.ring.popped = [] ∧ x.system.handed = []
        ∧ x.system.outFile = none ∧ x.system.sup ≠ .returned 0) := by
  refine ⟨fun ha ho => ?_, ?_, ?_⟩
  · have hzero := (neverCrashes_reachable ha ho h).crashes
    unfold Pipeline.crashes at hzero
    exact List.count_eq_zero.mp (by omega)
  · rintro rfl
    have hcount := (once_reachable h).count
    have hle : (x.files (crashMarker shm)).toNat ≤ 1 := Bool.toNat_le _
    unfold Pipeline.crashes at hcount
    omega
  · rintro rfl
    have hnever := neverStarts_reachable h
    refine ⟨hnever.unused.popped, hnever.unused.handed, hnever.unwritten, ?_⟩
    intro hret
    exact hnever.failed (Pipeline.wonEnded_reachable hnever.spared (by rw [hret]; rfl))

/-- The first attempt leaves the marker and ends, the second one finds it. -/
def crashedOnce : List SwitchedAct :=
  List.flatten
    [List.replicate 6 (.system (.sup 7)), [.ask, .create true, .system .computeCrash],
      List.replicate 5 (.system (.sup 7)), [.ask]]

theorem crash_switch_once :
    ∃ x, Reachable (some "once") "/ratehub-7" x ∧ x.pc = .answered false
      ∧ x.system.exits = [2] ∧ x.system.exits.count 2 ≤ 1 := by
  have h : (Transition.execWhen (step (some "once") "/ratehub-7") (fun _ _ => true)
      ⟨Pipeline.start [] 1, fun _ => false, .ask⟩ crashedOnce).any
      (fun x => decide (x.pc = .answered false) && decide (x.system.exits = [2])) = true := by
    decide +kernel
  obtain ⟨x, hrun, hx⟩ := Option.any_eq_true _ _ |>.mp h
  simp only [Bool.and_eq_true, decide_eq_true_eq] at hx
  have hr : Reachable (some "once") "/ratehub-7" x :=
    Transition.Reachable.execWhen (g := fun _ _ => true) (fun _ _ _ => trivial) _
      (.init ⟨⟨_, _, rfl⟩, rfl⟩) hrun
  exact ⟨x, hr, hx.1, hx.2, (crash_switch hr).2.1 rfl⟩

end Switched

end RateHub
