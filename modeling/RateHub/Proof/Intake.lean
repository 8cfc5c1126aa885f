import RateHub.Proof.Replayed
import RateHub.Proof.Reruns

/-!
# What one pipeline takes in

`ingest_refines` and `no_record_lost` are about ingest with its neighbours and about the two
ends of the ring. Here both stand in the whole system, with the supervisor, the attempts
and the deaths of the children around them, for one pipeline on a fresh mapping: what is
in the ring's history is a prefix of the file's good records, it is all of them once ingest
has stored its flag with the shutdown flag still clear, and an attempt that ends well has
popped all of it if the flag did not fall into the gap.
-/

namespace RateHub

/-! ## Ingest's threads, once attached -/

theorem Ingest.stepSource_main {l l' : Layout} {p p' : Ingest}
    (hs : p.stepSource l = some (l', p')) : p'.main = p.main := by
  simp only [Ingest.stepSource, Option.map_eq_some_iff, Prod.mk.injEq] at hs
  obtain ⟨_, _, _, rfl⟩ := hs
  rfl

theorem Ingest.stepFrames_main {l l' : Layout} {p p' : Ingest}
    (hs : p.stepFrames l = some (l', p')) : p'.main = p.main ∧ p.frames ≠ .done := by
  refine ⟨?_, ?_⟩
  · simp only [Ingest.stepFrames, Option.map_eq_some_iff, Prod.mk.injEq] at hs
    obtain ⟨_, _, _, rfl⟩ := hs
    rfl
  · intro hd
    simp [Ingest.stepFrames, framesStep, hd] at hs

theorem Ingest.stepMain_attached {l l' : Layout} {p p' : Ingest}
    (hs : p.stepMain l = some (l', p')) : p.main ≠ .attach ∧ p'.main ≠ .attach := by
  simp only [Ingest.stepMain, Option.map_eq_some_iff, Prod.mk.injEq] at hs
  obtain ⟨⟨l₁, m₁⟩, hmain, _, rfl⟩ := hs
  unfold ingestMainStep at hmain
  cases hm : p.main <;> simp only [hm, reduceCtorEq] at hmain
  all_goals (try split at hmain)
  all_goals simp only [Option.some.injEq, Prod.mk.injEq, reduceCtorEq] at hmain
  all_goals rw [← hmain.2]; simp

namespace Pipeline

/-! ## Ingest's side -/

/-- Where the records of the replay file are. -/
structure Intake (s : Pipeline) : Prop where
  unborn : s.ingest = .unborn → s.layout.ring.pushed = []
  waits : ∀ p, s.ingest = .running p → p.main = .attach →
    p = Ingest.init s.replay ∧ s.layout.ring.pushed = []
  traced : ∀ p, s.ingest = .running p → p.main ≠ .attach →
    Traced s.replay s.layout.control.shutdown s.layout.ring.pushed p
  within : s.layout.ring.pushed <+: replayRecords s.replay
  /-- The flag, stored before the supervisor stops everybody, says that all is there. -/
  done : s.layout.control.ingestDone ≠ 0 → s.layout.control.shutdown = 0 →
    s.layout.ring.pushed = replayRecords s.replay

theorem intake_start (replay : List UInt8) (clock : UInt64) : Intake (start replay clock) where
  unborn _ := rfl
  waits p hp := by cases hp
  traced p hp := by cases hp
  within := List.nil_prefix
  done hne := absurd rfl hne

/-- A step that ingest has no part in. -/
theorem Intake.frame {s s' : Pipeline} (h : Intake s) (hing : s'.ingest = s.ingest)
    (hre : s'.replay = s.replay) (hpushed : s'.layout.ring.pushed = s.layout.ring.pushed)
    (hi : s'.layout.control.ingestDone = s.layout.control.ingestDone)
    (hset : s.layout.control.shutdown ≠ 0 → s'.layout.control.shutdown ≠ 0) : Intake s' where
  unborn := by rw [hing, hpushed]; exact h.unborn
  waits := by rw [hing, hpushed, hre]; exact h.waits
  traced p hp hm := by
    rw [hre, hpushed]
    exact (h.traced p (hing ▸ hp) hm).set_flag hset
  within := by rw [hpushed, hre]; exact h.within
  done hne h0 := by
    rw [hpushed, hre]
    refine h.done (hi ▸ hne) ?_
    by_contra hstop
    exact hset hstop h0

/-- Ingest is gone, or was never there. -/
theorem Intake.gone {s s' : Pipeline} (h : Intake s) (hl : s'.layout = s.layout)
    (hre : s'.replay = s.replay) (hno : ∀ p, s'.ingest ≠ .running p)
    (hborn : s'.ingest ≠ .unborn) : Intake s' where
  unborn hu := absurd hu hborn
  waits p hp := absurd hp (hno p)
  traced p hp := absurd hp (hno p)
  within := by rw [hl, hre]; exact h.within
  done := by rw [hl, hre]; exact h.done

/-- A step of one of ingest's threads. -/
theorem intake_withIngest {s : Pipeline} {p' : Ingest} {l' : Layout}
    (hm' : p'.main ≠ .attach) (hflag : l'.control.shutdown = s.layout.control.shutdown)
    (ht : Traced s.replay s.layout.control.shutdown l'.ring.pushed p')
    (hdone : l'.control.ingestDone ≠ 0 → s.layout.control.shutdown = 0 →
      l'.ring.pushed = replayRecords s.replay) : Intake (s.withIngest (l', p')) where
  unborn hu := by cases hu
  waits p hp hm := by
    obtain rfl := Child.running.inj hp
    exact absurd hm hm'
  traced p hp hm := by
    obtain rfl := Child.running.inj hp
    show Traced s.replay l'.control.shutdown l'.ring.pushed p'
    rw [hflag]
    exact ht
  within := ht.pushed_prefix
  done hne h0 := hdone hne (by rw [← hflag]; exact h0)

/-- **One pipeline takes in what the file holds.** -/
theorem intake_step {s s' : Pipeline} {a : Act} (h : Intake s) (hsound : Sound s)
    (hok : a ≠ .rerun) (hs : s.step a = some s') : Intake s' := by
  cases move_of_step hs with
  | rerun hsup => exact absurd rfl hok
  | spawnIngest hsup =>
      have hempty := h.unborn (hsound.skeleton.ingest.mpr hsup)
      refine ⟨by simp, ?_, ?_, h.within, h.done⟩
      · intro p hp _
        exact ⟨(Child.running.inj hp).symm, hempty⟩
      · intro p hp hm
        obtain rfl := Child.running.inj hp
        exact absurd rfl hm
  | noIngest hsup => exact h.gone rfl rfl (by simp) (by simp)
  | store hst =>
      have hstored := supStep_stored hst
      obtain ⟨sh, g, sv, rfl⟩ := hstored.layout
      refine h.frame rfl rfl rfl rfl ?_
      intro hne
      rcases hstored.shutdown with ⟨hsame, _⟩ | ⟨hone, _⟩
      · exact fun h0 => hne (hsame.symm.trans h0)
      · exact fun h0 => absurd (hone.symm.trans h0) (by decide)
  | @source p p' l' hp hm hst =>
      have ht := (h.traced p hp hm).source (Ingest.sourceMove hst)
      have hm' : p'.main ≠ .attach := by rw [Ingest.stepSource_main hst]; exact hm
      obtain ⟨n, rfl⟩ := Ingest.stepSource_layout hst
      exact intake_withIngest hm' rfl ht h.done
  | @frames p p' l' hp hm hst =>
      have ht := (h.traced p hp hm).frames (Ingest.framesMove hst)
      obtain ⟨hmain, hne⟩ := Ingest.stepFrames_main hst
      have hm' : p'.main ≠ .attach := by rw [hmain]; exact hm
      obtain ⟨r, rfl⟩ := Ingest.stepFrames_layout hst
      refine intake_withIngest hm' rfl ht ?_
      -- a frames thread that still moves keeps ingest before its flag
      intro hflag _
      exact absurd ((hsound.joins p hp).frames (Or.inr ((hsound.joins p hp).flag.mp hflag))) hne
  | @ingestAttach p hp hm =>
      obtain ⟨rfl, hempty⟩ := h.waits p hp hm
      refine intake_withIngest (by simp) rfl ?_ h.done
      rw [hempty]
      exact (traced_start s.replay).set_flag (by simp)
  | @ingestMain p p' l' hp hst =>
      have hj := (hsound.joins p hp).stepMain hst
      obtain ⟨hm, hm'⟩ := Ingest.stepMain_attached hst
      have ht := (h.traced p hp hm).main hst
      obtain ⟨n, rfl⟩ := Ingest.stepMain_layout hst
      refine intake_withIngest hm' rfl ht ?_
      intro hflag h0
      have hexit := hj.flag.mp hflag
      rw [h0] at ht
      exact ht.pushed_all (hj.source (Or.inr (Or.inr hexit))) (hj.frames (Or.inr hexit))
  | ingestExit hp hm => exact h.gone rfl rfl (by simp) (by simp)
  | ingestRefused hp hm => exact h.gone rfl rfl (by simp) (by simp)
  | killIngest hp => exact h.gone rfl rfl (by simp) (by simp)
  | fast hp ha hst =>
      have hpushed := (fastMove hst).history.1
      obtain ⟨hb, hc, ov, fd, r, la, rfl⟩ := fastStep_layout hst
      exact h.frame rfl rfl hpushed rfl id
  | window hp ha hst =>
      obtain ⟨hb, ov, wd, wi, rfl⟩ := windowStep_layout hst
      exact h.frame rfl rfl rfl rfl id
  | snapshot hp ha hpc hst =>
      obtain ⟨hb, ov, sd, b, rfl⟩ := snapshotStep_layout hst
      exact h.frame rfl rfl rfl rfl id
  | handOver hp ha hpc hst =>
      obtain ⟨hb, ov, sd, b, rfl⟩ := snapshotStep_layout hst
      exact h.frame rfl rfl rfl rfl id
  | watchdog hp ha hst =>
      obtain ⟨f, rfl⟩ := watchdogStep_layout hst
      exact h.frame rfl rfl rfl rfl id
  | computeMain hp hst =>
      obtain ⟨cd, rfl⟩ := computeMainStep_layout hst
      exact h.frame rfl rfl rfl rfl id
  | publish hp hw hst =>
      obtain ⟨hb, b, rfl⟩ := Publish.step_layout hst
      exact h.frame rfl rfl rfl rfl id
  | _ => exact h.frame rfl rfl rfl rfl id

theorem intake_reachable {ok : Pipeline → Act → Prop} {s : Pipeline}
    (hok : ∀ s a, ok s a → a ≠ .rerun) (h : Transition.Reachable step ok Start s) : Intake s := by
  induction h with
  | init hstart =>
      obtain ⟨replay, clock, rfl⟩ := hstart
      exact intake_start replay clock
  | tail hr ha hs ih => exact intake_step ih (sound_reachable hr) (hok _ _ ha) hs

/-! ## The fast thread's side -/

/-- The step is not ingest storing `ingest_done` while a fast thread is in the gap and the
ring holds records. -/
def keepsOut (s : Pipeline) : Act → Bool
  | .ingestMain =>
      match s.ingest, s.compute with
      | .running p, .running c =>
          !(decide (p.main = .storeDone) && c.fast.inGap
            && decide (s.layout.ring.read ≠ s.layout.ring.write))
      | _, _ => true
  | _ => true

/-- The ring is empty. -/
def drained (s : Pipeline) : Prop := s.layout.ring.popped.length = s.layout.ring.pushed.length

/-- What the flag means to a fast thread, in the runs that keep it out of the gap. -/
structure Drains (s : Pipeline) : Prop where
  gap : ∀ p, s.compute = .running p → p.fast.inGap = true → s.layout.control.ingestDone ≠ 0 →
    s.drained
  left : ∀ p, s.compute = .running p → p.fast.pc.left = true → s.drained
  ended : s.compute = .ended (.exited 0) → s.layout.control.ingestDone ≠ 0 ∧ s.drained

theorem drains_start (replay : List UInt8) (clock : UInt64) : Drains (start replay clock) where
  gap p hp := by cases hp
  left p hp := by cases hp
  ended h := by cases h

/-- A step that leaves the ring and the flag alone, and compute's fast thread. -/
theorem Drains.frame {s s' : Pipeline} (h : Drains s)
    (hcom : ∀ p', s'.compute = .running p' → p'.fast = Fast.init
      ∨ ∃ p, s.compute = .running p ∧ p'.fast = p.fast)
    (hend : s'.compute = .ended (.exited 0) → s.compute = .ended (.exited 0))
    (hring : s'.layout.ring = s.layout.ring)
    (hi : s'.layout.control.ingestDone = s.layout.control.ingestDone) : Drains s' where
  gap p' hp' hg hne := by
    unfold drained
    rw [hring]
    rcases hcom p' hp' with hinit | ⟨p, hp, hfast⟩
    · rw [hinit] at hg
      cases hg
    · exact h.gap p hp (hfast ▸ hg) (hi ▸ hne)
  left p' hp' hl := by
    unfold drained
    rw [hring]
    rcases hcom p' hp' with hinit | ⟨p, hp, hfast⟩
    · rw [hinit] at hl
      cases hl
    · exact h.left p hp (hfast ▸ hl)
  ended he := by
    unfold drained
    rw [hring, hi]
    exact h.ended (hend he)

/-- Ingest moves before its flag. -/
theorem Drains.ingest {s s' : Pipeline} (h : Drains s) (hsound : Sound s)
    (hcom : s'.compute = s.compute) (hclear : s.layout.control.ingestDone = 0)
    (hclear' : s'.layout.control.ingestDone = 0) : Drains s' where
  gap _ _ _ hne := absurd hclear' hne
  left p hp hl := absurd hclear ((hsound.stages p (hcom ▸ hp)).left hl)
  ended he := absurd hclear (h.ended (hcom ▸ he)).1

/-- **An attempt that ends well has popped everything.** -/
theorem drains_step {s s' : Pipeline} {a : Act} (h : Drains s) (hsound : Sound s)
    (hok : a ≠ .rerun) (hk : s.keepsOut a = true) (hs : s.step a = some s') : Drains s' := by
  -- a step that leaves compute, the ring and the flag as they were
  have hsame : s'.compute = s.compute → s'.layout.ring = s.layout.ring →
      s'.layout.control.ingestDone = s.layout.control.ingestDone → Drains s' := by
    intro hcom hring hi
    refine h.frame ?_ (by rw [hcom]; exact id) hring hi
    intro p' hp'
    exact Or.inr ⟨p', hcom ▸ hp', rfl⟩
  have hgone : (∀ p, s'.compute ≠ .running p) → s'.compute ≠ .ended (.exited 0) → Drains s' :=
    fun hno hnz => ⟨fun p hp => absurd hp (hno p), fun p hp => absurd hp (hno p),
      fun he => absurd he hnz⟩
  have hstage : ∀ {p p' : Compute}, s.compute = .running p → s'.compute = .running p' →
      p'.fast = p.fast → s'.layout.ring = s.layout.ring →
      s'.layout.control.ingestDone = s.layout.control.ingestDone → Drains s' := by
    intro p p' hp hp' hfast hring hi
    refine h.frame ?_ (by rw [hp']; simp) hring hi
    intro c hc
    obtain rfl := Child.running_unique hp' hc
    exact Or.inr ⟨p, hp, hfast⟩
  cases move_of_step hs with
  | rerun hsup => exact absurd rfl hok
  | spawnCompute hsup =>
      refine h.frame ?_ (by simp) rfl rfl
      intro p' hp'
      obtain rfl := Child.running.inj hp'
      exact Or.inl rfl
  | noCompute hsup => exact hgone (by simp) (by simp)
  | @frames p p' l' hp hm hst =>
      have hj := hsound.joins p hp
      have hclear : s.layout.control.ingestDone = 0 := by
        by_contra hne
        exact (Ingest.stepFrames_main hst).2 (hj.frames (Or.inr (hj.flag.mp hne)))
      obtain ⟨r, rfl⟩ := Ingest.stepFrames_layout hst
      exact h.ingest hsound rfl hclear hclear
  | @ingestMain p p' l' hp hst =>
      have hj := hsound.joins p hp
      have hnot : p.main ≠ .exit := by
        intro hexit
        simp [Ingest.stepMain, ingestMainStep, hexit] at hst
      have hclear : s.layout.control.ingestDone = 0 := by
        by_contra hne
        exact hnot (hj.flag.mp hne)
      have hj' := hj.stepMain hst
      have hring : l'.ring = s.layout.ring := by
        obtain ⟨n, rfl⟩ := Ingest.stepMain_layout hst
        rfl
      refine ⟨?_, ?_, ?_⟩
      · -- a fast thread in the gap has seen the ring empty, and the condition keeps it so
        intro c hc hg hne
        have hstore : p.main = .storeDone := by
          have hexit := hj'.flag.mp hne
          simp only [Ingest.stepMain, Option.map_eq_some_iff, Prod.mk.injEq] at hst
          obtain ⟨⟨l₁, m₁⟩, hmain, _, rfl⟩ := hst
          unfold ingestMainStep at hmain
          cases hm : p.main <;> simp only [hm, reduceCtorEq] at hmain ⊢
          all_goals (try split at hmain)
          all_goals simp only [Option.some.injEq, Prod.mk.injEq, reduceCtorEq] at hmain
          all_goals
            rw [← hmain.2] at hexit
            cases hexit
        have hc' : s.compute = .running c := hc
        simp only [keepsOut, hp, hc', hstore, hg, decide_true, Bool.and_true, Bool.true_and,
          Bool.not_eq_true', decide_eq_false_iff_not, not_not] at hk
        show l'.ring.popped.length = l'.ring.pushed.length
        rw [hring]
        exact hsound.calls.ring.empty_iff.mp hk
      · intro c hc hl
        exact absurd hclear ((hsound.stages c hc).left hl)
      · intro he
        exact absurd hclear (h.ended he).1
  | @fast p l' t' hp ha hst =>
      have hgap := fastStep_inGap hst
      have hleft := fastStep_left hst
      have hpop := hsound.calls.pop
      rw [popCall_running hp] at hpop
      have hi : l'.control.ingestDone = s.layout.control.ingestDone := by
        obtain ⟨hb, hc, ov, fd, r, la, rfl⟩ := fastStep_layout hst
        rfl
      have hkeep : s.drained → l'.ring = s.layout.ring →
          (s.withCompute (l', { p with fast := t' })).drained := by
        intro hd hr
        show l'.ring.popped.length = l'.ring.pushed.length
        rw [hr]
        exact hd
      refine ⟨?_, ?_, by simp [withCompute]⟩
      · intro c hc hg hne
        obtain rfl := Child.running.inj hc
        have hne' : s.layout.control.ingestDone ≠ 0 := hi ▸ hne
        rcases hgap hg with ⟨hr, hbefore | ⟨q, hpc, hq⟩⟩
        · exact hkeep (h.gap p hp hbefore hne') hr
        · -- this is the load that found the ring empty
          rw [Fast.popCall, hpc] at hpop
          exact hkeep (hsound.calls.ring.empty_iff.mp (hpop.symm.trans hq)) hr
      · intro c hc hl
        obtain rfl := Child.running.inj hc
        rcases hleft hl with ⟨hr, hbefore | hstop | ⟨hg, hflag⟩⟩
        · exact hkeep (h.left p hp hbefore) hr
        · exact absurd (hsound.skeleton.no_shutdown hp) hstop
        · exact hkeep (h.gap p hp hg hflag) hr
  | window hp ha hst =>
      obtain ⟨hb, ov, wd, wi, rfl⟩ := windowStep_layout hst
      exact hstage hp rfl rfl rfl rfl
  | snapshot hp ha hpc hst =>
      obtain ⟨hb, ov, sd, b, rfl⟩ := snapshotStep_layout hst
      exact hstage hp rfl rfl rfl rfl
  | handOver hp ha hpc hst =>
      obtain ⟨hb, ov, sd, b, rfl⟩ := snapshotStep_layout hst
      exact hstage hp rfl rfl rfl rfl
  | watchdog hp ha hst =>
      obtain ⟨f, rfl⟩ := watchdogStep_layout hst
      exact hstage hp rfl rfl rfl rfl
  | computeMain hp hst =>
      obtain ⟨cd, rfl⟩ := computeMainStep_layout hst
      exact hstage hp rfl rfl rfl rfl
  | @computeExit p code hp hm =>
      have hst := hsound.stages p hp
      have hleft : p.fast.pc.left = true := by
        have hd := hst.joinedFast (by rw [hm]; exact Nat.le_add_left 1 3)
        cases hpc : p.fast.pc with
        | done => rfl
        | _ => rw [hpc] at hd; cases hd
      exact ⟨by simp, by simp, fun _ => ⟨hst.left hleft, h.left p hp hleft⟩⟩
  | computeCrash hp hm => exact hgone (by simp) (by simp)
  | computeRefused hp hm => exact hgone (by simp) (by simp)
  | killCompute hp => exact hgone (by simp) (by simp)
  | store hst =>
      obtain ⟨sh, g, sv, rfl⟩ := (supStep_stored hst).layout
      exact hsame rfl rfl rfl
  | source hp hm hst =>
      obtain ⟨n, rfl⟩ := Ingest.stepSource_layout hst
      exact hsame rfl rfl rfl
  | publish hp hw hst =>
      obtain ⟨hb, b, rfl⟩ := Publish.step_layout hst
      exact hsame rfl rfl rfl
  | _ => exact hsame rfl rfl rfl

end Pipeline

end RateHub
