import RateHub.Proof.Calls

/-!
# The compute threads and their flags

Each thread ends with the store of its done flag, and the main thread passes a join
only when the thread has ended. `Stages` says what follows for the flags, the joins
and the exit code of one running compute process, and why its fast thread left its
loop. Each lemma here is about one thread's step.
-/

namespace RateHub

theorem fastStep_not_done {clock : UInt64} {l l' : Layout} {t t' : Fast}
    (h : fastStep clock l t = some (l', t')) : t.pc.isDone = false := by
  cases hpc : t.pc with
  | done => simp [fastStep, hpc] at h
  | _ => rfl

theorem windowStep_not_done {clock : UInt64} {l l' : Layout} {t t' : Window}
    (h : windowStep clock l t = some (l', t')) : t.pc.isDone = false := by
  cases hpc : t.pc with
  | done => simp [windowStep, hpc] at h
  | _ => rfl

theorem snapshotStep_not_done {clock : UInt64} {l l' : Layout} {t t' : SnapshotThread}
    (h : snapshotStep clock l t = some (l', t')) : t.pc.isDone = false := by
  cases hpc : t.pc with
  | done => simp [snapshotStep, hpc] at h
  | _ => rfl

theorem Fast.absorb_isDone (t : Fast) (record : Record) :
    (t.absorb record).pc.isDone = false := by
  unfold Fast.absorb
  split <;> rfl

theorem WindowPc.next_isDone (last : Bool) (id : Fin kMaxSources) :
    (WindowPc.next last id).isDone = false := by
  unfold WindowPc.next
  split
  · rfl
  · split <;> rfl

theorem SnapshotPc.next_isDone (id : Fin kMaxSources) : (SnapshotPc.next id).isDone = false := by
  unfold SnapshotPc.next
  split <;> rfl

/-- A thread ends with the store of its done flag. -/
theorem fastStep_done {clock : UInt64} {l l' : Layout} {t t' : Fast}
    (h : fastStep clock l t = some (l', t')) (hd : t'.pc.isDone = true) :
    l'.control.fastDone = 1 := by
  unfold fastStep at h
  repeat' split at h
  all_goals simp only [Option.some.injEq, Prod.mk.injEq, reduceCtorEq] at h
  all_goals obtain ⟨rfl, rfl⟩ := h
  all_goals first
    | rfl
    | cases hd
    | rw [Fast.absorb_isDone] at hd; cases hd

theorem windowStep_done {clock : UInt64} {l l' : Layout} {t t' : Window}
    (h : windowStep clock l t = some (l', t')) (hd : t'.pc.isDone = true) :
    l'.control.windowDone = 1 := by
  unfold windowStep at h
  repeat' split at h
  all_goals simp only [Option.some.injEq, Prod.mk.injEq, reduceCtorEq] at h
  all_goals obtain ⟨rfl, rfl⟩ := h
  all_goals first
    | rfl
    | cases hd
    | rw [WindowPc.next_isDone] at hd; cases hd

theorem snapshotStep_done {clock : UInt64} {l l' : Layout} {t t' : SnapshotThread}
    (h : snapshotStep clock l t = some (l', t')) (hd : t'.pc.isDone = true) :
    l'.control.snapshotDone = 1 := by
  unfold snapshotStep at h
  repeat' split at h
  all_goals simp only [Option.some.injEq, Prod.mk.injEq, reduceCtorEq] at h
  all_goals obtain ⟨rfl, rfl⟩ := h
  all_goals first
    | rfl
    | cases hd
    | rw [SnapshotPc.next_isDone] at hd; cases hd

theorem watchdogStep_not_done {clock : UInt64} {l l' : Layout} {pc pc' : WatchdogPc}
    (h : watchdogStep clock l pc = some (l', pc')) : pc ≠ .done := by
  rintro rfl
  simp [watchdogStep] at h

/-- How many of its joins the main thread has passed. -/
def ComputeMainPc.joins : ComputeMainPc → Nat
  | .crash => 0
  | .attach => 0
  | .joinFast => 0
  | .joinWindow => 1
  | .joinSnapshot => 2
  | .joinWatchdog => 3
  | .storeDone => 4
  | .loadFault => 4
  | .exit _ => 4

/-- The threads, their flags and the joins, in a running compute. -/
structure Stages (l : Layout) (p : Compute) : Prop where
  /-- The fast thread left its loop on `ingest_done`. -/
  left : p.fast.pc.left = true → l.control.ingestDone ≠ 0
  fastDone : p.fast.pc.isDone = true → l.control.fastDone ≠ 0
  windowDone : p.window.pc.isDone = true → l.control.windowDone ≠ 0
  snapshotDone : p.snapshot.pc.isDone = true → l.control.snapshotDone ≠ 0
  joinedFast : 1 ≤ p.main.joins → p.fast.pc.isDone = true
  joinedWindow : 2 ≤ p.main.joins → p.window.pc.isDone = true
  joinedSnapshot : 3 ≤ p.main.joins → p.snapshot.pc.isDone = true
  joinedWatchdog : 4 ≤ p.main.joins → p.watchdog = .done
  /-- The exit code is the fault flag, which nobody stores any more. -/
  code : ∀ c, p.main = .exit c → c = if l.control.fault ≠ 0 then 3 else 0

theorem stages_init (l : Layout) : Stages l Compute.init where
  left := by intro h; cases h
  fastDone := by intro h; cases h
  windowDone := by intro h; cases h
  snapshotDone := by intro h; cases h
  joinedFast := by intro h; cases h
  joinedWindow := by intro h; cases h
  joinedSnapshot := by intro h; cases h
  joinedWatchdog := by intro h; cases h
  code := by intro c h; cases h

/-- A step of another process: the flags it may store are only ever set. -/
theorem Stages.frame {l l' : Layout} {p : Compute} (h : Stages l p)
    (hi : l.control.ingestDone ≠ 0 → l'.control.ingestDone ≠ 0)
    (hf : l'.control.fastDone = l.control.fastDone)
    (hw : l'.control.windowDone = l.control.windowDone)
    (hs : l'.control.snapshotDone = l.control.snapshotDone)
    (hfault : l'.control.fault = l.control.fault) : Stages l' p where
  left hl := hi (h.left hl)
  fastDone hd := by rw [hf]; exact h.fastDone hd
  windowDone hd := by rw [hw]; exact h.windowDone hd
  snapshotDone hd := by rw [hs]; exact h.snapshotDone hd
  joinedFast := h.joinedFast
  joinedWindow := h.joinedWindow
  joinedSnapshot := h.joinedSnapshot
  joinedWatchdog := h.joinedWatchdog
  code := by rw [hfault]; exact h.code

theorem Stages.fast {clock : UInt64} {l l' : Layout} {p : Compute} {t' : Fast} (h : Stages l p)
    (hflag : l.control.shutdown = 0) (hs : fastStep clock l p.fast = some (l', t')) :
    Stages l' { p with fast := t' } := by
  have hnd := fastStep_not_done hs
  have hdone := fastStep_done hs
  have hleft := fastStep_left hs
  obtain ⟨hb, hc, ov, fd, r, la, rfl⟩ := fastStep_layout hs
  refine ⟨?_, ?_, h.windowDone, h.snapshotDone, ?_, h.joinedWindow, h.joinedSnapshot,
    h.joinedWatchdog, h.code⟩
  · intro hl
    rcases hleft hl with ⟨_, hbefore | hstop | ⟨_, hi⟩⟩
    · exact h.left hbefore
    · exact absurd hflag hstop
    · exact hi
  · intro hd
    have h1 : fd = 1 := hdone hd
    simp [h1]
  · intro hj
    rw [h.joinedFast hj] at hnd
    exact absurd hnd (by simp)

theorem Stages.window {clock : UInt64} {l l' : Layout} {p : Compute} {t' : Window}
    (h : Stages l p) (hs : windowStep clock l p.window = some (l', t')) :
    Stages l' { p with window := t' } := by
  have hnd := windowStep_not_done hs
  have hdone := windowStep_done hs
  obtain ⟨hb, ov, wd, wi, rfl⟩ := windowStep_layout hs
  refine ⟨h.left, h.fastDone, ?_, h.snapshotDone, h.joinedFast, ?_, h.joinedSnapshot,
    h.joinedWatchdog, h.code⟩
  · intro hd
    have h1 : wd = 1 := hdone hd
    simp [h1]
  · intro hj
    rw [h.joinedWindow hj] at hnd
    exact absurd hnd (by simp)

theorem Stages.snapshot {clock : UInt64} {l l' : Layout} {p : Compute} {t' : SnapshotThread}
    (h : Stages l p) (hs : snapshotStep clock l p.snapshot = some (l', t')) :
    Stages l' { p with snapshot := t' } := by
  have hnd := snapshotStep_not_done hs
  have hdone := snapshotStep_done hs
  obtain ⟨hb, ov, sd, b, rfl⟩ := snapshotStep_layout hs
  refine ⟨h.left, h.fastDone, h.windowDone, ?_, h.joinedFast, h.joinedWindow, ?_,
    h.joinedWatchdog, h.code⟩
  · intro hd
    have h1 : sd = 1 := hdone hd
    simp [h1]
  · intro hj
    rw [h.joinedSnapshot hj] at hnd
    exact absurd hnd (by simp)

theorem Stages.watchdog {clock : UInt64} {l l' : Layout} {p : Compute} {pc' : WatchdogPc}
    (h : Stages l p) (hs : watchdogStep clock l p.watchdog = some (l', pc')) :
    Stages l' { p with watchdog := pc' } := by
  have hnd := watchdogStep_not_done hs
  obtain ⟨f, rfl⟩ := watchdogStep_layout hs
  refine ⟨h.left, h.fastDone, h.windowDone, h.snapshotDone, h.joinedFast, h.joinedWindow,
    h.joinedSnapshot, ?_, ?_⟩
  · intro hj
    exact absurd (h.joinedWatchdog hj) hnd
  · -- the main thread loads the flag only after it has joined the watchdog
    intro c hm
    have hm' : p.main = .exit c := hm
    exact absurd (h.joinedWatchdog (by rw [hm']; exact Nat.le_refl 4)) hnd

theorem Stages.main {l l' : Layout} {p : Compute} {pc' : ComputeMainPc} (h : Stages l p)
    (hs : computeMainStep l p = some (l', pc')) : Stages l' { p with main := pc' } := by
  unfold computeMainStep at hs
  cases hm : p.main with
  | crash =>
      simp only [hm, Option.some.injEq, Prod.mk.injEq] at hs
      obtain ⟨rfl, rfl⟩ := hs
      exact ⟨h.left, h.fastDone, h.windowDone, h.snapshotDone, by simp [ComputeMainPc.joins],
        by simp [ComputeMainPc.joins], by simp [ComputeMainPc.joins],
        by simp [ComputeMainPc.joins], by simp⟩
  | attach =>
      simp only [hm, Option.some.injEq, Prod.mk.injEq] at hs
      obtain ⟨rfl, rfl⟩ := hs
      exact ⟨h.left, h.fastDone, h.windowDone, h.snapshotDone, by simp [ComputeMainPc.joins],
        by simp [ComputeMainPc.joins], by simp [ComputeMainPc.joins],
        by simp [ComputeMainPc.joins], by simp⟩
  | joinFast =>
      simp only [hm] at hs
      split at hs
      · rename_i hd
        simp only [Option.some.injEq, Prod.mk.injEq] at hs
        obtain ⟨rfl, rfl⟩ := hs
        exact ⟨h.left, h.fastDone, h.windowDone, h.snapshotDone, fun _ => hd,
          by simp [ComputeMainPc.joins], by simp [ComputeMainPc.joins],
          by simp [ComputeMainPc.joins], by simp⟩
      · exact absurd hs (by simp)
  | joinWindow =>
      simp only [hm] at hs
      split at hs
      · rename_i hd
        simp only [Option.some.injEq, Prod.mk.injEq] at hs
        obtain ⟨rfl, rfl⟩ := hs
        exact ⟨h.left, h.fastDone, h.windowDone, h.snapshotDone,
          fun _ => h.joinedFast (by simp [hm, ComputeMainPc.joins]), fun _ => hd,
          by simp [ComputeMainPc.joins], by simp [ComputeMainPc.joins], by simp⟩
      · exact absurd hs (by simp)
  | joinSnapshot =>
      simp only [hm] at hs
      split at hs
      · rename_i hd
        simp only [Option.some.injEq, Prod.mk.injEq] at hs
        obtain ⟨rfl, rfl⟩ := hs
        exact ⟨h.left, h.fastDone, h.windowDone, h.snapshotDone,
          fun _ => h.joinedFast (by simp [hm, ComputeMainPc.joins]),
          fun _ => h.joinedWindow (by simp [hm, ComputeMainPc.joins]), fun _ => hd,
          by simp [ComputeMainPc.joins], by simp⟩
      · exact absurd hs (by simp)
  | joinWatchdog =>
      simp only [hm] at hs
      split at hs
      · rename_i hd
        simp only [Option.some.injEq, Prod.mk.injEq] at hs
        obtain ⟨rfl, rfl⟩ := hs
        exact ⟨h.left, h.fastDone, h.windowDone, h.snapshotDone,
          fun _ => h.joinedFast (by simp [hm, ComputeMainPc.joins]),
          fun _ => h.joinedWindow (by simp [hm, ComputeMainPc.joins]),
          fun _ => h.joinedSnapshot (by simp [hm, ComputeMainPc.joins]), fun _ => hd, by simp⟩
      · exact absurd hs (by simp)
  | storeDone =>
      simp only [hm, Option.some.injEq, Prod.mk.injEq] at hs
      obtain ⟨rfl, rfl⟩ := hs
      exact ⟨h.left, h.fastDone, h.windowDone, h.snapshotDone,
        fun _ => h.joinedFast (by simp [hm, ComputeMainPc.joins]),
        fun _ => h.joinedWindow (by simp [hm, ComputeMainPc.joins]),
        fun _ => h.joinedSnapshot (by simp [hm, ComputeMainPc.joins]),
        fun _ => h.joinedWatchdog (by simp [hm, ComputeMainPc.joins]), by simp⟩
  | loadFault =>
      -- the watchdog is gone, so the value loaded here is final
      simp only [hm, Option.some.injEq, Prod.mk.injEq] at hs
      obtain ⟨rfl, rfl⟩ := hs
      refine ⟨h.left, h.fastDone, h.windowDone, h.snapshotDone,
        fun _ => h.joinedFast (by simp [hm, ComputeMainPc.joins]),
        fun _ => h.joinedWindow (by simp [hm, ComputeMainPc.joins]),
        fun _ => h.joinedSnapshot (by simp [hm, ComputeMainPc.joins]),
        fun _ => h.joinedWatchdog (by simp [hm, ComputeMainPc.joins]), ?_⟩
      intro c hc
      exact (ComputeMainPc.exit.inj hc).symm
  | exit c => simp [hm] at hs

/-- A compute process at its exit has joined a fast thread that saw `ingest_done`. -/
theorem Stages.flag_of_exit {l : Layout} {p : Compute} (h : Stages l p) {c : UInt32}
    (hm : p.main = .exit c) : l.control.ingestDone ≠ 0 := by
  have hd := h.joinedFast (by rw [hm]; exact Nat.le_add_left 1 3)
  refine h.left ?_
  cases hpc : p.fast.pc with
  | done => rfl
  | _ => simp [hpc, FastPc.isDone] at hd

end RateHub
