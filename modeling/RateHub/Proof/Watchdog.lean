import RateHub.Lib.History
import RateHub.Proof.Attempts
import RateHub.Proof.Finish

/-!
# What an exit with 3 says

`run_compute` returns 3 when `fault` is set, and the watchdog sets it when it finds a
heartbeat too old. Its verdict puts together a clock reading and words loaded one after the
other, and `fault` and the heartbeats outlive the attempt that stored them. So three
things have to be right for the verdict to be about a silent stage of this attempt:

* `fault` is clear when the attempt is spawned;
* a heartbeat the watchdog loads and finds too old is one this attempt has stored;
* the snapshot thread, whose flag is loaded before the clock is read and not again, has not
  ended in between, or its last heartbeat is not too old yet.

`WatchLog` remembers which stages of the attempt have stored a heartbeat, and whether one
of them was ever silent for longer than its limit in the course of a sample.
-/

namespace RateHub

/-! ## Heartbeats by stage -/

/-- A stage's heartbeat word. -/
def ShmControl.heartbeat (c : ShmControl) : Stage → UInt64
  | .fast => c.heartbeatFast
  | .window => c.heartbeatWindow
  | .snapshot => c.heartbeatSnapshot

/-- A stage's period. -/
def Stage.periodNs : Stage → Int64
  | .fast => kFastPeriodNs
  | .window => kWindowPeriodNs
  | .snapshot => kSnapshotPeriodNs

/-- The stage's heartbeat is older than `stall_limit_ns` of its period. -/
def Stage.overdue (X : Stage) (now : UInt64) (c : ShmControl) : Bool :=
  heartbeatStalled now (c.heartbeat X) (stallLimitNs X.periodNs) false

/-- Time only makes a heartbeat older. -/
theorem heartbeatStalled_mono {now later beat silence : UInt64} (hle : now ≤ later)
    (h : heartbeatStalled now beat silence false = true) :
    heartbeatStalled later beat silence false = true := by
  have hle' : now.toNat ≤ later.toNat := UInt64.le_iff_toNat_le.mp hle
  unfold heartbeatStalled at h ⊢
  simp only [Bool.false_or, Bool.or_eq_true, beq_iff_eq, decide_eq_true_eq,
    UInt64.lt_iff_toNat_lt] at h ⊢
  split at h
  · cases h
  · rename_i hno
    rw [not_or] at hno
    rw [decide_eq_true_eq, UInt64.toNat_sub_of_le _ _ (UInt64.le_iff_toNat_le.mpr (by omega))] at h
    rw [if_neg (by rw [not_or]; exact ⟨hno.1, by omega⟩), decide_eq_true_eq,
      UInt64.toNat_sub_of_le _ _ (UInt64.le_iff_toNat_le.mpr (by omega))]
    omega

theorem Stage.overdue_mono {X : Stage} {now later : UInt64} {c : ShmControl} (hle : now ≤ later)
    (h : X.overdue now c = true) : X.overdue later c = true :=
  heartbeatStalled_mono hle h

/-- A stage whose flag was found set is never found late. -/
theorem heartbeatStalled_done {now beat silence : UInt64} {stageDone : Bool}
    (h : heartbeatStalled now beat silence stageDone = true) :
    stageDone = false ∧ heartbeatStalled now beat silence false = true := by
  cases stageDone with
  | true => cases h
  | false => exact ⟨rfl, h⟩

/-- The step between these two states of the process stores the stage's heartbeat. -/
def Compute.beats (p p' : Compute) : Stage → Bool
  | .fast =>
      match p.fast.pc, p'.fast.pc with
      | .storeBeat _, .start => true
      | _, _ => false
  | .window =>
      match p.window.pc, p'.window.pc with
      | .storeBeat _, .start => true
      | .storeLastBeat _, .storeDone => true
      | _, _ => false
  | .snapshot =>
      match p.snapshot.pc, p'.snapshot.pc with
      | .storeBeat _, .start => true
      | .storeLastBeat _, .storeDone => true
      | _, _ => false

theorem Compute.beats_fast_same {p p' : Compute} (h : p'.fast = p.fast) :
    p.beats p' .fast = false := by
  simp only [Compute.beats, h]
  split
  · rename_i h₁ h₂
    rw [h₁] at h₂
    cases h₂
  · rfl

theorem Compute.beats_window_same {p p' : Compute} (h : p'.window = p.window) :
    p.beats p' .window = false := by
  simp only [Compute.beats, h]
  split
  · rename_i h₁ h₂
    rw [h₁] at h₂
    cases h₂
  · rename_i h₁ h₂
    rw [h₁] at h₂
    cases h₂
  · rfl

theorem Compute.beats_snapshot_same {p p' : Compute} (h : p'.snapshot = p.snapshot) :
    p.beats p' .snapshot = false := by
  simp only [Compute.beats, h]
  split
  · rename_i h₁ h₂
    rw [h₁] at h₂
    cases h₂
  · rename_i h₁ h₂
    rw [h₁] at h₂
    cases h₂
  · rfl

/-! ## The watchdog's sample -/

/-- The clock reading of the sample in progress. -/
def WatchdogPc.reading : WatchdogPc → Option UInt64
  | .loadFastDone t => some t
  | .loadWindowDone t _ => some t
  | .loadFast t _ _ => some t
  | .loadWindow t _ _ => some t
  | .loadSnapshot t _ _ => some t
  | _ => none

/-- The stages the sample may still find late: the flag was found clear, the heartbeat
has not been loaded. -/
def WatchdogPc.watching : WatchdogPc → Stage → Option UInt64
  | .loadFastDone t, .snapshot => some t
  | .loadWindowDone t fastDone, .fast => if fastDone then none else some t
  | .loadWindowDone t _, .snapshot => some t
  | .loadFast t fastDone _, .fast => if fastDone then none else some t
  | .loadFast t _ windowDone, .window => if windowDone then none else some t
  | .loadFast t _ _, .snapshot => some t
  | .loadWindow t _ windowDone, .window => if windowDone then none else some t
  | .loadWindow t _ _, .snapshot => some t
  | .loadSnapshot t _ _, .snapshot => some t
  | _, _ => none

/-- The sample has found a stage late. -/
def WatchdogPc.late : WatchdogPc → Bool
  | .loadWindow _ lateFast _ => lateFast
  | .loadSnapshot _ lateFast lateWindow => lateFast || lateWindow
  | .storeFault => true
  | _ => false

theorem WatchdogPc.reading_of_watching {pc : WatchdogPc} {X : Stage} {now : UInt64}
    (h : pc.watching X = some now) : pc.reading = some now := by
  cases pc <;> cases X <;> simp_all [WatchdogPc.watching, WatchdogPc.reading]

/-! ## What is remembered -/

/-- What a run remembers of its latest compute attempt. -/
structure WatchLog where
  /-- The attempt's own thread has stored its heartbeat. -/
  beaten : Stage → Bool
  /-- In the course of one of the attempt's samples, a stage that had stored a heartbeat and
  had not set its done flag was silent for longer than its limit. -/
  silent : Bool

/-- An attempt as it starts. -/
def WatchLog.empty : WatchLog := { beaten := fun _ => false, silent := false }

/-- A stage is silent now, in the course of a sample. -/
def Compute.someSilent (p : Compute) (beaten : Stage → Bool) (clock : UInt64) (c : ShmControl) :
    Bool :=
  p.watchdog.reading.isSome
    && [Stage.fast, Stage.window, Stage.snapshot].any fun X =>
      beaten X && !p.finished X && X.overdue clock c

/-- A step within an attempt. -/
def WatchLog.next (g : WatchLog) (p p' : Compute) (clock : UInt64) (c : ShmControl) : WatchLog :=
  { beaten := fun X => g.beaten X || p.beats p' X
    silent := g.silent || p'.someSilent (fun X => g.beaten X || p.beats p' X) clock c }

theorem WatchLog.next_silent {g : WatchLog} {p p' : Compute} {clock : UInt64} {c : ShmControl}
    (h : g.silent = true) : (g.next p p' clock c).silent = true := by
  simp [WatchLog.next, h]

/-- What is the case after the step is in the log. -/
theorem WatchLog.next_seen {g : WatchLog} {p p' : Compute} {clock now : UInt64} {c : ShmControl}
    {X : Stage} (hread : p'.watchdog.reading = some now)
    (hbeat : (g.next p p' clock c).beaten X = true) (hfin : p'.finished X = false)
    (hover : X.overdue clock c = true) : (g.next p p' clock c).silent = true := by
  have hbeat' : (g.beaten X || p.beats p' X) = true := hbeat
  have hsome : p'.someSilent (fun X => g.beaten X || p.beats p' X) clock c = true := by
    unfold Compute.someSilent
    rw [hread, Option.isSome_some, Bool.true_and, List.any_eq_true]
    refine ⟨X, ?_, ?_⟩
    · cases X <;> simp
    · simp only [hbeat', hfin, hover, Bool.not_false, Bool.and_self]
  simp [WatchLog.next, hsome]

namespace Pipeline

/-- How a step of the system changes the log. -/
def noteWatch (g : WatchLog) (s : Pipeline) (_ : Act) (s' : Pipeline) : WatchLog :=
  match s.compute, s'.compute with
  | .running p, .running p' => g.next p p' s'.clock s'.layout.control
  | _, .running _ => .empty
  | _, _ => g

/-- The step of the watchdog does not judge a stage by what is not its own. -/
def judgesOwn (s : Pipeline) (g : WatchLog) (p : Compute) : Bool :=
  match p.watchdog with
  | .now =>
      decide (s.layout.control.snapshotDone = 0) || !Stage.snapshot.overdue s.clock s.layout.control
  | .loadFast now fastDone _ =>
      g.beaten .fast
        || !heartbeatStalled now s.layout.control.heartbeatFast (stallLimitNs kFastPeriodNs) fastDone
  | .loadWindow now _ windowDone =>
      g.beaten .window
        || !heartbeatStalled now s.layout.control.heartbeatWindow (stallLimitNs kWindowPeriodNs)
          windowDone
  | .loadSnapshot now _ _ =>
      g.beaten .snapshot
        || !heartbeatStalled now s.layout.control.heartbeatSnapshot (stallLimitNs kSnapshotPeriodNs)
          false
  | _ => true

/-- The condition on a step: compute is spawned with `fault` clear, and the watchdog does not
judge a stage by what is not its own. -/
def watchesOwn (x : Transition.Noted Pipeline WatchLog) (a : Act) : Bool :=
  match a with
  | .sup _ =>
      match x.now.sup with
      | .spawnCompute _ => decide (x.now.layout.control.fault = 0)
      | _ => true
  | .watchdog =>
      match x.now.compute with
      | .running p => judgesOwn x.now x.past p
      | _ => true
  | _ => true

theorem fault_of_spawn {s : Pipeline} {g : WatchLog} {n : Nat} {pid : UInt32}
    (hsup : s.sup = .spawnCompute n) (h : watchesOwn ⟨s, g⟩ (.sup pid) = true) :
    s.layout.control.fault = 0 := by
  unfold watchesOwn at h
  simp only [hsup] at h
  exact of_decide_eq_true h

theorem judgesOwn_of_watchdog {s : Pipeline} {g : WatchLog} {p : Compute}
    (hp : s.compute = .running p) (h : watchesOwn ⟨s, g⟩ .watchdog = true) :
    s.judgesOwn g p = true := by
  unfold watchesOwn at h
  simp only [hp] at h
  exact h

/-- The runs whose steps meet the condition. -/
def ReachableWatched (x : Transition.Noted Pipeline WatchLog) : Prop :=
  Transition.ReachableNoted step noteWatch (fun x a => watchesOwn x a = true) Start .empty x

end Pipeline

/-! ## The invariant -/

/-- Of a running attempt: whatever the sample may still find late, or has found late, is in
the log. -/
structure Watched (clock : UInt64) (c : ShmControl) (p : Compute) (g : WatchLog) : Prop where
  reading : ∀ now, p.watchdog.reading = some now → now ≤ clock
  watching : ∀ X now, p.watchdog.watching X = some now → g.beaten X = true →
    X.overdue now c = true → g.silent = true
  late : p.watchdog.late = true → g.silent = true
  fault : c.fault ≠ 0 → g.silent = true

theorem watched_init {clock : UInt64} {c : ShmControl} (h : c.fault = 0) :
    Watched clock c Compute.init .empty where
  reading := by intro now hr; cases hr
  watching := by intro X now hw; cases X <;> cases hw
  late := by intro hl; cases hl
  fault := fun hne => absurd h hne

/-- What a step of the system does to the heartbeats, as far as the watchdog is concerned:
each is either left alone, or stored by a thread that is not done. -/
structure BeatStep (p p' : Compute) (c c' : ShmControl) : Prop where
  watchdog : p'.watchdog = p.watchdog
  fault : c'.fault = c.fault
  heartbeat : ∀ X, (p.beats p' X = true ∧ p'.finished X = false)
    ∨ (p.beats p' X = false ∧ c'.heartbeat X = c.heartbeat X)

/-- **A step of anyone but the watchdog.** -/
theorem Watched.step {clock clock' : UInt64} {c c' : ShmControl} {p p' : Compute} {g : WatchLog}
    (h : Watched clock c p g) (hb : BeatStep p p' c c') (hk : clock ≤ clock') :
    Watched clock' c' p' (g.next p p' clock' c') := by
  refine ⟨?_, ?_, ?_, ?_⟩
  · intro now hr
    rw [hb.watchdog] at hr
    exact UInt64.le_trans (h.reading now hr) hk
  · intro X now hw hbeat hover
    rw [hb.watchdog] at hw
    have hread := WatchdogPc.reading_of_watching hw
    rcases hb.heartbeat X with ⟨_, hfin⟩ | ⟨hno, hsame⟩
    · -- stored during the sample, and already too old: the stage is silent now
      have hlater := Stage.overdue_mono (UInt64.le_trans (h.reading now hread) hk) hover
      exact WatchLog.next_seen (by rw [hb.watchdog]; exact hread) hbeat hfin hlater
    · refine WatchLog.next_silent (h.watching X now hw ?_ ?_)
      · simpa [WatchLog.next, hno] using hbeat
      · simpa only [Stage.overdue, hsame] using hover
  · intro hl
    rw [hb.watchdog] at hl
    exact WatchLog.next_silent (h.late hl)
  · intro hne
    rw [hb.fault] at hne
    exact WatchLog.next_silent (h.fault hne)

/-! ## The steps of the stages -/

section Moves

variable {clock : UInt64} {l l' : Layout} {p : Compute}

/-- A thread that beats is not at its end. -/
theorem FastMove.beatStep {t' : Fast} (h : FastMove clock l p.fast l' t') :
    BeatStep p { p with fast := t' } l.control l'.control := by
  have hfault : l'.control.fault = l.control.fault := by cases h <;> rfl
  have hwin : l'.control.heartbeatWindow = l.control.heartbeatWindow := by cases h <;> rfl
  have hsnap : l'.control.heartbeatSnapshot = l.control.heartbeatSnapshot := by cases h <;> rfl
  refine ⟨rfl, hfault, ?_⟩
  intro X
  cases X with
  | window => exact Or.inr ⟨Compute.beats_window_same rfl, hwin⟩
  | snapshot => exact Or.inr ⟨Compute.beats_snapshot_same rfl, hsnap⟩
  | fast =>
      cases h with
      | storeBeat hpc => exact Or.inl ⟨by simp [Compute.beats, hpc], rfl⟩
      | _ hpc => exact Or.inr ⟨by simp [Compute.beats, hpc], rfl⟩

theorem WindowMove.beatStep {t' : Window} (h : WindowMove clock l p.window l' t') :
    BeatStep p { p with window := t' } l.control l'.control := by
  have hfault : l'.control.fault = l.control.fault := by cases h <;> rfl
  have hfast : l'.control.heartbeatFast = l.control.heartbeatFast := by cases h <;> rfl
  have hsnap : l'.control.heartbeatSnapshot = l.control.heartbeatSnapshot := by cases h <;> rfl
  refine ⟨rfl, hfault, ?_⟩
  intro X
  cases X with
  | fast => exact Or.inr ⟨Compute.beats_fast_same rfl, hfast⟩
  | snapshot => exact Or.inr ⟨Compute.beats_snapshot_same rfl, hsnap⟩
  | window =>
      cases h with
      | storeBeat hpc => exact Or.inl ⟨by simp [Compute.beats, hpc], rfl⟩
      | storeLastBeat hpc => exact Or.inl ⟨by simp [Compute.beats, hpc], rfl⟩
      | _ hpc => exact Or.inr ⟨by simp [Compute.beats, hpc], rfl⟩

theorem SnapshotMove.beatStep {t' : SnapshotThread} (h : SnapshotMove clock l p.snapshot l' t') :
    BeatStep p { p with snapshot := t' } l.control l'.control := by
  have hfault : l'.control.fault = l.control.fault := by cases h <;> rfl
  have hfast : l'.control.heartbeatFast = l.control.heartbeatFast := by cases h <;> rfl
  have hwin : l'.control.heartbeatWindow = l.control.heartbeatWindow := by cases h <;> rfl
  refine ⟨rfl, hfault, ?_⟩
  intro X
  cases X with
  | fast => exact Or.inr ⟨Compute.beats_fast_same rfl, hfast⟩
  | window => exact Or.inr ⟨Compute.beats_window_same rfl, hwin⟩
  | snapshot =>
      cases h with
      | storeBeat hpc => exact Or.inl ⟨by simp [Compute.beats, hpc], rfl⟩
      | storeLastBeat hpc => exact Or.inl ⟨by simp [Compute.beats, hpc], rfl⟩
      | _ hpc => exact Or.inr ⟨by simp [Compute.beats, hpc], rfl⟩

/-- A step that moves none of the stage threads and stores no heartbeat. -/
theorem BeatStep.of_same {p' : Compute} {c c' : ShmControl} (hf : p'.fast = p.fast)
    (hw : p'.window = p.window) (hs : p'.snapshot = p.snapshot) (hwd : p'.watchdog = p.watchdog)
    (hfault : c'.fault = c.fault) (hbf : c'.heartbeatFast = c.heartbeatFast)
    (hbw : c'.heartbeatWindow = c.heartbeatWindow)
    (hbs : c'.heartbeatSnapshot = c.heartbeatSnapshot) : BeatStep p p' c c' := by
  refine ⟨hwd, hfault, ?_⟩
  intro X
  cases X with
  | fast => exact Or.inr ⟨Compute.beats_fast_same hf, hbf⟩
  | window => exact Or.inr ⟨Compute.beats_window_same hw, hbw⟩
  | snapshot => exact Or.inr ⟨Compute.beats_snapshot_same hs, hbs⟩

theorem computeMainStep_beatStep {pc' : ComputeMainPc}
    (h : computeMainStep l p = some (l', pc')) :
    BeatStep p { p with main := pc' } l.control l'.control := by
  have hl : l' = l ∨ l' = { l with control := { l.control with computeDone := 1 } } := by
    unfold computeMainStep at h
    cases hm : p.main with
    | storeDone =>
        simp only [hm, Option.some.injEq, Prod.mk.injEq] at h
        exact Or.inr h.1.symm
    | exit code => simp [hm] at h
    | _ =>
        simp only [hm] at h
        (try split at h) <;> try simp only [Option.some.injEq, Prod.mk.injEq, reduceCtorEq] at h
        all_goals exact Or.inl h.1.symm
  rcases hl with rfl | rfl
  · exact .of_same rfl rfl rfl rfl rfl rfl rfl rfl
  · exact .of_same rfl rfl rfl rfl rfl rfl rfl rfl

end Moves

/-! ## The steps of the watchdog -/

/-- The watchdog's step leaves the heartbeats and what was stored of them alone. -/
theorem WatchdogMove.heartbeat {clock : UInt64} {l l' : Layout} {pc pc' : WatchdogPc}
    (h : WatchdogMove clock l pc l' pc') (X : Stage) :
    l'.control.heartbeat X = l.control.heartbeat X := by
  cases h <;> rfl

theorem WatchLog.next_beaten_watchdog (g : WatchLog) (p : Compute) (pc' : WatchdogPc)
    (clock : UInt64) (c : ShmControl) (X : Stage) :
    (g.next p { p with watchdog := pc' } clock c).beaten X = g.beaten X := by
  have hno : p.beats { p with watchdog := pc' } X = false := by
    cases X with
    | fast => exact Compute.beats_fast_same rfl
    | window => exact Compute.beats_window_same rfl
    | snapshot => exact Compute.beats_snapshot_same rfl
  simp [WatchLog.next, hno]

/-- Where the watchdog's attention comes from: the clock was just read, the flag was just
found clear, or it was there before. -/
theorem WatchdogMove.watching {clock : UInt64} {l l' : Layout} {p : Compute} {pc' : WatchdogPc}
    (h : WatchdogMove clock l p.watchdog l' pc') (hst : Stages l p) {X : Stage} {t : UInt64}
    (hw : pc'.watching X = some t) :
    p.watchdog.watching X = some t
      ∨ (p.watchdog.reading = some t ∧ p.finished X = false)
      ∨ (p.watchdog = .now ∧ t = clock ∧ X = .snapshot) := by
  have hflag : ∀ {b : Bool} {w : UInt32}, (b = true → w ≠ 0) → w = 0 → b = false := by
    intro b w himp hzero
    cases b with
    | true => exact absurd hzero (himp rfl)
    | false => rfl
  cases h with
  | now hpc =>
      cases X with
      | snapshot => exact Or.inr (Or.inr ⟨hpc, (Option.some.inj hw).symm, rfl⟩)
      | _ => cases hw
  | loadFastDone hpc =>
      cases X with
      | fast =>
          simp only [WatchdogPc.watching, decide_eq_true_eq] at hw
          split at hw
          · cases hw
          · rename_i hz
            exact Or.inr (Or.inl ⟨by rw [hpc]; exact hw, hflag hst.fastDone (not_not.mp hz)⟩)
      | snapshot => exact Or.inl (by rw [hpc]; exact hw)
      | window => cases hw
  | loadWindowDone hpc =>
      cases X with
      | window =>
          simp only [WatchdogPc.watching, decide_eq_true_eq] at hw
          split at hw
          · cases hw
          · rename_i hz
            exact Or.inr (Or.inl ⟨by rw [hpc]; exact hw, hflag hst.windowDone (not_not.mp hz)⟩)
      | _ => exact Or.inl (by rw [hpc]; exact hw)
  | loadFast hpc =>
      cases X with
      | fast => cases hw
      | _ => exact Or.inl (by rw [hpc]; exact hw)
  | loadWindow hpc =>
      cases X with
      | snapshot => exact Or.inl (by rw [hpc]; exact hw)
      | _ => cases hw
  | _ => cases X <;> cases hw

theorem WatchdogMove.reading {clock : UInt64} {l l' : Layout} {pc pc' : WatchdogPc}
    (h : WatchdogMove clock l pc l' pc') {t : UInt64} (hr : pc'.reading = some t) :
    pc.reading = some t ∨ t = clock := by
  cases h with
  | now hpc => exact Or.inr (Option.some.inj hr).symm
  | loadFastDone hpc => exact Or.inl (by rw [hpc]; exact hr)
  | loadWindowDone hpc => exact Or.inl (by rw [hpc]; exact hr)
  | loadFast hpc => exact Or.inl (by rw [hpc]; exact hr)
  | loadWindow hpc => exact Or.inl (by rw [hpc]; exact hr)
  | _ => cases hr

/-- A verdict: the sample had found a stage late before, or finds one now that it was
watching. -/
theorem WatchdogMove.late_cases {s : Pipeline} {l' : Layout} {p : Compute} {g : WatchLog}
    {pc' : WatchdogPc} (h : WatchdogMove s.clock s.layout p.watchdog l' pc')
    (hown : s.judgesOwn g p = true) (hl : pc'.late = true) :
    p.watchdog.late = true
      ∨ ∃ X t, p.watchdog.watching X = some t ∧ g.beaten X = true
          ∧ X.overdue t s.layout.control = true := by
  cases h with
  | loadFast hpc =>
      obtain ⟨hnd, hover⟩ := heartbeatStalled_done hl
      simp only [Pipeline.judgesOwn, hpc, Bool.or_eq_true, Bool.not_eq_true'] at hown
      rcases hown with hbeat | hno
      · exact Or.inr ⟨.fast, _, by rw [hpc, hnd]; rfl, hbeat, hover⟩
      · rw [show heartbeatStalled _ _ _ _ = true from hl] at hno
        cases hno
  | loadWindow hpc =>
      have hor : (_ || heartbeatStalled _ _ _ _) = true := hl
      rw [Bool.or_eq_true] at hor
      rcases hor with hl | hl
      · exact Or.inl (by rw [hpc]; exact hl)
      · obtain ⟨hnd, hover⟩ := heartbeatStalled_done hl
        simp only [Pipeline.judgesOwn, hpc, Bool.or_eq_true, Bool.not_eq_true'] at hown
        rcases hown with hbeat | hno
        · exact Or.inr ⟨.window, _, by rw [hpc, hnd]; rfl, hbeat, hover⟩
        · rw [hl] at hno
          cases hno
  | late hpc hlate =>
      rcases hlate with hf | hw | hs
      · exact Or.inl (by rw [hpc, hf]; rfl)
      · exact Or.inl (by rw [hpc, hw]; exact Bool.or_true _)
      · simp only [Pipeline.judgesOwn, hpc, Bool.or_eq_true, Bool.not_eq_true'] at hown
        rcases hown with hbeat | hno
        · exact Or.inr ⟨.snapshot, _, by rw [hpc]; rfl, hbeat, hs⟩
        · rw [hs] at hno
          cases hno
  | _ => cases hl

theorem WatchdogMove.fault_cases {clock : UInt64} {l l' : Layout} {pc pc' : WatchdogPc}
    (h : WatchdogMove clock l pc l' pc') (hne : l'.control.fault ≠ 0) :
    l.control.fault ≠ 0 ∨ pc.late = true := by
  cases h with
  | storeFault hpc => exact Or.inr (by rw [hpc]; rfl)
  | _ => exact Or.inl hne

/-- **A step of the watchdog.** -/
theorem Watched.watchdog {s : Pipeline} {l' : Layout} {p : Compute} {g : WatchLog}
    {pc' : WatchdogPc} (h : Watched s.clock s.layout.control p g)
    (hm : WatchdogMove s.clock s.layout p.watchdog l' pc') (hst : Stages s.layout p)
    (hown : s.judgesOwn g p = true) :
    Watched s.clock l'.control { p with watchdog := pc' }
      (g.next p { p with watchdog := pc' } s.clock l'.control) := by
  have hreading : ∀ t, pc'.reading = some t → t ≤ s.clock := by
    intro t hr
    rcases hm.reading hr with hr' | rfl
    · exact h.reading t hr'
    · exact UInt64.le_refl _
  refine ⟨hreading, ?_, ?_, ?_⟩
  · intro X t hw hbeat hover
    have hread := WatchdogPc.reading_of_watching hw
    have hover' : X.overdue t s.layout.control = true := by
      simpa only [Stage.overdue, hm.heartbeat X] using hover
    have hbeat' : g.beaten X = true := by
      rwa [WatchLog.next_beaten_watchdog] at hbeat
    have hseen : p.finished X = false →
        (g.next p { p with watchdog := pc' } s.clock l'.control).silent = true := by
      intro hfin
      have hlater : X.overdue s.clock l'.control = true :=
        Stage.overdue_mono (hreading t hread) hover
      refine WatchLog.next_seen hread hbeat ?_ hlater
      cases X <;> exact hfin
    rcases hm.watching hst hw with hold | ⟨_, hfin⟩ | ⟨hpc, rfl, rfl⟩
    · exact WatchLog.next_silent (h.watching X t hold hbeat' hover')
    · exact hseen hfin
    · -- the clock has just been read: the snapshot thread has not ended before that
      simp only [Pipeline.judgesOwn, hpc, Bool.or_eq_true, decide_eq_true_eq, Bool.not_eq_true']
        at hown
      rcases hown with hzero | hno
      · refine hseen ?_
        cases hfin : p.finished .snapshot with
        | true => exact absurd hzero (hst.snapshotDone hfin)
        | false => rfl
      · rw [hover'] at hno
        cases hno
  · intro hl
    rcases hm.late_cases hown hl with hl' | ⟨X, t, hw, hbeat, hover⟩
    · exact WatchLog.next_silent (h.late hl')
    · exact WatchLog.next_silent (h.watching X t hw hbeat hover)
  · intro hne
    rcases hm.fault_cases hne with hne' | hl
    · exact WatchLog.next_silent (h.fault hne')
    · exact WatchLog.next_silent (h.late hl)

/-! ## Every run -/

namespace Pipeline

theorem noteWatch_running {g : WatchLog} {s s' : Pipeline} {a : Act} {p p' : Compute}
    (hp : s.compute = .running p) (hp' : s'.compute = .running p') :
    noteWatch g s a s' = g.next p p' s'.clock s'.layout.control := by
  simp only [noteWatch, hp, hp']

theorem noteWatch_ended {g : WatchLog} {s s' : Pipeline} {a : Act} {status : WaitStatus}
    (h : s'.compute = .ended status) : noteWatch g s a s' = g := by
  unfold noteWatch
  rw [h]
  cases s.compute <;> rfl

/-- The attempt that runs is watched; one that ended with 3 had a silent stage. -/
structure WatchedRun (s : Pipeline) (g : WatchLog) : Prop where
  running : ∀ p, s.compute = .running p → Watched s.clock s.layout.control p g
  ended : s.compute = .ended (.exited 3) → g.silent = true

theorem watchedRun_step {s s' : Pipeline} {a : Act} {g : WatchLog} (h : WatchedRun s g)
    (hi : Sound s) (hok : watchesOwn ⟨s, g⟩ a = true) (hs : s.step a = some s') :
    WatchedRun s' (noteWatch g s a s') := by
  -- a step of the attempt's own threads ends in a running attempt
  have hrun : ∀ {p p' : Compute}, s.compute = .running p → s'.compute = .running p' →
      Watched s'.clock s'.layout.control p' (g.next p p' s'.clock s'.layout.control) →
      WatchedRun s' (noteWatch g s a s') := by
    intro p p' hp hp' hw
    rw [noteWatch_running hp hp']
    refine ⟨?_, ?_⟩
    · intro q hq
      obtain rfl := Child.running_unique hp' hq
      exact hw
    · intro hend
      rw [hp'] at hend
      cases hend
  cases attemptMove hs with
  | unseen hu =>
      cases hcom : s.compute with
      | running p =>
          have hp' : s'.compute = .running p := hu.compute.trans hcom
          exact hrun hcom hp' ((h.running p hcom).step (.of_same rfl rfl rfl rfl hu.fault
            hu.heartbeatFast hu.heartbeatWindow hu.heartbeatSnapshot) hu.clock)
      | ended status =>
          have he' : s'.compute = .ended status := hu.compute.trans hcom
          rw [noteWatch_ended he']
          refine ⟨fun q hq => ?_, fun hend => h.ended (hu.compute.symm.trans hend)⟩
          rw [he'] at hq
          cases hq
      | _ =>
          have hc' := hu.compute.trans hcom
          refine ⟨fun q hq => ?_, fun hend => ?_⟩
          · rw [hc'] at hq
            cases hq
          · rw [hc'] at hend
            cases hend
  | rerun hl hc hx hh hk =>
      refine ⟨fun q hq => ?_, fun hend => ?_⟩
      · rw [hc] at hq
        cases hq
      · rw [hc] at hend
        cases hend
  | spawn hact hsup hl hc hx hh hk =>
      have hempty : noteWatch g s a s' = .empty := by
        unfold noteWatch
        rw [hc]
        cases hcom : s.compute with
        | running p =>
            have hawait := hi.skeleton.running p hcom
            rw [hsup] at hawait
            cases hawait
        | _ => rfl
      subst hact
      have hclear := fault_of_spawn hsup hok
      rw [hempty]
      refine ⟨fun q hq => ?_, fun hend => ?_⟩
      · obtain rfl := Child.running_unique hc hq
        exact watched_init (by rw [hl]; exact hclear)
      · rw [hc] at hend
        cases hend
  | noSpawn hsup hl hc hx hh hk =>
      refine ⟨fun q hq => ?_, fun hend => ?_⟩
      · rw [hc] at hq
        cases hq
      · rw [hc] at hend
        cases hend
  | reap hw hl hc hx hh hk =>
      refine ⟨fun q hq => ?_, fun hend => ?_⟩
      · rw [← hc, hq] at hw
        cases hw
      · rw [noteWatch_ended hend]
        exact h.ended (hc ▸ hend)
  | fast hact hp ha hm hc hx hh hk =>
      rw [hk] at hrun
      exact hrun hp hc ((h.running _ hp).step hm.beatStep (UInt64.le_refl _))
  | window hact hp ha hm hc hx hh hk =>
      rw [hk] at hrun
      exact hrun hp hc ((h.running _ hp).step hm.beatStep (UInt64.le_refl _))
  | snapshot hact hp ha hm hc hx hh hk =>
      rw [hk] at hrun
      exact hrun hp hc ((h.running _ hp).step hm.beatStep (UInt64.le_refl _))
  | @watchdog p pc' hact hp ha hm hc hx hh hk =>
      rw [hk] at hrun
      subst hact
      have hown := judgesOwn_of_watchdog hp hok
      exact hrun hp hc ((h.running _ hp).watchdog hm (hi.stages _ hp) hown)
  | main hact hp hm hc hx hh hk =>
      rw [hk] at hrun
      exact hrun hp hc ((h.running _ hp).step (computeMainStep_beatStep hm) (UInt64.le_refl _))
  | ended hp hcode hl hc hx hh hk =>
      rw [noteWatch_ended hc]
      refine ⟨fun q hq => ?_, fun hend => ?_⟩
      · rw [hc] at hq
        cases hq
      · rw [hc] at hend
        -- the exit code was read from `fault`, past the join of the watchdog
        rcases hcode 3 (Child.ended.inj hend) with hmain | hone | htwo
        · have hread := (hi.stages _ hp).code 3 hmain
          refine (h.running _ hp).fault ?_
          intro hzero
          rw [hzero] at hread
          exact absurd hread (by decide)
        · exact absurd hone (by decide)
        · exact absurd htwo (by decide)

theorem watchedRun_reachable {x : Transition.Noted Pipeline WatchLog} (h : ReachableWatched x) :
    WatchedRun x.now x.past := by
  refine Transition.ReachableNoted.invariant ?_ ?_ h
  · rintro _ ⟨replay, clock, rfl⟩
    refine ⟨?_, ?_⟩
    · intro p hp
      cases hp
    · intro hend
      cases hend
  · intro x a s' hr hi hok hs
    exact watchedRun_step hi (sound_reachable hr) hok hs

/--
**An exit with 3 is about a silent stage.**

In every run over any number of attempts and pipelines in which compute is always spawned
with `fault` clear, the watchdog finds no stage late by a heartbeat that the stage has
not stored in this attempt, and does not read its clock after the snapshot thread has
ended with a heartbeat already too old: when an attempt has returned 3, then in the course
of one of its samples one of its own stages had stored a heartbeat, had not set its done
flag, and had been silent for longer than `stall_limit_ns` of its period.
-/
theorem fault_exit_has_silent_stage {x : Transition.Noted Pipeline WatchLog}
    (h : ReachableWatched x) (hend : x.now.compute = .ended (.exited 3)) :
    x.past.silent = true :=
  (watchedRun_reachable h).ended hend

/-- The attempt has returned 3. -/
def exitedThree (s : Pipeline) : Bool :=
  match s.compute with
  | .ended (.exited 3) => true
  | _ => false

theorem compute_of_exitedThree {s : Pipeline} (h : s.exitedThree = true) :
    s.compute = .ended (.exited 3) := by
  unfold exitedThree at h
  split at h
  · assumption
  · cases h

/-- The fast thread stores a heartbeat and is silent for a second, and a sample of the
watchdog ends with the store of `fault`. -/
def faultStored : List Act :=
  List.flatten [List.replicate 6 (.sup 7), List.replicate 2 .computeMain,
    List.replicate 3 .fast, [.tick 1000000000], List.replicate 9 .watchdog]

/-- Ingest ends, and compute's threads run to their ends and are joined. The fast thread
has this many steps to go. -/
def attemptEnds (fast : Nat) : List Act :=
  List.flatten [[.ingestMain, .source, .source, .frames], List.replicate 4 .ingestMain,
    List.replicate fast .fast, List.replicate 452 .window, List.replicate 328 .snapshot,
    [.watchdog], List.replicate 7 .computeMain]

theorem fault_exit_after_silent_fast :
    ∃ x, ReachableWatched x ∧ x.now.compute = .ended (.exited 3) ∧ x.past.silent = true := by
  have h : (Transition.execWhen (Transition.notedStep step noteWatch) watchesOwn
      ⟨start [] 1, .empty⟩ (faultStored ++ attemptEnds 6)).any
      (fun x => x.now.exitedThree) = true := by
    decide +kernel
  obtain ⟨x, hrun, hx⟩ := Option.any_eq_true _ _ |>.mp h
  have hend := compute_of_exitedThree hx
  have hr : ReachableWatched x :=
    Transition.ReachableNoted.execWhen (fun _ _ hg => hg) ⟨_, _, rfl⟩ hrun
  exact ⟨x, hr, hend, fault_exit_has_silent_stage hr hend⟩

/-- The same attempt is killed instead. The next one finds `fault` set, so it returns 3
although its watchdog took no sample at all. -/
theorem fault_exit_of_earlier_attempt :
    ∃ x, Transition.ReachableNoted step noteWatch (fun _ _ => True) Start .empty x
      ∧ x.now.compute = .ended (.exited 3) ∧ x.past.silent = false := by
  have h : (Transition.execWhen (Transition.notedStep step noteWatch) (fun _ _ => true)
      ⟨start [] 1, .empty⟩ (faultStored ++ [Act.killCompute] ++ List.replicate 4 (Act.sup 8)
        ++ List.replicate 2 Act.computeMain ++ attemptEnds 9)).any
      (fun x => x.now.exitedThree && !x.past.silent) = true := by
    decide +kernel
  obtain ⟨x, hrun, hx⟩ := Option.any_eq_true _ _ |>.mp h
  simp only [Bool.and_eq_true, Bool.not_eq_true'] at hx
  exact ⟨x, Transition.ReachableNoted.execWhen (fun _ _ _ => trivial) ⟨_, _, rfl⟩ hrun,
    compute_of_exitedThree hx.1, hx.2⟩

end Pipeline

end RateHub
