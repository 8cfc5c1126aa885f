import RateHub.Lib.History
import RateHub.Proof.Moves
import RateHub.Proof.StageMoves
import RateHub.Proof.Skeleton

/-!
# The overrun counters count the late cycles

A stage samples the clock at the beginning of a cycle and at its end, and `finish_cycle` adds
one to a shared counter when the difference, as a signed number, exceeds the period. `CycleLog` keeps
the same in numbers without bound, from the clock itself: when the cycle began, how long it took,
how many took longer than the period. The steady clock counts nanoseconds in a signed 64-bit
number and is not negative, so a difference of two samples is exact.

The counters live in the mapping: they go on over the attempts of a pipeline, and `reset_control`
clears them.
-/

namespace RateHub

/-! ## A cycle -/

/-- What a stage is about to do with its cycle. -/
inductive CycleEvent where
  | begins
  | measured
  | ends
  | other
  deriving DecidableEq, Repr

/-- The samples are taken at `start` and at `work`, and `finish_cycle` is the third event. -/
def FastPc.cycleEvent : FastPc → CycleEvent
  | .start => .begins
  | .work => .measured
  | .finish _ => .ends
  | _ => .other

def WindowPc.cycleEvent : WindowPc → CycleEvent
  | .start => .begins
  | .work => .measured
  | .finish _ => .ends
  | _ => .other

def SnapshotPc.cycleEvent : SnapshotPc → CycleEvent
  | .start => .begins
  | .work => .measured
  | .finish _ => .ends
  | _ => .other

/-- The cycles of a stage: when the last one began, how long it took, and how many were
finished late. -/
structure CycleLog where
  begun : Nat := 0
  took : Nat := 0
  late : Nat := 0
  deriving DecidableEq, Repr

/-- The log after a step at the time `now`. -/
def CycleLog.after (period now : Nat) (g : CycleLog) : CycleEvent → CycleLog
  | .begins => { g with begun := now }
  | .measured => { g with took := now - g.begun }
  | .ends => if period < g.took then { g with late := g.late + 1 } else g
  | .other => g

/-- What a stage holds of its cycle. -/
inductive CyclePhase where
  | out
  | timing (started : UInt64)
  | timed (work : Int64)

/-- The sample of the beginning is kept up to `work`, the difference up to `finish_cycle`. -/
def Fast.phase (t : Fast) : CyclePhase :=
  match t.pc with
  | .pop _ => .timing t.started
  | .publish _ _ _ => .timing t.started
  | .heartbeat _ => .timing t.started
  | .work => .timing t.started
  | .testDone work => .timed work
  | .finish work => .timed work
  | _ => .out

/-- The pass after the last cycle is not timed. -/
def Window.phase (t : Window) : CyclePhase :=
  match t.pc with
  | .load false _ _ _ => .timing t.started
  | .publish false _ _ => .timing t.started
  | .work => .timing t.started
  | .finish work => .timed work
  | _ => .out

def SnapshotThread.phase (t : SnapshotThread) : CyclePhase :=
  match t.pc with
  | .work => .timing t.started
  | .finish work => .timed work
  | _ => .out

/-- What a step does to the cycle and to the counter. -/
inductive CycleMove (clock : UInt64) (period : Int64) :
    CycleEvent → CyclePhase → UInt32 → CyclePhase → UInt32 → Prop
  | begins {ov : UInt32} : CycleMove clock period .begins .out ov (.timing clock) ov
  | goesOn {ph : CyclePhase} {ov : UInt32} : CycleMove clock period .other ph ov ph ov
  | measured {started : UInt64} {ov : UInt32} :
      CycleMove clock period .measured (.timing started) ov (.timed (clock - started).toInt64) ov
  | leaves {ph : CyclePhase} {ov : UInt32} : CycleMove clock period .other ph ov .out ov
  | ends {work : Int64} {ov : UInt32} :
      CycleMove clock period .ends (.timed work) ov .out (countOverrun ov work period)

section

variable {clock : UInt64} {l l' : Layout}

/-- Whether the record is accepted or not, the cycle goes on. -/
theorem Fast.phase_absorb (t : Fast) (record : Record) :
    (t.absorb record).phase = .timing t.started := by
  unfold Fast.absorb
  split <;> rfl

/-- **A step of the fast thread**, by what it does to its cycle. -/
theorem fast_cycle {t t' : Fast} (h : fastStep clock l t = some (l', t')) :
    CycleMove clock kFastPeriodNs t.pc.cycleEvent t.phase l.control.overrunFast t'.phase
      l'.control.overrunFast := by
  cases fastMove h with
  | took hpc hr =>
      -- the record goes through `integrate` within the cycle
      rw [Fast.phase_absorb]
      simp only [Fast.phase, hpc, FastPc.cycleEvent]
      exact .goesOn
  | start hpc =>
      simp only [Fast.phase, hpc, FastPc.cycleEvent]
      exact .begins
  | drained hpc _ =>
      simp only [Fast.phase, hpc, FastPc.cycleEvent]
      exact .measured
  | dry hpc _ =>
      simp only [Fast.phase, hpc, FastPc.cycleEvent]
      exact .measured
  | leave hpc _ =>
      -- the last cycle is left before `finish_cycle`
      simp only [Fast.phase, hpc, FastPc.cycleEvent]
      exact .leaves
  | finish hpc =>
      simp only [Fast.phase, hpc, FastPc.cycleEvent]
      exact .ends
  | _ hpc =>
      simp only [Fast.phase, hpc, FastPc.cycleEvent]
      exact .goesOn

/-- Inside a timed pass the next row is still inside it. -/
theorem WindowPc.next_false (id : Fin kMaxSources) (started : UInt64) :
    Window.phase ⟨.next false id, started⟩ = .timing started := by
  unfold WindowPc.next
  split <;> rfl

/-- The last pass is outside any cycle. -/
theorem WindowPc.next_true (id : Fin kMaxSources) (started : UInt64) :
    Window.phase ⟨.next true id, started⟩ = .out := by
  unfold WindowPc.next
  split <;> rfl

/-- **A step of the window thread**, by what it does to its cycle. -/
theorem window_cycle {t t' : Window} (h : windowStep clock l t = some (l', t')) :
    CycleMove clock kWindowPeriodNs t.pc.cycleEvent t.phase l.control.overrunWindow t'.phase
      l'.control.overrunWindow := by
  cases windowMove h with
  -- a step on a row: in the timed pass or in the last one
  | @loading last _ _ _ _ _ hpc _ | @sample last _ _ _ _ _ hpc _ _ | @storing last _ _ _ _ hpc _ _ =>
      simp only [Window.phase, hpc, WindowPc.cycleEvent]
      cases last <;> exact .goesOn
  | @skip last _ _ _ _ _ _ hpc _ _ | @stored last _ _ _ hpc _ =>
      cases last with
      | false =>
          rw [WindowPc.next_false]
          simp only [Window.phase, hpc, WindowPc.cycleEvent]
          exact .goesOn
      | true =>
          rw [WindowPc.next_true]
          simp only [Window.phase, hpc, WindowPc.cycleEvent]
          exact .goesOn
  | start hpc =>
      simp only [Window.phase, hpc, WindowPc.cycleEvent]
      exact .begins
  | work hpc =>
      simp only [Window.phase, hpc, WindowPc.cycleEvent]
      exact .measured
  | finish hpc =>
      simp only [Window.phase, hpc, WindowPc.cycleEvent]
      exact .ends
  | _ hpc =>
      simp only [Window.phase, hpc, WindowPc.cycleEvent]
      exact .goesOn

/-- The snapshot thread gathers its rows after its last cycle. -/
theorem SnapshotPc.next_out (id : Fin kMaxSources) (started : UInt64) (snap : Snapshot) :
    SnapshotThread.phase ⟨.next id, started, snap⟩ = .out := by
  unfold SnapshotPc.next
  split <;> rfl

/-- **A step of the snapshot thread**, by what it does to its cycle. -/
theorem snapshot_cycle {t t' : SnapshotThread} (h : snapshotStep clock l t = some (l', t')) :
    CycleMove clock kSnapshotPeriodNs t.pc.cycleEvent t.phase l.control.overrunSnapshot t'.phase
      l'.control.overrunSnapshot := by
  cases snapshotMove h with
  | start hpc =>
      simp only [SnapshotThread.phase, hpc, SnapshotPc.cycleEvent]
      exact .begins
  | work hpc =>
      simp only [SnapshotThread.phase, hpc, SnapshotPc.cycleEvent]
      exact .measured
  | finish hpc =>
      simp only [SnapshotThread.phase, hpc, SnapshotPc.cycleEvent]
      exact .ends
  | row hpc _ | noRow hpc _ =>
      rw [SnapshotPc.next_out]
      simp only [SnapshotThread.phase, hpc, SnapshotPc.cycleEvent]
      exact .goesOn
  | @fill k hpc =>
      -- the copy into the write slot comes after the last cycle, to its last part
      by_cases hk : k + 1 < Snapshot.parts
      · simp only [SnapshotThread.phase, hpc, SnapshotPc.cycleEvent, if_pos hk]
        exact .goesOn
      · simp only [SnapshotThread.phase, hpc, SnapshotPc.cycleEvent, if_neg hk]
        exact .goesOn
  | _ hpc =>
      simp only [SnapshotThread.phase, hpc, SnapshotPc.cycleEvent]
      exact .goesOn

end

/-! ## The measure -/

/-- What the stage holds of its cycle is what the log holds. -/
def CycleLog.Tracks (g : CycleLog) (clock : UInt64) : CyclePhase → Prop
  | .out => True
  | .timing started => started.toNat = g.begun ∧ g.begun ≤ clock.toNat
  | .timed work => work.toInt = g.took

/-- Two readings of a clock that is not negative as a signed number. -/
theorem elapsed_exact {a b : UInt64} (h : a.toNat ≤ b.toNat) (hb : b.toNat < 2 ^ 63) :
    (b - a).toInt64.toInt = ((b.toNat - a.toNat : Nat) : Int) := by
  have hsub := UInt64.toNat_sub_of_le b a h
  rw [← hsub]
  have hlt : (b - a).toNat < 2 ^ 63 := by omega
  show (b - a).toBitVec.toInt = _
  rw [BitVec.toInt_eq_toNat_of_lt (by simpa using by omega)]
  rfl

/-- `budget` on a work that is not negative. -/
theorem budgetOverrun_iff {work period : Int64} {took : Nat} (hw : work.toInt = took)
    (hp : 0 < period.toInt) : budgetOverrun work period = decide (period.toInt.toNat < took) := by
  -- the two guards of `budget` do not fire
  have hpos : ¬ period ≤ 0 := by
    rw [Int64.le_iff_toInt_le]
    simpa using hp
  have hneg : ¬ work < 0 := by
    rw [Int64.lt_iff_toInt_lt, hw]
    simp
  simp only [budgetOverrun, hneg, if_false, hpos, decide_false, Bool.false_or,
    Int64.lt_iff_toInt_lt, hw]
  refine decide_eq_decide.mpr ?_
  omega

/-- **One step of a stage.** -/
theorem CycleLog.tracks_step {g : CycleLog} {clock : UInt64} {period : Int64} {e : CycleEvent}
    {ph ph' : CyclePhase} {ov ov' : UInt32} (hc : clock.toNat < 2 ^ 63) (hp : 0 < period.toInt)
    (h : g.Tracks clock ph) (hov : ov = UInt32.ofNat g.late)
    (hm : CycleMove clock period e ph ov ph' ov') :
    (g.after period.toInt.toNat clock.toNat e).Tracks clock ph'
      ∧ ov' = UInt32.ofNat (g.after period.toInt.toNat clock.toNat e).late := by
  cases hm with
  | begins => exact ⟨⟨rfl, Nat.le_refl _⟩, hov⟩
  | goesOn => exact ⟨h, hov⟩
  | leaves => exact ⟨trivial, hov⟩
  | @measured started =>
      -- the clock has not gone back since the first sample, so the difference is exact
      obtain ⟨hbegun, hle⟩ := h
      refine ⟨?_, hov⟩
      show (clock - started).toInt64.toInt = ((clock.toNat - g.begun : Nat) : Int)
      rw [← hbegun] at hle ⊢
      exact elapsed_exact hle hc
  | @ends work =>
      -- the counter and the log see the same cycle late
      refine ⟨trivial, ?_⟩
      have htook : work.toInt = g.took := h
      rw [countOverrun, budgetOverrun_iff htook hp, CycleLog.after]
      by_cases hlate : period.toInt.toNat < g.took
      · rw [if_pos (decide_eq_true hlate), if_pos hlate, hov]
        simp [UInt32.ofNat_add]
      · rw [if_neg (by simpa using hlate), if_neg hlate, hov]

/-! ## The pipeline -/

/-- The cycles of the three stages. -/
structure LateLog where
  fast : CycleLog := {}
  window : CycleLog := {}
  snapshot : CycleLog := {}
  deriving DecidableEq, Repr

namespace Pipeline

/-- A step of a stage is noted, and `reset_control` begins anew. -/
def noteLate (g : LateLog) (s : Pipeline) (a : Act) (_ : Pipeline) : LateLog :=
  match a, s.compute with
  | .fast, .running p =>
      { g with fast := g.fast.after kFastPeriodNs.toInt.toNat s.clock.toNat p.fast.pc.cycleEvent }
  | .window, .running p =>
      { g with window :=
          g.window.after kWindowPeriodNs.toInt.toNat s.clock.toNat p.window.pc.cycleEvent }
  | .snapshot, .running p =>
      { g with snapshot :=
          g.snapshot.after kSnapshotPeriodNs.toInt.toNat s.clock.toNat p.snapshot.pc.cycleEvent }
  | .rerun, _ =>
      { fast := { g.fast with late := 0 }, window := { g.window with late := 0 }
        snapshot := { g.snapshot with late := 0 } }
  | _, _ => g

/-- A reading of the steady clock is a signed number that is not negative. -/
def steady (_ : Pipeline) (a : Act) : Prop := ∀ now, a = .tick now → now.toNat < 2 ^ 63

/-- The same at the start. -/
def SteadyStart (s : Pipeline) : Prop := Start s ∧ s.clock.toNat < 2 ^ 63

/-- The runs, with the log. -/
def ReachableLate : Transition.Noted Pipeline LateLog → Prop :=
  Transition.ReachableNoted step noteLate (fun x a => steady x.now a) SteadyStart {}

/-- The counters are the log's. -/
structure Counts (l : Layout) (g : LateLog) : Prop where
  fast : l.control.overrunFast = UInt32.ofNat g.fast.late
  window : l.control.overrunWindow = UInt32.ofNat g.window.late
  snapshot : l.control.overrunSnapshot = UInt32.ofNat g.snapshot.late

/-- And so is what the stages hold. -/
structure StagesTrack (p : Compute) (clock : UInt64) (g : LateLog) : Prop where
  fast : g.fast.Tracks clock p.fast.phase
  window : g.window.Tracks clock p.window.phase
  snapshot : g.snapshot.Tracks clock p.snapshot.phase

/-- The counters and the cycles in progress agree with the log. -/
structure Tallied (s : Pipeline) (g : LateLog) : Prop where
  clock : s.clock.toNat < 2 ^ 63
  counts : Counts s.layout g
  stages : ∀ p, s.compute = .running p → StagesTrack p s.clock g

variable {s s' : Pipeline} {g : LateLog}

/-- Nobody but a stage thread touches its counter. -/
theorem Counts.of_eq {l l' : Layout} (h : Counts l g)
    (hf : l'.control.overrunFast = l.control.overrunFast)
    (hw : l'.control.overrunWindow = l.control.overrunWindow)
    (hs : l'.control.overrunSnapshot = l.control.overrunSnapshot) : Counts l' g :=
  ⟨hf.trans h.fast, hw.trans h.window, hs.trans h.snapshot⟩

/-- A step at which no stage moves. -/
theorem Tallied.frame (h : Tallied s g) (hclock : s'.clock = s.clock) (hc : Counts s'.layout g)
    (hstages : ∀ p', s'.compute = .running p' → StagesTrack p' s.clock g) : Tallied s' g := by
  refine ⟨by rw [hclock]; exact h.clock, hc, ?_⟩
  rw [hclock]
  exact hstages

/-- Time passing changes nothing about a sample. -/
theorem Tracks_later {c : CycleLog} {now : UInt64} {ph : CyclePhase} {clock : UInt64}
    (h : c.Tracks clock ph) (hle : clock ≤ now) : c.Tracks now ph := by
  cases ph with
  | out => trivial
  | timing started => exact ⟨h.1, Nat.le_trans h.2 hle⟩
  | timed work => exact h

/-- A new attempt has no cycle in progress. -/
theorem StagesTrack.init (clock : UInt64) (g : LateLog) : StagesTrack Compute.init clock g :=
  ⟨trivial, trivial, trivial⟩

/-- The supervisor's own stores. -/
theorem supStep_overruns {l l' : Layout} {pc pc' : SupPc} (h : supStep l pc = some (l', pc')) :
    l'.control.overrunFast = l.control.overrunFast
      ∧ l'.control.overrunWindow = l.control.overrunWindow
      ∧ l'.control.overrunSnapshot = l.control.overrunSnapshot := by
  cases pc <;> simp only [supStep, Option.some.injEq, Prod.mk.injEq, reduceCtorEq] at h <;>
    obtain ⟨rfl, _⟩ := h <;> exact ⟨rfl, rfl, rfl⟩

/-- Steps of the other processes. -/
theorem Tallied.others (h : Tallied s g) (hclock : s'.clock = s.clock)
    (hcom : s'.compute = s.compute)
    (hf : s'.layout.control.overrunFast = s.layout.control.overrunFast)
    (hw : s'.layout.control.overrunWindow = s.layout.control.overrunWindow)
    (hs : s'.layout.control.overrunSnapshot = s.layout.control.overrunSnapshot) :
    Tallied s' g :=
  h.frame hclock (h.counts.of_eq hf hw hs) (by rw [hcom]; exact h.stages)

/-- Compute is gone. -/
theorem Tallied.noStages (h : Tallied s g) (hclock : s'.clock = s.clock)
    (hl : s'.layout = s.layout) (hcom : ∀ p, s'.compute ≠ .running p) : Tallied s' g :=
  h.frame hclock (by rw [hl]; exact h.counts) fun p hp => absurd hp (hcom p)

/-- The periods are positive, as `budget` asks. -/
theorem kPeriods_pos : 0 < kFastPeriodNs.toInt ∧ 0 < kWindowPeriodNs.toInt
    ∧ 0 < kSnapshotPeriodNs.toInt := by
  decide

/-- The snapshot thread's step, with or without the exchange. -/
theorem Tallied.snapshot {p : Compute} {l' : Layout} {t' : SnapshotThread} (h : Tallied s g)
    (hp : s.compute = .running p) (hst : snapshotStep s.clock s.layout p.snapshot = some (l', t')) :
    Tallied (s.withCompute (l', { p with snapshot := t' })) (noteLate g s .snapshot s') := by
  obtain ⟨hphase, hcount⟩ := CycleLog.tracks_step h.clock kPeriods_pos.2.2 (h.stages p hp).snapshot
    h.counts.snapshot (snapshot_cycle hst)
  obtain ⟨hb, ov, sd, b, rfl⟩ := snapshotStep_layout hst
  simp only [noteLate, hp]
  refine ⟨h.clock, ⟨h.counts.fast, h.counts.window, hcount⟩, fun q hq => ?_⟩
  obtain rfl := Child.running.inj hq
  exact ⟨(h.stages p hp).fast, (h.stages p hp).window, hphase⟩

/-- **Every step keeps the tally.** -/
theorem tallied_step {a : Act} (h : Tallied s g) (hok : steady s a) (hs : s.step a = some s') :
    Tallied s' (noteLate g s a s') := by
  cases move_of_step hs with
  | tick hle =>
      refine ⟨hok _ rfl, h.counts, fun p hp => ?_⟩
      exact ⟨Tracks_later (h.stages p hp).fast hle, Tracks_later (h.stages p hp).window hle,
        Tracks_later (h.stages p hp).snapshot hle⟩
  | spawnCompute hsup =>
      -- whatever cycle the attempt before had begun is gone with it
      refine h.frame rfl h.counts fun p hp => ?_
      obtain rfl := Child.running.inj hp
      exact StagesTrack.init _ _
  -- the stages: the thread's own counter and phase move, the other two stay
  | fast hp ha hst =>
      obtain ⟨hphase, hcount⟩ := CycleLog.tracks_step h.clock kPeriods_pos.1 (h.stages _ hp).fast
        h.counts.fast (fast_cycle hst)
      obtain ⟨hb, hc, ov, fd, r, la, rfl⟩ := fastStep_layout hst
      simp only [noteLate, hp]
      refine ⟨h.clock, ⟨hcount, h.counts.window, h.counts.snapshot⟩, fun q hq => ?_⟩
      obtain rfl := Child.running.inj hq
      exact ⟨hphase, (h.stages _ hp).window, (h.stages _ hp).snapshot⟩
  | window hp ha hst =>
      obtain ⟨hphase, hcount⟩ := CycleLog.tracks_step h.clock kPeriods_pos.2.1
        (h.stages _ hp).window h.counts.window (window_cycle hst)
      obtain ⟨hb, ov, wd, wi, rfl⟩ := windowStep_layout hst
      simp only [noteLate, hp]
      refine ⟨h.clock, ⟨h.counts.fast, hcount, h.counts.snapshot⟩, fun q hq => ?_⟩
      obtain rfl := Child.running.inj hq
      exact ⟨(h.stages _ hp).fast, hphase, (h.stages _ hp).snapshot⟩
  | snapshot hp ha hpc hst => exact h.snapshot hp hst
  | handOver hp ha hpc hst => exact (h.snapshot hp hst).others rfl rfl rfl rfl rfl
  | watchdog hp ha hst =>
      obtain ⟨f, rfl⟩ := watchdogStep_layout hst
      refine h.frame rfl (h.counts.of_eq rfl rfl rfl) fun q hq => ?_
      obtain rfl := Child.running.inj hq
      exact ⟨(h.stages _ hp).fast, (h.stages _ hp).window, (h.stages _ hp).snapshot⟩
  | computeMain hp hst =>
      obtain ⟨cd, rfl⟩ := computeMainStep_layout hst
      refine h.frame rfl (h.counts.of_eq rfl rfl rfl) fun q hq => ?_
      obtain rfl := Child.running.inj hq
      exact ⟨(h.stages _ hp).fast, (h.stages _ hp).window, (h.stages _ hp).snapshot⟩
  | noCompute hsup | computeExit hp hm | computeCrash hp hm | computeRefused hp hm
  | killCompute hp => exact h.noStages rfl rfl fun _ => by simp
  -- `reset_control` clears the counters and the log alike
  | rerun hsup => exact ⟨h.clock, ⟨rfl, rfl, rfl⟩, fun _ hp => by simp at hp⟩
  | store hst =>
      obtain ⟨hf, hw, hsn⟩ := supStep_overruns hst
      exact h.others rfl rfl hf hw hsn
  | source hp hm hst =>
      obtain ⟨n, rfl⟩ := Ingest.stepSource_layout hst
      exact h.others rfl rfl rfl rfl rfl
  | frames hp hm hst =>
      obtain ⟨r, rfl⟩ := Ingest.stepFrames_layout hst
      exact h.others rfl rfl rfl rfl rfl
  | ingestMain hp hst =>
      obtain ⟨n, rfl⟩ := Ingest.stepMain_layout hst
      exact h.others rfl rfl rfl rfl rfl
  | publish hp hw hst =>
      obtain ⟨hb, b, rfl⟩ := Publish.step_layout hst
      exact h.others rfl rfl rfl rfl rfl
  | _ => exact h.others rfl rfl rfl rfl rfl

/-- In every run on a steady clock the tally is right. -/
theorem tallied_reachable {x : Transition.Noted Pipeline LateLog} (h : ReachableLate x) :
    Tallied x.now x.past := by
  refine Transition.ReachableNoted.invariant (fun s hs => ?_)
    (fun x a s' _ hi hok hs => tallied_step hi hok hs) h
  obtain ⟨⟨replay, clock, rfl⟩, hclock⟩ := hs
  exact ⟨hclock, ⟨rfl, rfl, rfl⟩, fun p hp => by simp [start] at hp⟩

/-- **The overrun counters count the late cycles**, of every attempt since the counters were
cleared, as far as a 32-bit number can. -/
theorem overruns_exact {x : Transition.Noted Pipeline LateLog} (h : ReachableLate x) :
    x.now.layout.control.overrunFast.toNat = x.past.fast.late % 2 ^ 32
      ∧ x.now.layout.control.overrunWindow.toNat = x.past.window.late % 2 ^ 32
      ∧ x.now.layout.control.overrunSnapshot.toNat = x.past.snapshot.late % 2 ^ 32 := by
  obtain ⟨hf, hw, hs⟩ := (tallied_reachable h).counts
  rw [hf, hw, hs]
  exact ⟨rfl, rfl, rfl⟩

/-- The clock stays below 2^63. -/
def ticksSteady (_ : Transition.Noted Pipeline LateLog) (a : Act) : Bool :=
  match a with
  | .tick now => decide (now.toNat < 2 ^ 63)
  | _ => true

/-- The test of a label is the condition on it. -/
theorem ticksSteady_sound (x : Transition.Noted Pipeline LateLog) (a : Act)
    (h : ticksSteady x a = true) : steady x.now a := by
  rintro now rfl
  simpa [ticksSteady] using h

/-- A snapshot cycle that takes 0.3 s, and one that takes no time. -/
def lateSnapshot : List Act :=
  List.replicate 6 (Act.sup 7) ++ List.replicate 2 .computeMain ++ List.replicate 5 .snapshot
    ++ [.tick 300000001] ++ List.replicate 9 .snapshot

theorem overruns_exact_late_snapshot :
    ∃ x, ReachableLate x ∧ x.past.snapshot.late = 1
      ∧ x.now.layout.control.overrunSnapshot.toNat = 1 := by
  have h : (Transition.execWhen (Transition.notedStep step noteLate) ticksSteady
      ⟨start [] 1, {}⟩ lateSnapshot).any
      (fun x => decide (x.past.snapshot.late = 1)) = true := by
    decide +kernel
  obtain ⟨x, hrun, hx⟩ := Option.any_eq_true _ _ |>.mp h
  have hlate := of_decide_eq_true hx
  have hreach : ReachableLate x :=
    Transition.ReachableNoted.execWhen ticksSteady_sound ⟨⟨[], 1, rfl⟩, by decide⟩ hrun
  refine ⟨x, hreach, hlate, ?_⟩
  rw [(overruns_exact hreach).2.2, hlate]
  rfl

end Pipeline

end RateHub
