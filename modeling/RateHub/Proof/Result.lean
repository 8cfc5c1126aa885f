import RateHub.Proof.Delivery
import RateHub.Proof.IngestWakes
import RateHub.Proof.System

/-!
# A reported success has a result

`run_once_pipeline` returns 0 only for a compute attempt that exited 0, and that attempt has
joined a snapshot thread that handed one snapshot over. From the exchange on the
snapshot is in flight to publish, and `InFlight` follows it into the output file,
provided that publish does not leave its loop over a fresh snapshot and that no
snapshot is handed over behind its back.

Nothing in the code sees to either: publish leaves its loop on the shutdown flag
whatever the triple buffer holds, and on a `compute_done` that may be an earlier
attempt's.
-/

namespace RateHub

/-- The last compute attempt succeeded, as far as the supervisor knows. -/
def SupPc.won : SupPc → Bool
  | .storeComputeExit _ status => decide (status = 0)
  | .storeShutdown ok => ok
  | .waitIngest ok => ok
  | .storeIngestExit ok _ => ok
  | .waitPublish ok _ => ok
  | .storePublishExit ok _ _ => ok
  | .returned code => decide (code = 0)
  | _ => false

/-- Publish is past its loop, and will not report a failure of its own. -/
def Publish.pastLoop : Child Publish → Bool
  | .running p => p.pc.filing || decide (p.pc = .exit 0)
  | .ended status => decide (status = .exited 0)
  | _ => false

namespace Pipeline

/-- No fresh snapshot is in the triple buffer. -/
def noneFresh (s : Pipeline) : Bool :=
  decide (s.layout.snapshots.middle &&& TripleBuffer.kFresh = 0)

/-- The condition on a step: publish does not leave its loop over a fresh snapshot (on the
shutdown flag after a failed compute it may), and no snapshot is handed over after
publish left. One pipeline, so no rerun. -/
def delivers (s : Pipeline) : Act → Bool
  | .publish =>
      match s.publish with
      | .running p =>
          !p.leaving s.layout || s.noneFresh || (s.sup.stopping && !s.sup.won)
      | _ => true
  | .snapshot =>
      match s.compute with
      | .running p =>
          match p.snapshot.pc with
          | .publish .exchange => !Publish.pastLoop s.publish
          | _ => true
      | _ => true
  | .rerun => false
  | _ => true

/-- One pipeline, so no rerun. -/
def once (_ : Pipeline) (a : Act) : Bool := decide (a ≠ .rerun)

/-- The states of one pipeline's runs on a freshly constructed mapping. -/
def ReachableOnce : Pipeline → Prop :=
  Transition.Reachable step (fun s a => s.once a = true) Start

/-- The same, over the runs whose steps deliver. -/
def ReachableDelivering : Pipeline → Prop :=
  Transition.Reachable step (fun s a => s.delivers a = true) Start

/-! ## The invariant -/

/-- The call of `snapshots.publish()` in progress. -/
def pubCall (s : Pipeline) : TripleBuffer.PubPc :=
  match s.compute with
  | .running p => p.snapshot.pc.pubCall
  | _ => .idle

/-- The call of `snapshots.consume()` in progress. -/
def conCall (s : Pipeline) : TripleBuffer.ConsumePc :=
  match s.publish with
  | .running p => p.pc.conCall
  | _ => .idle

/-- A snapshot that was handed over is on its way, or publish will report a failure. -/
def Delivered (b : TripleBuffer Snapshot) (written : Option Snapshot) (snap : Snapshot) :
    Child Publish → Prop
  | .unborn => False
  | .failed => True
  | .running p => InFlight b written snap p
  | .ended status => status = .exited 0 → written = some snap

/-- Attempt `n` handed exactly one snapshot over, and it is on its way. -/
def HandedBy (s : Pipeline) (n : Nat) : Prop :=
  ∃ snap, s.handed.filter (fun e => decide (e.1 = n)) = [(n, snap)]
    ∧ Delivered s.layout.snapshots s.written snap s.publish

/-- What holds in every run whose steps deliver. -/
structure Result (s : Pipeline) : Prop where
  range : TripleBuffer.InRange s.layout.snapshots s.pubCall s.conCall
  /-- Hand-overs are numbered with the attempts made so far. -/
  bound : ∀ e ∈ s.handed, e.1 ≤ s.exits.length ∨ (e.1 = s.attempt ∧ s.sup.awaiting = true)
  /-- A running attempt, before its exchange and after it. -/
  before : ∀ p, s.compute = .running p → p.snapshot.pc.handed = false →
    FillOk s.layout.snapshots p.snapshot ∧ ∀ e ∈ s.handed, e.1 ≤ s.exits.length
  after : ∀ p, s.compute = .running p → p.snapshot.pc.handed = true → s.HandedBy s.attempt
  /-- An attempt that ended well. -/
  ended : s.compute = .ended (.exited 0) → s.sup.awaiting = true → s.HandedBy s.attempt
  /-- And its report. -/
  won : s.sup.won = true → s.exits.getLast? = some 0 ∧ s.HandedBy s.exits.length
  /-- The supervisor's record of publish. -/
  reaped : ∀ ok ist, s.sup = .storePublishExit ok ist 0 → s.publish = .ended (.exited 0)
  returned : s.sup = .returned 0 → s.publish = .ended (.exited 0)

theorem result_start (replay : List UInt8) (clock : UInt64) : Result (start replay clock) where
  range := TripleBuffer.inRange_init _
  bound := by intro e he; cases he
  before := by intro p hp; cases hp
  after := by intro p hp; cases hp
  ended := by intro hc; cases hc
  won := by intro hw; cases hw
  reaped := by intro ok ist hs; cases hs
  returned := by intro hs; cases hs

/-! ## Steps that do not touch the path -/

theorem HandedBy.frame {s s' : Pipeline} {n : Nat} (h : s.HandedBy n)
    (hhanded : s'.handed = s.handed)
    (hd : ∀ snap, Delivered s.layout.snapshots s.written snap s.publish →
      Delivered s'.layout.snapshots s'.written snap s'.publish) : s'.HandedBy n := by
  obtain ⟨snap, hf, hdel⟩ := h
  exact ⟨snap, by rw [hhanded]; exact hf, hd snap hdel⟩

/-- The supervisor moves, or a process that has no part in it. -/
theorem Result.moveSup {s s' : Pipeline} (h : Result s) (hcom : s'.compute = s.compute)
    (hpub : s'.publish = s.publish) (hhanded : s'.handed = s.handed)
    (hexits : s'.exits = s.exits) (hwritten : s'.written = s.written)
    (hbuf : s'.layout.snapshots = s.layout.snapshots)
    (hawait : s'.sup.awaiting = s.sup.awaiting) (hwon : s'.sup.won = true → s.sup.won = true)
    (hreaped : ∀ ok ist, s'.sup = .storePublishExit ok ist 0 → s.publish = .ended (.exited 0))
    (hret : s'.sup = .returned 0 → s.publish = .ended (.exited 0)) : Result s' := by
  have hattempt : s'.attempt = s.attempt := by rw [attempt, attempt, hexits]
  have hkeep : ∀ n, s.HandedBy n → s'.HandedBy n := by
    intro n hn
    refine hn.frame hhanded ?_
    intro snap hd
    rw [hbuf, hwritten, hpub]
    exact hd
  refine ⟨?_, ?_, ?_, ?_, ?_, ?_, ?_, ?_⟩
  · have hr := h.range
    unfold pubCall conCall at hr ⊢
    rw [hbuf, hcom, hpub]
    exact hr
  · rw [hhanded, hexits, hattempt, hawait]
    exact h.bound
  · rw [hcom, hbuf, hhanded, hexits]
    exact h.before
  · intro p hp hh
    rw [hattempt]
    exact hkeep _ (h.after p (hcom ▸ hp) hh)
  · intro hc ha
    rw [hattempt]
    exact hkeep _ (h.ended (hcom ▸ hc) (hawait ▸ ha))
  · intro hw
    have hold := h.won (hwon hw)
    rw [hexits]
    exact ⟨hold.1, hkeep _ hold.2⟩
  · rw [hpub]
    exact hreaped
  · rw [hpub]
    exact hret

/-- A compute thread other than the snapshot thread moves. -/
theorem Result.withCompute {s : Pipeline} (h : Result s) {p p' : Compute} {l' : Layout}
    (hp : s.compute = .running p) (hsnap : p'.snapshot = p.snapshot)
    (hbuf : l'.snapshots = s.layout.snapshots) : Result (s.withCompute (l', p')) := by
  have hkeep : ∀ n, s.HandedBy n → (s.withCompute (l', p')).HandedBy n := by
    intro n hn
    refine hn.frame rfl ?_
    intro snap hd
    show Delivered l'.snapshots s.written snap s.publish
    rw [hbuf]
    exact hd
  refine ⟨?_, h.bound, ?_, ?_, ?_, ?_, h.reaped, h.returned⟩
  · have hr := h.range
    rw [pubCall, hp] at hr
    show TripleBuffer.InRange l'.snapshots p'.snapshot.pc.pubCall s.conCall
    rw [hbuf, hsnap]
    exact hr
  · intro q hq hh
    obtain rfl := Child.running.inj hq
    show FillOk l'.snapshots p'.snapshot ∧ _
    rw [hbuf, hsnap]
    exact h.before p hp (hsnap ▸ hh)
  · intro q hq hh
    obtain rfl := Child.running.inj hq
    exact hkeep _ (h.after p hp (hsnap ▸ hh))
  · intro hc
    cases hc
  · intro hw
    exact ⟨(h.won hw).1, hkeep _ (h.won hw).2⟩

/-- A compute attempt ends; if it ends well, it had handed its snapshot over. -/
theorem Result.endCompute {s : Pipeline} (h : Result s) {p : Compute}
    (hp : s.compute = .running p) (status : WaitStatus)
    (hz : status = .exited 0 → p.snapshot.pc.handed = true) :
    Result { s with compute := .ended status } := by
  refine ⟨h.range.dropPub, h.bound, ?_, ?_, ?_, h.won, h.reaped, h.returned⟩
  · intro q hq
    cases hq
  · intro q hq
    cases hq
  · intro hc _
    exact h.after p hp (hz (Child.ended.inj hc))

/-! ## Steps on the path -/

/-- The snapshot thread, outside its exchange. -/
theorem Result.withSnapshot {s : Pipeline} (h : Result s) (hsk : Skeleton s) {p : Compute}
    {l' : Layout} {t' : SnapshotThread} (hp : s.compute = .running p)
    (hpc : p.snapshot.pc ≠ .publish .exchange)
    (hs : snapshotStep s.clock s.layout p.snapshot = some (l', t')) :
    Result (s.withCompute (l', { p with snapshot := t' })) := by
  obtain ⟨hhanded, hsame⟩ := snapshotStep_handed hpc hs
  have hawait := hsk.running p hp
  refine ⟨?_, h.bound, ?_, ?_, ?_, ?_, h.reaped, h.returned⟩
  · have hr := h.range
    rw [pubCall, hp] at hr
    exact snapshotStep_inRange hr hs
  · intro q hq hh
    obtain rfl := Child.running.inj hq
    have hbefore := h.before p hp (hhanded ▸ hh)
    exact ⟨snapshotStep_fillOk hbefore.1 hs, hbefore.2⟩
  · intro q hq hh
    obtain rfl := Child.running.inj hq
    have hh' : p.snapshot.pc.handed = true := hhanded ▸ hh
    obtain ⟨hm, hsl, hrd⟩ := hsame hh'
    refine (h.after p hp hh').frame rfl ?_
    intro snap hd
    show Delivered l'.snapshots s.written snap s.publish
    cases hpub : s.publish with
    | running q =>
        rw [hpub] at hd
        exact InFlight.frame hd hm hsl hrd
    | _ => rw [hpub] at hd; exact hd
  · intro hc
    cases hc
  · -- the supervisor has not heard of this attempt yet
    intro hw
    have hw' : s.sup.won = true := hw
    cases hsup : s.sup <;> simp [hsup, SupPc.awaiting, SupPc.won] at hawait hw'

/-- The exchange: from here on the snapshot is in flight. -/
theorem Result.handOver {s : Pipeline} (h : Result s) (hsk : Skeleton s) {p : Compute}
    {l' : Layout} {t' : SnapshotThread} (hp : s.compute = .running p)
    (hpc : p.snapshot.pc = .publish .exchange) (hg : Publish.pastLoop s.publish = false)
    (hs : snapshotStep s.clock s.layout p.snapshot = some (l', t')) :
    Result ((s.withCompute (l', { p with snapshot := t' })).hand p.snapshot.snap) := by
  have hawait := hsk.running p hp
  have hrange := h.range
  rw [pubCall, hp] at hrange
  have hr' := snapshotStep_inRange hrange hs
  obtain ⟨hfill, hearlier⟩ := h.before p hp (by rw [hpc]; rfl)
  simp only [FillOk, hpc] at hfill
  obtain ⟨hfresh, hindex⟩ := hrange.exchanged
  simp only [snapshotStep, hpc, TripleBuffer.publishStep, Option.some.injEq, Prod.mk.injEq] at hs
  obtain ⟨rfl, rfl⟩ := hs
  refine ⟨hr', ?_, ?_, ?_, ?_, ?_, h.reaped, h.returned⟩
  · intro e he
    rcases List.mem_append.mp he with he' | he'
    · exact h.bound e he'
    · obtain rfl := List.mem_singleton.mp he'
      exact Or.inr ⟨rfl, hawait⟩
  · intro q hq hh
    obtain rfl := Child.running.inj hq
    cases hh
  · intro q hq hh
    refine ⟨p.snapshot.snap, ?_, ?_⟩
    · -- no earlier hand-over bears this attempt's number
      show (s.handed ++ [(s.attempt, p.snapshot.snap)]).filter _ = _
      rw [List.filter_append, List.filter_eq_nil_iff.mpr]
      · simp [attempt, Pipeline.hand, Pipeline.withCompute]
      · intro e he
        have hle := hearlier e he
        show ¬ decide (e.1 = s.exits.length + 1) = true
        simp only [decide_eq_true_eq]
        omega
    · show Delivered _ s.written p.snapshot.snap s.publish
      cases hpub : s.publish with
      | unborn =>
          have hb := hsk.publish.mp hpub
          cases hsup : s.sup <;> simp [hsup, SupPc.awaiting, SupPc.beforePublish] at hawait hb
      | failed => trivial
      | ended status =>
          intro hz
          simp [hpub, Publish.pastLoop, hz] at hg
      | running q =>
          simp only [hpub, Publish.pastLoop, Bool.or_eq_false_iff, decide_eq_false_iff_not] at hg
          by_cases hloop : q.pc.inLoop = true
          · refine .waiting hfresh ?_ hloop
            show s.layout.snapshots.slots ((s.layout.snapshots.write.toUInt32
              ||| TripleBuffer.kFresh) &&& TripleBuffer.kIndexMask).toUInt64 = p.snapshot.snap
            rw [hindex]
            exact hfill
          · -- past its loop, and not about to report success
            refine .lost ?_
            cases hq : q.pc with
            | openFile => simp [hq, PublishPc.filing] at hg
            | write => simp [hq, PublishPc.filing] at hg
            | exit c =>
                refine ⟨c, ?_, rfl⟩
                rintro rfl
                exact absurd hq hg.2
            | _ => simp [hq, PublishPc.inLoop] at hloop
  · intro hc
    cases hc
  · intro hw
    have hw' : s.sup.won = true := hw
    cases hsup : s.sup <;> simp [hsup, SupPc.awaiting, SupPc.won] at hawait hw'

/-- A step of publish: all it has to show is that what was delivered stays so. -/
theorem Result.publishMove {s s' : Pipeline} (h : Result s) (hsk : Skeleton s) {p : Publish}
    (hp : s.publish = .running p) (hsup : s'.sup = s.sup) (hcom : s'.compute = s.compute)
    (hhanded : s'.handed = s.handed) (hexits : s'.exits = s.exits)
    (hslots : s'.layout.snapshots.slots = s.layout.snapshots.slots)
    (hwrite : s'.layout.snapshots.write = s.layout.snapshots.write)
    (hrange : TripleBuffer.InRange s'.layout.snapshots s'.pubCall s'.conCall)
    (hd : (s.sup.stopping = true → s.sup.won = true) → ∀ snap,
      Delivered s.layout.snapshots s.written snap s.publish →
      Delivered s'.layout.snapshots s'.written snap s'.publish) : Result s' := by
  have hattempt : s'.attempt = s.attempt := by rw [attempt, attempt, hexits]
  have hkeep : (s.sup.stopping = true → s.sup.won = true) →
      ∀ n, s.HandedBy n → s'.HandedBy n := by
    intro hobl n hn
    exact hn.frame hhanded (hd hobl)
  -- while compute is awaited the flag is clear, so nothing has been given up
  have hgoing : s.sup.awaiting = true → s.sup.stopping = true → s.sup.won = true := by
    intro ha hst
    cases hs : s.sup <;> simp [hs, SupPc.awaiting, SupPc.stopping] at ha hst
  refine ⟨hrange, ?_, ?_, ?_, ?_, ?_, ?_, ?_⟩
  · rw [hhanded, hexits, hattempt, hsup]
    exact h.bound
  · intro q hq hh
    rw [hhanded, hexits]
    obtain ⟨hfill, hearlier⟩ := h.before q (hcom ▸ hq) hh
    refine ⟨?_, hearlier⟩
    unfold FillOk at hfill ⊢
    rw [hslots, hwrite]
    exact hfill
  · intro q hq hh
    rw [hattempt]
    exact hkeep (hgoing (hsk.running q (hcom ▸ hq))) _ (h.after q (hcom ▸ hq) hh)
  · intro hc ha
    rw [hattempt]
    rw [hsup] at ha
    exact hkeep (hgoing ha) _ (h.ended (hcom ▸ hc) ha)
  · intro hw
    rw [hsup] at hw
    rw [hexits]
    exact ⟨(h.won hw).1, hkeep (fun _ => hw) _ (h.won hw).2⟩
  · intro ok ist hs
    have hend := h.reaped ok ist (hsup ▸ hs)
    rw [hp] at hend
    cases hend
  · intro hs
    have hend := h.returned (hsup ▸ hs)
    rw [hp] at hend
    cases hend

/-- Publish, inside its loop. -/
theorem Result.withPublish {s : Pipeline} (h : Result s) (hsk : Skeleton s) {p p' : Publish}
    {l' : Layout} (hp : s.publish = .running p) (hw : p.pc.filing = false)
    (hg : s.delivers .publish = true) (hs : p.step s.layout = some (l', p')) :
    Result (s.withPublish (l', p')) := by
  have hrange := h.range
  rw [conCall, hp] at hrange
  obtain ⟨hslots, hwrite⟩ := Publish.step_slots hs
  refine h.publishMove hsk hp rfl rfl rfl rfl hslots hwrite (Publish.step_inRange hrange hs) ?_
  intro hobl snap hd
  rw [hp] at hd
  refine InFlight.step hd hrange ?_ hw hs
  intro hl
  simp only [delivers, hp, hl, Bool.not_true, Bool.false_or, Bool.or_eq_true, Bool.and_eq_true,
    Bool.not_eq_true', noneFresh, decide_eq_true_eq] at hg
  rcases hg with hclear | ⟨hstop, hlost⟩
  · exact hclear
  · -- leaving on the flag after a failed compute owes nothing
    rw [hobl hstop] at hlost
    cases hlost

/-- A store of the supervisor. -/
theorem Result.store {s : Pipeline} (h : Result s) {l' : Layout} {pc' : SupPc}
    (hs : supStep s.layout s.sup = some (l', pc')) :
    Result { s with layout := l', sup := pc' } := by
  have hstored := supStep_stored hs
  obtain ⟨sh, g, sv, rfl⟩ := hstored.layout
  refine h.moveSup rfl rfl rfl rfl rfl rfl hstored.awaiting ?_ ?_ ?_
  · -- a success comes from the status stored after the wait, and is carried to the return
    intro hw
    have hw' : pc'.won = true := hw
    cases hsup : s.sup with
    | storeComputeExit n status =>
        simp only [hsup, supStep, Option.some.injEq, Prod.mk.injEq] at hs
        obtain ⟨_, rfl⟩ := hs
        unfold SupPc.afterCompute at hw'
        split at hw'
        · rename_i hz
          simp [SupPc.won, hz]
        · split at hw' <;> cases hw'
    | storePublishExit ok ist pst =>
        simp only [hsup, supStep, Option.some.injEq, Prod.mk.injEq] at hs
        obtain ⟨_, rfl⟩ := hs
        simp only [SupPc.won, pipelineResult] at hw' ⊢
        split at hw'
        · exact absurd hw' (by decide)
        · rename_i hok
          simp only [not_or, Bool.not_eq_false] at hok
          exact hok.1
    | _ =>
        simp only [hsup, supStep, Option.some.injEq, Prod.mk.injEq, reduceCtorEq] at hs
        all_goals
          obtain ⟨_, rfl⟩ := hs
          exact hw'
  · intro ok ist hpc
    have hpc' : pc' = .storePublishExit ok ist 0 := hpc
    rw [hpc'] at hs
    exact absurd hs supStep_ne_storePublishExit
  · -- a return of 0 has looked at publish's status
    intro hpc
    have hpc' : pc' = .returned 0 := hpc
    rw [hpc'] at hs
    obtain ⟨ok, ist, st, hsup, hcode⟩ := supStep_returned hs
    unfold pipelineResult at hcode
    split at hcode
    · exact absurd hcode (by decide)
    · rename_i hok
      simp only [not_or, not_not] at hok
      exact h.reaped ok ist (by rw [hsup, hok.2.2])

/-- The wait for compute returns: the attempt gets its number for good. -/
theorem Result.reapCompute {s : Pipeline} (h : Result s) {n : Nat} {status : UInt32}
    (hsup : s.sup = .waitCompute n) (hw : s.compute.wait = some status) :
    Result { s with sup := .storeComputeExit n status, exits := s.exits ++ [status] } := by
  have hnot : ∀ p, s.compute ≠ .running p := by
    intro p hp
    rw [hp] at hw
    cases hw
  refine ⟨h.range, ?_, fun p hp => absurd hp (hnot p), fun p hp => absurd hp (hnot p), ?_, ?_, ?_,
    ?_⟩
  · -- what this attempt handed over now belongs to the attempts made
    intro e he
    refine Or.inl ?_
    simp only [List.length_append, List.length_singleton]
    rcases h.bound e he with hle | ⟨heq, _⟩
    · omega
    · simp only [heq, attempt]
      omega
  · intro _ ha
    cases ha
  · intro hwon
    simp only [SupPc.won, decide_eq_true_eq] at hwon
    subst hwon
    refine ⟨by simp, ?_⟩
    have hold := h.ended (Child.wait_zero hw) (by rw [hsup]; rfl)
    have hlen : (s.exits ++ [(0 : UInt32)]).length = s.attempt := by simp [attempt]
    show HandedBy _ (s.exits ++ [(0 : UInt32)]).length
    rw [hlen]
    exact hold
  · intro ok ist hs
    cases hs
  · intro hs
    cases hs

/-- A publish process starts, or fails to: nothing is owed yet. -/
theorem Result.spawnPublish {s s' : Pipeline} (h : Result s) (hsk : Skeleton s)
    (hsup : s.sup = .spawnPublish) {pid : Option UInt32} (hs' : s'.sup = .storePublishPid pid)
    (hcom : s'.compute = s.compute) (hhanded : s'.handed = s.handed)
    (hexits : s'.exits = s.exits) (hbuf : s'.layout.snapshots = s.layout.snapshots)
    (hcon : s'.conCall = .idle) : Result s' := by
  have hnot := hsk.not_running (by rw [hsup]; rfl)
  refine ⟨?_, ?_, ?_, ?_, ?_, ?_, ?_, ?_⟩
  · have hr := h.range.dropCon
    unfold pubCall at hr ⊢
    rw [hcon, hbuf, hcom]
    exact hr
  · intro e he
    rcases h.bound e (hhanded ▸ he) with hle | ⟨_, ha⟩
    · rw [hexits]
      exact Or.inl hle
    · rw [hsup] at ha
      cases ha
  · intro p hp
    exact absurd (hcom ▸ hp) (hnot p)
  · intro p hp
    exact absurd (hcom ▸ hp) (hnot p)
  · intro _ ha
    rw [hs'] at ha
    cases ha
  · intro hw
    rw [hs'] at hw
    cases hw
  · intro ok ist he
    rw [hs'] at he
    cases he
  · intro he
    rw [hs'] at he
    cases he

/-- A compute attempt starts, or fails to. -/
theorem Result.spawnCompute {s s' : Pipeline} (h : Result s) {n : Nat}
    (hsup : s.sup = .spawnCompute n) {pid : Option UInt32}
    (hs' : s'.sup = .storeComputePid n pid)
    (hcom : s'.compute = .running Compute.init ∨ s'.compute = .failed)
    (hpub : s'.publish = s.publish) (hhanded : s'.handed = s.handed)
    (hexits : s'.exits = s.exits) (hbuf : s'.layout.snapshots = s.layout.snapshots) :
    Result s' := by
  -- nothing has been handed over under the new attempt's number
  have hearlier : ∀ e ∈ s'.handed, e.1 ≤ s'.exits.length := by
    intro e he
    rw [hexits]
    rcases h.bound e (hhanded ▸ he) with hle | ⟨_, ha⟩
    · exact hle
    · rw [hsup] at ha
      cases ha
  have hinit : ∀ p, s'.compute = .running p → p = Compute.init := by
    intro p hp
    rcases hcom with hc | hc
    · rw [hc] at hp
      exact (Child.running.inj hp).symm
    · rw [hc] at hp
      cases hp
  refine ⟨?_, fun e he => Or.inl (hearlier e he), ?_, ?_, ?_, ?_, ?_, ?_⟩
  · have hr := h.range.dropPub
    have hidle : s'.pubCall = .idle := by
      unfold pubCall
      rcases hcom with hc | hc
      · rw [hc]
        rfl
      · rw [hc]
    unfold conCall at hr ⊢
    rw [hidle, hbuf, hpub]
    exact hr
  · intro p hp _
    obtain rfl := hinit p hp
    exact ⟨trivial, hearlier⟩
  · intro p hp hh
    obtain rfl := hinit p hp
    cases hh
  · intro hc _
    rcases hcom with hc' | hc' <;> rw [hc'] at hc <;> cases hc
  · intro hw
    rw [hs'] at hw
    cases hw
  · intro ok ist he
    rw [hs'] at he
    cases he
  · intro he
    rw [hs'] at he
    cases he

/-- **The invariant holds in every run whose steps deliver.** -/
theorem result_step {s s' : Pipeline} {a : Act} (h : Result s) (hsound : Sound s)
    (hg : s.delivers a = true) (hs : s.step a = some s') : Result s' := by
  have hsk := hsound.skeleton
  cases move_of_step hs with
  | tick _ => exact h.moveSup rfl rfl rfl rfl rfl rfl rfl id h.reaped h.returned
  | spawnIngest hsup =>
      exact h.moveSup rfl rfl rfl rfl rfl rfl (by rw [hsup]; rfl) (by simp [SupPc.won]) (by simp)
        (by simp)
  | noIngest hsup =>
      exact h.moveSup rfl rfl rfl rfl rfl rfl (by rw [hsup]; rfl) (by simp [SupPc.won]) (by simp)
        (by simp)
  | spawnPublish hsup => exact h.spawnPublish hsk hsup rfl rfl rfl rfl rfl rfl
  | noPublish hsup => exact h.spawnPublish hsk hsup rfl rfl rfl rfl rfl rfl
  | spawnCompute hsup => exact h.spawnCompute hsup rfl (Or.inl rfl) rfl rfl rfl rfl
  | noCompute hsup => exact h.spawnCompute hsup rfl (Or.inr rfl) rfl rfl rfl rfl
  | reapCompute hsup hw => exact h.reapCompute hsup hw
  | reapIngest hsup hw =>
      exact h.moveSup rfl rfl rfl rfl rfl rfl (by rw [hsup]; rfl) (by rw [hsup]; exact id)
        (by simp) (by simp)
  | reapPublish hsup hw =>
      refine h.moveSup rfl rfl rfl rfl rfl rfl (by rw [hsup]; rfl) (by rw [hsup]; exact id) ?_
        (by simp)
      intro ok ist hpc
      have hz := (SupPc.storePublishExit.inj hpc).2.2
      rw [hz] at hw
      exact Child.wait_zero hw
  | store hst => exact h.store hst
  | rerun hsup => cases hg
  | source hp hm hst =>
      obtain ⟨n, rfl⟩ := Ingest.stepSource_layout hst
      exact h.moveSup rfl rfl rfl rfl rfl rfl rfl id h.reaped h.returned
  | frames hp hm hst =>
      obtain ⟨r, rfl⟩ := Ingest.stepFrames_layout hst
      exact h.moveSup rfl rfl rfl rfl rfl rfl rfl id h.reaped h.returned
  | ingestAttach hp hm => exact h.moveSup rfl rfl rfl rfl rfl rfl rfl id h.reaped h.returned
  | ingestMain hp hst =>
      obtain ⟨n, rfl⟩ := Ingest.stepMain_layout hst
      exact h.moveSup rfl rfl rfl rfl rfl rfl rfl id h.reaped h.returned
  | ingestExit hp hm => exact h.moveSup rfl rfl rfl rfl rfl rfl rfl id h.reaped h.returned
  | ingestRefused hp hm => exact h.moveSup rfl rfl rfl rfl rfl rfl rfl id h.reaped h.returned
  | killIngest hp => exact h.moveSup rfl rfl rfl rfl rfl rfl rfl id h.reaped h.returned
  | fast hp ha hst =>
      obtain ⟨hb, hc, ov, fd, r, la, rfl⟩ := fastStep_layout hst
      exact h.withCompute hp rfl rfl
  | window hp ha hst =>
      obtain ⟨hb, ov, wd, wi, rfl⟩ := windowStep_layout hst
      exact h.withCompute hp rfl rfl
  | snapshot hp ha hpc hst => exact h.withSnapshot hsk hp hpc hst
  | handOver hp ha hpc hst =>
      refine h.handOver hsk hp hpc ?_ hst
      simpa [delivers, hp, hpc] using hg
  | watchdog hp ha hst =>
      obtain ⟨f, rfl⟩ := watchdogStep_layout hst
      exact h.withCompute hp rfl rfl
  | computeMain hp hst =>
      obtain ⟨cd, rfl⟩ := computeMainStep_layout hst
      exact h.withCompute hp rfl rfl
  | computeExit hp hm =>
      -- past its joins, compute has no snapshot thread left before the exchange
      have hd := (hsound.stages _ hp).joinedSnapshot (by rw [hm]; exact Nat.le_add_left 3 1)
      exact h.endCompute hp _ (fun _ => SnapshotPc.handed_of_isDone hd)
  | computeCrash hp hm => exact h.endCompute hp _ (by simp)
  | computeRefused hp hm => exact h.endCompute hp _ (by simp)
  | killCompute hp => exact h.endCompute hp _ (by simp)
  | publish hp hw hst => exact h.withPublish hsk hp hw hg hst
  | publishOpen hp hc =>
      refine h.publishMove hsk hp rfl rfl rfl rfl rfl rfl h.range.dropCon ?_
      intro _ snap hd
      rw [hp] at hd
      exact InFlight.openFile hd hc
  | publishWrite hp hw =>
      refine h.publishMove hsk hp rfl rfl rfl rfl rfl rfl h.range.dropCon ?_
      intro _ snap hd
      rw [hp] at hd
      exact InFlight.write hd hw
  | publishExit hp hc =>
      refine h.publishMove hsk hp rfl rfl rfl rfl rfl rfl h.range.dropCon ?_
      intro _ snap hd hz
      rw [hp] at hd
      rw [WaitStatus.exited.inj hz] at hc
      exact InFlight.exit hd hc
  | publishRefused hp hc =>
      refine h.publishMove hsk hp rfl rfl rfl rfl rfl rfl h.range.dropCon ?_
      intro _ snap _ hz
      exact absurd hz (by simp)
  | openFails hp hc =>
      refine h.publishMove hsk hp rfl rfl rfl rfl rfl rfl h.range.dropCon ?_
      intro _ snap _
      exact .lost ⟨1, by decide, rfl⟩
  | killPublish hp =>
      refine h.publishMove hsk hp rfl rfl rfl rfl rfl rfl h.range.dropCon ?_
      intro _ snap _ hz
      exact absurd hz (by simp)

theorem result_reachable {s : Pipeline} (h : ReachableDelivering s) : Result s := by
  have hboth : Sound s ∧ Result s := by
    refine Transition.Reachable.invariant (I := fun s => Sound s ∧ Result s) ?_ ?_ h
    · rintro _ ⟨replay, clock, rfl⟩
      exact ⟨sound_start replay clock, result_start replay clock⟩
    · intro s a s' hi hg hs
      exact ⟨sound_step hi.1 hs, result_step hi.2 hi.1 hg hs⟩
  exact hboth.2

/-- What this run's publish wrote out is what is in the file. -/
theorem outFile_written {ok : Pipeline → Act → Prop} {s : Pipeline}
    (h : Transition.Reachable step ok Start s) {snap : Snapshot} (hw : s.written = some snap) :
    s.outFile = some snap.render := by
  have hinv : ∀ snap, s.written = some snap → s.outFile = some snap.render := by
    refine Transition.Reachable.invariant
      (I := fun s => ∀ snap, s.written = some snap → s.outFile = some snap.render) ?_ ?_ h
    · rintro _ ⟨replay, clock, rfl⟩ snap hw
      cases hw
    · intro s a s' hi _ hs
      cases move_of_step hs with
      -- what was written goes with what was in the file
      | publishOpen hp hc =>
          intro snap hw
          cases hw
      | publishWrite hp hc =>
          intro snap hw
          cases hw
          rfl
      | rerun hsup =>
          intro snap hw
          cases hw
      | _ => exact hi
  exact hinv snap hw

/--
**A reported success has a result, in every run that delivers.**

For every replay file and every interleaving of the supervisor with ingest, compute and
publish on a fresh mapping, with spawns failing and children refused, crashed or killed at
any point: if publish never leaves its loop over a fresh snapshot and no snapshot is
handed over after it left, then a `run_once_pipeline` that returns 0 had a last attempt with
status 0, that attempt handed over exactly one snapshot, and that snapshot, generation
and all rows, is the one in the output file.
-/
theorem success_has_result {s : Pipeline} (h : ReachableDelivering s)
    (hr : s.sup = .returned 0) :
    s.exits.getLast? = some 0
      ∧ ∃ snap, s.handed.filter (fun e => decide (e.1 = s.exits.length)) = [(s.exits.length, snap)]
        ∧ s.written = some snap ∧ s.outFile = some snap.render := by
  have hi := result_reachable h
  obtain ⟨hlast, snap, hfilter, hdel⟩ := hi.won (by rw [hr]; rfl)
  rw [hi.returned hr] at hdel
  have hw : s.written = some snap := hdel rfl
  exact ⟨hlast, snap, hfilter, hw, outFile_written h hw⟩

/-- Two records of one source, one process after the other. -/
def inTurn : List Act :=
  List.flatten
    [List.replicate 6 (.sup 7), [.ingestMain], List.replicate 10 .source, List.replicate 13 .frames,
      List.replicate 4 .ingestMain, List.replicate 2 .computeMain, List.replicate 43 .fast,
      List.replicate 457 .window, List.replicate 328 .snapshot, [.watchdog],
      List.replicate 7 .computeMain, List.replicate 75 .publish, List.replicate 7 (.sup 7)]

theorem success_has_result_two_records :
    ∃ s, ReachableDelivering s ∧ s.replay = IngestRun.copies 2 ∧ s.sup = .returned 0
      ∧ ∃ snap, s.handed.filter (fun e => decide (e.1 = s.exits.length)) = [(s.exits.length, snap)]
        ∧ s.written = some snap ∧ s.outFile = some snap.render
        ∧ snap.render = "generation 1\n1 1020 0 2\n" := by
  have h : (Transition.execWhen step delivers (start (IngestRun.copies 2) 1) inTurn).any
      (fun s => decide (s.replay = IngestRun.copies 2) && decide (s.sup = .returned 0)
        && decide (s.outFile = some "generation 1\n1 1020 0 2\n")) = true := by
    decide +kernel
  obtain ⟨s, hrun, hs⟩ := Option.any_eq_true _ _ |>.mp h
  simp only [Bool.and_eq_true, decide_eq_true_eq] at hs
  obtain ⟨⟨hre, hret⟩, htext⟩ := hs
  have hr : ReachableDelivering s :=
    Transition.Reachable.execWhen (g := delivers) (fun _ _ hg => hg) _ (.init ⟨_, _, rfl⟩) hrun
  obtain ⟨_, snap, hfilter, hw, hf⟩ := success_has_result hr hret
  exact ⟨s, hr, hre, hret, snap, hfilter, hw, hf, Option.some.inj (hf.symm.trans htext)⟩

/-- The supervisor starts the three children, ingest finds an empty replay file and ends, and
compute runs through its stages and ends. Publish has not moved. -/
def computeEnds : List Act :=
  List.replicate 6 (Act.sup 7) ++ [Act.ingestMain, .source, .source, .frames]
    ++ List.replicate 4 Act.ingestMain ++ List.replicate 2 Act.computeMain
    ++ List.replicate 9 Act.fast ++ List.replicate 452 Act.window
    ++ List.replicate 328 Act.snapshot ++ [Act.watchdog] ++ List.replicate 7 Act.computeMain

/-- The supervisor sets the flag first: publish looks at it before it has looked at the
triple buffer, ends well, and the pipeline reports a success without a file. -/
theorem success_without_file :
    ∃ s, ReachableOnce s ∧ s.sup = .returned 0 ∧ s.outFile = none := by
  have h : (Transition.execWhen step once (start [] 1)
      (computeEnds ++ List.replicate 3 (Act.sup 7) ++ List.replicate 3 Act.publish
        ++ List.replicate 4 (Act.sup 7))).any
      (fun s => decide (s.sup = .returned 0) && decide (s.outFile = none)) = true := by
    decide +kernel
  obtain ⟨s, hrun, hs⟩ := Option.any_eq_true _ _ |>.mp h
  simp only [Bool.and_eq_true, decide_eq_true_eq] at hs
  have hr : ReachableOnce s :=
    Transition.Reachable.execWhen (g := once) (fun _ _ hg => hg) _ (.init ⟨_, _, rfl⟩) hrun
  exact ⟨s, hr, hs.1, hs.2⟩

end Pipeline

end RateHub
