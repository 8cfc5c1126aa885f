import Mathlib.Data.List.Range
import RateHub.Lib.History
import RateHub.Lib.Tally
import RateHub.Proof.FleetRows
import RateHub.Proof.IngestMoves

/-!
# The heartbeats

Ingest and publish each keep one counter for the process, and store it to their heartbeat
word after each increment. Compute has no such counter: what its fast thread stores to
`heartbeat_compute` is the number of publishes of one source, the one it has just
published. So the word repeats itself or goes back as soon as a second source comes in.

The history variable holds what was stored to the three words since the pipeline
started. A reader that samples a word sees values of this list, in its order.
-/

namespace RateHub

open Tally

/-- What was stored to the heartbeat words in this pipeline. -/
structure BeatLog where
  ingest : List UInt64 := []
  compute : List UInt64 := []
  publish : List UInt64 := []
  /-- The records the fast thread has passed to `integrate`. -/
  records : List Record := []
  /-- The compute attempts so far. -/
  attempts : Nat := 0

/-- None of the three words goes back, and no store to `heartbeat_compute` repeats the one
before. -/
structure BeatLog.Forward (g : BeatLog) : Prop where
  ingest : g.ingest.IsChain (· ≤ ·)
  compute : g.compute.IsChain (· ≤ ·)
  publish : g.publish.IsChain (· ≤ ·)
  differs : g.compute.IsChain (· ≠ ·)

/-- The records behind the stores to `heartbeat_compute`: of those that `integrate` took,
one for each store. -/
def BeatLog.published (g : BeatLog) : List Record :=
  (FleetRun.accepted kFastPeriodNs .init g.records).take g.compute.length

/-- They are all of one source. -/
def BeatLog.OneSource (g : BeatLog) : Prop :=
  ∀ r ∈ g.published, ∀ r' ∈ g.published, r.sourceId = r'.sourceId

/-- The store to `heartbeat_compute` comes next. -/
def FastPc.beats : FastPc → Bool
  | .heartbeat _ => true
  | _ => false

/-- A compute attempt comes next. -/
def SupPc.attempts : SupPc → Bool
  | .spawnCompute _ => true
  | _ => false

/-- A step of the supervisor at `pc`. -/
def BeatLog.supervised (g : BeatLog) (pc : SupPc) : BeatLog :=
  if pc.attempts then { g with attempts := g.attempts + 1 } else g

/-- A step of the source thread, to `l'`. -/
def BeatLog.sourced (g : BeatLog) (c : Child Ingest) (l' : Layout) : BeatLog :=
  match c with
  | .running p =>
      if p.source.pc = .beat then { g with ingest := g.ingest ++ [l'.control.heartbeatIngest] } else g
  | _ => g

/-- A step of the fast thread, to `l'` and `c'`. -/
def BeatLog.computed (g : BeatLog) (c : Child Compute) (l' : Layout) (c' : Child Compute) : BeatLog :=
  match c, c' with
  | .running p, .running p' =>
      { g with
        compute := g.compute ++ (if p.fast.pc.beats then [l'.control.heartbeatCompute] else [])
        records := p'.fast.integrated }
  | _, _ => g

/-- A step of publish, to `l'`. -/
def BeatLog.publishes (g : BeatLog) (c : Child Publish) (l' : Layout) : BeatLog :=
  match c with
  | .running p =>
      if p.pc = .beat then { g with publish := g.publish ++ [l'.control.heartbeatPublish] } else g
  | _ => g

/-- How a step of the system changes the log. -/
def noteBeats (g : BeatLog) (s : Pipeline) (a : Act) (s' : Pipeline) : BeatLog :=
  match a with
  | .rerun => {}
  | .sup _ => g.supervised s.sup
  | .spawnFails => g.supervised s.sup
  | .source => g.sourced s.ingest s'.layout
  | .fast => g.computed s.compute s'.layout s'.compute
  | .publish => g.publishes s.publish s'.layout
  | _ => g

section

variable {g : BeatLog} {s s' : Pipeline}

theorem noteBeats_sup {pid : UInt32} : noteBeats g s (.sup pid) s' = g.supervised s.sup := rfl

theorem noteBeats_spawnFails : noteBeats g s .spawnFails s' = g.supervised s.sup := rfl

theorem noteBeats_source : noteBeats g s .source s' = g.sourced s.ingest s'.layout := rfl

theorem noteBeats_fast : noteBeats g s .fast s' = g.computed s.compute s'.layout s'.compute := rfl

theorem noteBeats_publish : noteBeats g s .publish s' = g.publishes s.publish s'.layout := rfl

end

/-- Every run, with what was stored. -/
def Pipeline.ReachableBeats : Transition.Noted Pipeline BeatLog → Prop :=
  Transition.ReachableNoted Pipeline.step noteBeats (fun _ _ => True) Pipeline.Start {}

/-! ## The counters of the processes -/

/-- The numbers 1 to `n`, as a counter of 64 bits shows them. -/
def counted (n : Nat) : List UInt64 := (List.range n).map fun k => UInt64.ofNat (k + 1)

theorem counted_succ (n : Nat) : counted (n + 1) = counted n ++ [UInt64.ofNat n + 1] := by
  simp [counted, List.range_succ, UInt64.ofNat_add]

/-- A counter and the list of its values, one step on. -/
theorem counted_next {log : List UInt64} {beats : UInt64} (hlog : log = counted log.length)
    (hbeats : beats = UInt64.ofNat log.length) :
    log ++ [beats + 1] = counted (log ++ [beats + 1]).length
      ∧ beats + 1 = UInt64.ofNat (log ++ [beats + 1]).length := by
  rw [List.length_append, List.length_singleton, counted_succ, ← hlog, hbeats, UInt64.ofNat_add]
  exact ⟨rfl, rfl⟩

/-- Such a counter goes back when it overflows, and never else. -/
theorem isChain_counted {n : Nat} : (counted n).IsChain (· ≤ ·) ↔ n < 2 ^ 64 := by
  unfold counted
  rw [List.isChain_map, List.isChain_range]
  constructor
  · intro h
    by_contra hn
    have hle := UInt64.le_iff_toNat_le.mp (h (2 ^ 64 - 2) (by omega))
    simp at hle
  · intro hn m hm
    rw [UInt64.le_iff_toNat_le, UInt64.toNat_ofNat', UInt64.toNat_ofNat', Nat.mod_eq_of_lt (by omega),
      Nat.mod_eq_of_lt (by omega)]
    omega

/-! ## The counters of the sources -/

theorem FleetRun.accepted_snoc (dtNs : Int64) (t : FleetRun) (records : List Record) (r : Record) :
    FleetRun.accepted dtNs t (records ++ [r]) = FleetRun.accepted dtNs t records
      ++ if (integrate (records.foldl (FleetRun.absorb dtNs) t).fleet r dtNs).1 = .ok then [r]
        else [] := by
  induction records generalizing t with
  | nil =>
      simp only [List.nil_append, FleetRun.accepted, List.foldl_nil]
      rfl
  | cons r' records ih =>
      simp only [List.cons_append, FleetRun.accepted, List.foldl_cons, ih]
      split <;> rfl

theorem FleetRun.absorb_publishes (dtNs : Int64) (t : FleetRun) (r : Record) :
    (t.absorb dtNs r).publishes = if (integrate t.fleet r dtNs).1 = .ok then
      Function.update t.publishes (sourceIndex r.sourceId) (t.publishes (sourceIndex r.sourceId) + 1)
      else t.publishes := by
  unfold FleetRun.absorb
  cases integrate t.fleet r dtNs with
  | mk status fleet => cases status <;> rfl

/-- What `integrate` takes has a source in range. -/
theorem FleetRun.sourceId_of_accepted {dtNs : Int64} {t : FleetRun} {records : List Record}
    {r : Record} (h : r ∈ FleetRun.accepted dtNs t records) : r.sourceId.toNat < kMaxSources := by
  induction records generalizing t with
  | nil => cases h
  | cons r' records ih =>
      simp only [FleetRun.accepted] at h
      split at h
      · rename_i hok
        rcases List.mem_cons.mp h with rfl | h
        · by_contra hge
          exact (t.absorb_badSource r (not_lt.mp hge)).1 hok
        · exact ih h
      · exact ih h

/-- The sources of the records that `integrate` takes, in order. -/
def sourcesOf (records : List Record) : List (Fin kMaxSources) :=
  (FleetRun.accepted kFastPeriodNs .init records).map fun r => sourceIndex r.sourceId

theorem sourcesOf_snoc (records : List Record) (r : Record) :
    sourcesOf (records ++ [r]) = sourcesOf records
      ++ if (integrate (records.foldl (FleetRun.absorb kFastPeriodNs) .init).fleet r
          kFastPeriodNs).1 = .ok then [sourceIndex r.sourceId] else [] := by
  simp only [sourcesOf, FleetRun.accepted_snoc, List.map_append]
  split <;> rfl

/-- The counter of a source is the number of its records that `integrate` took. -/
theorem publishes_eq_count (records : List Record) (id : Fin kMaxSources) :
    (records.foldl (FleetRun.absorb kFastPeriodNs) .init).publishes id
      = UInt32.ofNat ((sourcesOf records).count id) := by
  induction records using List.reverseRecOn with
  | nil => rfl
  | append_singleton records r ih =>
      rw [List.foldl_append, List.foldl_cons, List.foldl_nil, FleetRun.absorb_publishes,
        sourcesOf_snoc]
      split
      · by_cases hid : id = sourceIndex r.sourceId
        · subst hid
          rw [Function.update_self, ih, List.count_append, List.count_singleton_self,
            UInt32.ofNat_add]
          rfl
        · rw [Function.update_of_ne hid, ih, List.count_append,
            List.count_singleton, if_neg (by simpa using Ne.symm hid), Nat.add_zero]
      · rw [ih, List.append_nil]

/-- The values compute stores for a list of records. -/
def beatsOf (records : List Record) : List UInt64 :=
  (tally (sourcesOf records)).map fun n => (UInt32.ofNat n).toUInt64

theorem beatsOf_snoc (records : List Record) (r : Record) :
    beatsOf (records ++ [r]) = beatsOf records
      ++ if (integrate (records.foldl (FleetRun.absorb kFastPeriodNs) .init).fleet r
          kFastPeriodNs).1 = .ok then
          [((records.foldl (FleetRun.absorb kFastPeriodNs) .init).publishes
            (sourceIndex r.sourceId) + 1).toUInt64]
        else [] := by
  unfold beatsOf
  rw [sourcesOf_snoc]
  split
  · rw [tally_snoc, List.map_append, publishes_eq_count, List.map_singleton, UInt32.ofNat_add]
    rfl
  · simp

/-- The store to `heartbeat_compute` that the fast thread owes, between the count and the
store. -/
def Fast.due (t : Fast) : List UInt64 :=
  match t.pc with
  | .publish _ _ count => [count.toUInt64]
  | .heartbeat count => [count.toUInt64]
  | _ => []

theorem Fast.absorb_due (t : Fast) (r : Record) :
    (t.absorb r).due = if (integrate t.fleet r kFastPeriodNs).1 = .ok then
      [(t.publishes (sourceIndex r.sourceId) + 1).toUInt64] else [] := by
  unfold Fast.absorb
  cases integrate t.fleet r kFastPeriodNs with
  | mk status fleet => cases status <;> rfl

/-- **One step of the fast thread.** What it has stored and what it owes are the values for
the records it has taken. -/
theorem FastMove.beats {clock : UInt64} {l l' : Layout} {t t' : Fast} {log : List UInt64}
    (h : FastMove clock l t l' t') (hw : t.Working) (hlog : log ++ t.due = beatsOf t.integrated) :
    log ++ (if t.pc.beats then [l'.control.heartbeatCompute] else []) ++ t'.due
      = beatsOf t'.integrated := by
  cases h with
  | @took call call' ring record hpc hr =>
      have hfleet := congrArg FleetRun.fleet hw
      have hpub := congrArg FleetRun.publishes hw
      simp only at hfleet hpub
      have hdue : t.due = [] := by simp [Fast.due, hpc]
      rw [hdue, List.append_nil] at hlog
      rw [t.absorb_integrated, beatsOf_snoc, ← hfleet, ← hpub, ← hlog, Fast.absorb_due, hpc]
      simp [FastPc.beats]
  | heartbeat hpc =>
      rw [← hlog]
      simp [Fast.due, hpc, FastPc.beats]
  | _ hpc =>
      rw [← hlog]
      simp [Fast.due, hpc, FastPc.beats]

/-! ## The invariant -/

/-- The source thread counts what it stores. -/
theorem SourceMove.beats {l l' : Layout} {p p' : Ingest} (h : SourceMove l p l' p') :
    (p.source.pc = .beat ∧ l'.control.heartbeatIngest = p.source.beats + 1
        ∧ p'.source.beats = p.source.beats + 1)
      ∨ (p.source.pc ≠ .beat ∧ p'.source.beats = p.source.beats) := by
  cases h with
  | beat hpc => exact Or.inl ⟨hpc, rfl, rfl⟩
  | _ hpc => exact Or.inr ⟨by simp [hpc], rfl⟩

/-- So does publish. -/
theorem Publish.step_beats {l l' : Layout} {p p' : Publish} (h : p.step l = some (l', p')) :
    (p.pc = .beat ∧ l'.control.heartbeatPublish = p.beats + 1 ∧ p'.beats = p.beats + 1)
      ∨ (p.pc ≠ .beat ∧ p'.beats = p.beats) := by
  have hleave : p.leave.beats = p.beats := by
    unfold Publish.leave
    split <;> rfl
  unfold Publish.step at h
  cases hpc : p.pc with
  | beat =>
      simp only [hpc, Option.some.injEq, Prod.mk.injEq] at h
      obtain ⟨rfl, rfl⟩ := h
      exact Or.inl ⟨rfl, rfl, rfl⟩
  | _ =>
      right
      refine ⟨by simp, ?_⟩
      simp only [hpc] at h
      repeat' split at h
      all_goals simp only [Option.some.injEq, Prod.mk.injEq, reduceCtorEq] at h
      all_goals
        obtain ⟨rfl, rfl⟩ := h
        first
        | rfl
        | exact hleave

namespace Pipeline

/-- What the log says of a state. -/
structure Beating (s : Pipeline) (g : BeatLog) : Prop where
  ingest : g.ingest = counted g.ingest.length
  noIngest : s.ingest = .unborn → g.ingest = []
  source : ∀ p, s.ingest = .running p → p.source.beats = UInt64.ofNat g.ingest.length
  publish : g.publish = counted g.publish.length
  noPublish : s.publish = .unborn → g.publish = []
  publisher : ∀ p, s.publish = .running p → p.beats = UInt64.ofNat g.publish.length
  /-- Before the first attempt nothing is stored. -/
  noCompute : g.attempts = 0 → g.compute = [] ∧ g.records = [] ∧ ∀ p, s.compute ≠ .running p
  compute : g.attempts ≤ 1 → g.compute <+: beatsOf g.records
  fast : g.attempts ≤ 1 → ∀ p, s.compute = .running p →
    g.records = p.fast.integrated ∧ g.compute ++ p.fast.due = beatsOf p.fast.integrated

variable {s s' : Pipeline} {g : BeatLog}

/-- A pipeline that has not started a child yet. -/
theorem beating_unborn (hi : s.ingest = .unborn) (hp : s.publish = .unborn)
    (hc : s.compute = .unborn) : Beating s {} where
  ingest := rfl
  noIngest _ := rfl
  source := by simp [hi]
  publish := rfl
  noPublish _ := rfl
  publisher := by simp [hp]
  noCompute _ := ⟨rfl, rfl, by simp [hc]⟩
  compute _ := List.nil_prefix
  fast := by simp [hc]

/-- A step that stores to none of the words. -/
theorem Beating.frame (h : Beating s g) (hi : s.ingest.Keeps (fun p => p.source.beats) s'.ingest)
    (hp : s.publish.Keeps Publish.beats s'.publish) (hc : s.compute.Keeps Compute.fast s'.compute) :
    Beating s' g where
  ingest := h.ingest
  noIngest hu := h.noIngest (hi.unborn hu)
  source := by
    intro p' hp'
    obtain ⟨p, hrun, hb⟩ := hi.running p' hp'
    exact hb.trans (h.source p hrun)
  publish := h.publish
  noPublish hu := h.noPublish (hp.unborn hu)
  publisher := by
    intro p' hp'
    obtain ⟨p, hrun, hb⟩ := hp.running p' hp'
    exact hb.trans (h.publisher p hrun)
  noCompute hz := by
    obtain ⟨hg, hr, hn⟩ := h.noCompute hz
    refine ⟨hg, hr, ?_⟩
    intro p' hp'
    obtain ⟨p, hrun, _⟩ := hc.running p' hp'
    exact hn p hrun
  compute := h.compute
  fast hone := by
    intro p' hp'
    obtain ⟨p, hrun, hf⟩ := hc.running p' hp'
    rw [hf]
    exact h.fast hone p hrun

/-- The source thread stores to its word. -/
theorem Beating.beatIngest (h : Beating s g) {p p' : Ingest} {l' : Layout}
    (hp : s.ingest = .running p) (hhb : l'.control.heartbeatIngest = p.source.beats + 1)
    (hb : p'.source.beats = p.source.beats + 1) :
    Beating (s.withIngest (l', p'))
      { g with ingest := g.ingest ++ [l'.control.heartbeatIngest] } := by
  obtain ⟨hlog, hcount⟩ := counted_next h.ingest (h.source p hp)
  rw [← hhb] at hlog hcount
  refine ⟨hlog, by simp [Pipeline.withIngest], ?_, h.publish, h.noPublish, h.publisher, h.noCompute,
    h.compute, h.fast⟩
  intro q hq
  obtain rfl := Child.running.inj hq
  rw [hb, ← hhb]
  exact hcount

/-- Publish stores to its word. -/
theorem Beating.beatPublish (h : Beating s g) {p p' : Publish} {l' : Layout}
    (hp : s.publish = .running p) (hhb : l'.control.heartbeatPublish = p.beats + 1)
    (hb : p'.beats = p.beats + 1) :
    Beating (s.withPublish (l', p'))
      { g with publish := g.publish ++ [l'.control.heartbeatPublish] } := by
  obtain ⟨hlog, hcount⟩ := counted_next h.publish (h.publisher p hp)
  rw [← hhb] at hlog hcount
  refine ⟨h.ingest, h.noIngest, h.source, hlog, by simp [Pipeline.withPublish], ?_, h.noCompute,
    h.compute, h.fast⟩
  intro q hq
  obtain rfl := Child.running.inj hq
  rw [hb, ← hhb]
  exact hcount

/-- The fast thread moves. -/
theorem Beating.moveFast (h : Beating s g) {p : Compute} {t' : Fast} {l' : Layout}
    (hp : s.compute = .running p) (hw : p.fast.Working)
    (hm : FastMove s.clock s.layout p.fast l' t') :
    Beating (s.withCompute (l', { p with fast := t' }))
      { g with
        compute := g.compute ++ (if p.fast.pc.beats then [l'.control.heartbeatCompute] else [])
        records := t'.integrated } := by
  refine ⟨h.ingest, h.noIngest, h.source, h.publish, h.noPublish, h.publisher, ?_, ?_, ?_⟩
  · intro hz
    exact absurd hp ((h.noCompute hz).2.2 p)
  · intro hone
    exact ⟨t'.due, hm.beats hw (h.fast hone p hp).2⟩
  · intro hone q hq
    obtain rfl := Child.running.inj hq
    exact ⟨rfl, hm.beats hw (h.fast hone p hp).2⟩

/-- An attempt starts, or fails to. -/
theorem Beating.attempt (h : Beating s g) {sup : SupPc} {c : Child Compute}
    (hc : ∀ p, c = .running p → p = Compute.init) :
    Beating { s with sup := sup, compute := c } { g with attempts := g.attempts + 1 } := by
  refine ⟨h.ingest, h.noIngest, h.source, h.publish, h.noPublish, h.publisher, ?_, ?_, ?_⟩
  · intro hz
    exact absurd hz (Nat.succ_ne_zero g.attempts)
  · intro hone
    exact h.compute (Nat.le_of_succ_le hone)
  · intro hone p hp
    obtain rfl := hc p hp
    -- it is the first one
    have hz : g.attempts = 0 := Nat.le_zero.mp (Nat.le_of_succ_le_succ hone)
    obtain ⟨hg, hr, _⟩ := h.noCompute hz
    refine ⟨hr, ?_⟩
    show g.compute ++ [] = []
    rw [hg, List.append_nil]

/-- Ingest starts. -/
theorem Beating.spawnIngest (h : Beating s g) (hu : s.ingest = .unborn) (sup : SupPc) :
    Beating { s with sup := sup, ingest := .running (Ingest.init s.replay) } g := by
  refine ⟨h.ingest, by simp, ?_, h.publish, h.noPublish, h.publisher, h.noCompute, h.compute,
    h.fast⟩
  intro p hp
  obtain rfl := Child.running.inj hp
  rw [h.noIngest hu]
  rfl

/-- Publish starts. -/
theorem Beating.spawnPublish (h : Beating s g) (hu : s.publish = .unborn) (sup : SupPc) :
    Beating { s with sup := sup, publish := .running Publish.init } g := by
  refine ⟨h.ingest, h.noIngest, h.source, h.publish, by simp, ?_, h.noCompute, h.compute, h.fast⟩
  intro p hp
  obtain rfl := Child.running.inj hp
  rw [h.noPublish hu]
  rfl

/-- Any other step of the supervisor. -/
theorem supervised_of_not {pc : SupPc} (h : pc.attempts = false) : g.supervised pc = g := by
  simp [BeatLog.supervised, h]

/-- **One step of the system.** -/
theorem beating_step {a : Act} (hsk : Skeleton s)
    (hw : ∀ p, s.compute = .running p → p.fast.Working) (h : Beating s g)
    (hs : s.step a = some s') : Beating s' (noteBeats g s a s') := by
  cases move_of_step hs with
  | tick _ => exact h.frame .refl .refl .refl
  | spawnIngest hsup =>
      rw [noteBeats_sup, supervised_of_not (by rw [hsup]; rfl)]
      exact h.spawnIngest (hsk.ingest.mpr hsup) _
  | noIngest hsup =>
      rw [noteBeats_spawnFails, supervised_of_not (by rw [hsup]; rfl)]
      exact h.frame .failed .refl .refl
  | spawnPublish hsup =>
      rw [noteBeats_sup, supervised_of_not (by rw [hsup]; rfl)]
      exact h.spawnPublish (hsk.publish.mpr (by rw [hsup]; rfl)) _
  | noPublish hsup =>
      rw [noteBeats_spawnFails, supervised_of_not (by rw [hsup]; rfl)]
      exact h.frame .refl .failed .refl
  | spawnCompute hsup =>
      rw [noteBeats_sup, hsup]
      exact h.attempt fun p hp => (Child.running.inj hp).symm
  | noCompute hsup =>
      rw [noteBeats_spawnFails, hsup]
      exact h.attempt fun p hp => by cases hp
  | reapCompute hsup hwait =>
      rw [noteBeats_sup, supervised_of_not (by rw [hsup]; rfl)]
      exact h.frame .refl .refl .refl
  | reapIngest hsup hwait =>
      rw [noteBeats_sup, supervised_of_not (by rw [hsup]; rfl)]
      exact h.frame .refl .refl .refl
  | reapPublish hsup hwait =>
      rw [noteBeats_sup, supervised_of_not (by rw [hsup]; rfl)]
      exact h.frame .refl .refl .refl
  | store hst =>
      rw [noteBeats_sup, supervised_of_not]
      · exact h.frame .refl .refl .refl
      · cases hsup : s.sup with
        | spawnCompute n => simp [supStep, hsup] at hst
        | _ => rfl
  | rerun hsup => exact beating_unborn rfl rfl rfl
  | @source p p' l' hp hm hst =>
      rcases (Ingest.sourceMove hst).beats with ⟨hpc, hhb, hb⟩ | ⟨hpc, hb⟩
      · simp only [noteBeats_source, BeatLog.sourced, hp, hpc, if_true]
        exact h.beatIngest hp hhb hb
      · simp only [noteBeats_source, BeatLog.sourced, hp, hpc, if_false]
        exact h.frame (.runs hp hb) .refl .refl
  | @frames p p' l' hp hm hst =>
      have hb : p'.source = p.source := by
        simp only [Ingest.stepFrames, Option.map_eq_some_iff, Prod.mk.injEq] at hst
        obtain ⟨_, _, _, rfl⟩ := hst
        rfl
      exact h.frame (.runs hp (by rw [hb])) .refl .refl
  | ingestAttach hp hm => exact h.frame (.runs hp rfl) .refl .refl
  | @ingestMain p p' l' hp hst =>
      have hb : p'.source = p.source := by
        simp only [Ingest.stepMain, Option.map_eq_some_iff, Prod.mk.injEq] at hst
        obtain ⟨_, _, _, rfl⟩ := hst
        rfl
      exact h.frame (.runs hp (by rw [hb])) .refl .refl
  | ingestExit hp hm => exact h.frame .ended .refl .refl
  | ingestRefused hp hm => exact h.frame .ended .refl .refl
  | killIngest hp => exact h.frame .ended .refl .refl
  | fast hp ha hst =>
      simp only [noteBeats_fast, BeatLog.computed, hp, Pipeline.withCompute]
      exact h.moveFast hp (hw _ hp) (fastMove hst)
  | window hp ha hst => exact h.frame .refl .refl (.runs hp rfl)
  | snapshot hp ha hpc hst => exact h.frame .refl .refl (.runs hp rfl)
  | handOver hp ha hpc hst => exact h.frame .refl .refl (.runs hp rfl)
  | watchdog hp ha hst => exact h.frame .refl .refl (.runs hp rfl)
  | computeMain hp hst => exact h.frame .refl .refl (.runs hp rfl)
  | computeExit hp hm => exact h.frame .refl .refl .ended
  | computeCrash hp hm => exact h.frame .refl .refl .ended
  | computeRefused hp hm => exact h.frame .refl .refl .ended
  | killCompute hp => exact h.frame .refl .refl .ended
  | publish hp hpc hst =>
      rcases Publish.step_beats hst with ⟨hpc, hhb, hb⟩ | ⟨hpc, hb⟩
      · simp only [noteBeats_publish, BeatLog.publishes, hp, hpc, if_true]
        exact h.beatPublish hp hhb hb
      · simp only [noteBeats_publish, BeatLog.publishes, hp, hpc, if_false]
        exact h.frame .refl (.runs hp hb) .refl
  | publishOpen hp hpc =>
      simp only [noteBeats_publish, BeatLog.publishes, hp, hpc, reduceCtorEq, if_false]
      exact h.frame .refl (.runs hp rfl) .refl
  | publishWrite hp hpc =>
      simp only [noteBeats_publish, BeatLog.publishes, hp, hpc, reduceCtorEq, if_false]
      exact h.frame .refl (.runs hp rfl) .refl
  | publishExit hp hpc =>
      simp only [noteBeats_publish, BeatLog.publishes, hp, hpc, reduceCtorEq, if_false]
      exact h.frame .refl .ended .refl
  | publishRefused hp hpc => exact h.frame .refl .ended .refl
  | openFails hp hpc => exact h.frame .refl (.runs hp rfl) .refl
  | killPublish hp => exact h.frame .refl .ended .refl

theorem beating_reachable {x : Transition.Noted Pipeline BeatLog} (h : ReachableBeats x) :
    Beating x.now x.past := by
  refine Transition.ReachableNoted.invariant ?_ ?_ h
  · rintro s ⟨replay, clock, rfl⟩
    exact beating_unborn rfl rfl rfl
  · intro x a s' hr hi _ hs
    exact beating_step (sound_reachable hr).skeleton (fun p hp => working_reachable hr hp) hi hs

/-! ## The words -/

/-- Counts of 32 bits, stored to a word of 64: below the overflow the word goes forward with
the count. -/
theorem isChain_counts {ns : List Nat} (hlt : ∀ n ∈ ns, n < 2 ^ 32) :
    ((ns.map fun n => (UInt32.ofNat n).toUInt64).IsChain (· ≤ ·)
        ∧ (ns.map fun n => (UInt32.ofNat n).toUInt64).IsChain (· ≠ ·))
      ↔ ns.IsChain (· < ·) := by
  have hval : ∀ n ∈ ns, (UInt32.ofNat n).toUInt64.toNat = n := by
    intro n hn
    rw [UInt32.toNat_toUInt64, UInt32.toNat_ofNat', Nat.mod_eq_of_lt (hlt n hn)]
  rw [List.isChain_map, List.isChain_map, List.isChain_iff_getElem, List.isChain_iff_getElem,
    List.isChain_iff_getElem]
  constructor
  · rintro ⟨hle, hne⟩ i hi
    have h1 := UInt64.le_iff_toNat_le.mp (hle i hi)
    rw [hval _ (List.getElem_mem _), hval _ (List.getElem_mem _)] at h1
    refine Nat.lt_of_le_of_ne h1 ?_
    intro he
    exact hne i hi (by rw [he])
  · intro hlt
    constructor
    · intro i hi
      rw [UInt64.le_iff_toNat_le, hval _ (List.getElem_mem _), hval _ (List.getElem_mem _)]
      exact Nat.le_of_lt (hlt i hi)
    · intro i hi he
      have h1 := congrArg UInt64.toNat he
      rw [hval _ (List.getElem_mem _), hval _ (List.getElem_mem _)] at h1
      have := hlt i hi
      omega

/-- What compute has stored are the counts along the records behind the stores. -/
theorem Beating.compute_eq (h : Beating s g) (hone : g.attempts ≤ 1) :
    g.compute = (tally (g.published.map fun r => sourceIndex r.sourceId)).map
      fun n => (UInt32.ofNat n).toUInt64 := by
  have hpre := List.prefix_iff_eq_take.mp (h.compute hone)
  rw [beatsOf, ← List.map_take, ← tally_take, sourcesOf, ← List.map_take] at hpre
  exact hpre

/-- Two of these records have one source when they have one slot. -/
theorem oneSource_iff :
    g.OneSource ↔ ∀ a ∈ g.published.map (fun r => sourceIndex r.sourceId),
      ∀ b ∈ g.published.map (fun r => sourceIndex r.sourceId), a = b := by
  have hid : ∀ r ∈ g.published, r.sourceId.toNat < kMaxSources := fun r hr =>
    FleetRun.sourceId_of_accepted (List.mem_of_mem_take hr)
  simp only [List.forall_mem_map]
  constructor
  · intro h r hr r' hr'
    rw [h r hr r' hr']
  · intro h r hr r' hr'
    exact sourceIndex_inj (hid r hr) (hid r' hr') (h r hr r' hr')

/--
**When the heartbeats go forward.** In every run, for a pipeline with one compute attempt
and fewer than `2^32` stores to `heartbeat_compute`: no word goes back and
`heartbeat_compute` changes with each store, exactly when the records behind its stores are
all of one source and the two counters of 64 bits have not overflowed.
-/
theorem heartbeats_forward {x : Transition.Noted Pipeline BeatLog} (h : ReachableBeats x)
    (hone : x.past.attempts ≤ 1) (hfew : x.past.compute.length < 2 ^ 32) :
    x.past.Forward
      ↔ x.past.OneSource ∧ x.past.ingest.length < 2 ^ 64 ∧ x.past.publish.length < 2 ^ 64 := by
  have hb := beating_reachable h
  have hlen : (x.past.published.map fun r => sourceIndex r.sourceId).length
      = x.past.compute.length := by
    have := congrArg List.length (hb.compute_eq hone)
    rw [List.length_map, length_tally] at this
    exact this.symm
  have hsmall : ∀ n ∈ tally (x.past.published.map fun r => sourceIndex r.sourceId), n < 2 ^ 32 := by
    intro n hn
    have := le_length_of_mem hn
    omega
  have hcompute : (x.past.compute.IsChain (· ≤ ·) ∧ x.past.compute.IsChain (· ≠ ·))
      ↔ x.past.OneSource := by
    rw [hb.compute_eq hone, isChain_counts hsmall, isChain_tally, oneSource_iff]
  have hingest : x.past.ingest.IsChain (· ≤ ·) ↔ x.past.ingest.length < 2 ^ 64 := by
    rw [← isChain_counted, ← hb.ingest]
  have hpublish : x.past.publish.IsChain (· ≤ ·) ↔ x.past.publish.length < 2 ^ 64 := by
    rw [← isChain_counted, ← hb.publish]
  constructor
  · intro hf
    exact ⟨hcompute.mp ⟨hf.compute, hf.differs⟩, hingest.mp hf.ingest, hpublish.mp hf.publish⟩
  · rintro ⟨hsrc, hi, hp⟩
    obtain ⟨hle, hne⟩ := hcompute.mpr hsrc
    exact ⟨hingest.mpr hi, hle, hpublish.mpr hp, hne⟩

/-- A replay file of one frame for each record. -/
def replayOf (records : List Record) : List UInt8 :=
  records.flatMap fun r => (encodeFrame r (Vector.replicate kFrameBytes 0)).2.toList

/-- The three children start, ingest pushes `n` frames, and compute publishes them: a record
takes the fast thread 13 steps. -/
def beatsFor (n : Nat) : List Act :=
  List.flatten [List.replicate 6 (.sup 7), [.ingestMain], List.replicate (4 * n) .source,
    List.replicate (6 * n) .frames, List.replicate 2 .computeMain,
    List.replicate (4 + 13 * n) .fast, List.replicate 10 .publish]

/-- Two records of one source. -/
theorem heartbeats_forward_one_source :
    ∃ x, ReachableBeats x ∧ x.past.attempts = 1 ∧ x.past.ingest = [1, 2]
      ∧ x.past.compute = [1, 2] ∧ x.past.publish = [1, 2] ∧ x.past.Forward := by
  have h : (Transition.execWhen (Transition.notedStep step noteBeats) (fun _ _ => true)
      ⟨start (replayOf [{ sourceId := 1, sequence := 1 }, { sourceId := 1, sequence := 2 }]) 1, {}⟩
      (beatsFor 2)).any
      (fun x => decide (x.past.attempts = 1) && decide (x.past.ingest = [1, 2])
        && decide (x.past.compute = [1, 2]) && decide (x.past.publish = [1, 2])
        && x.past.published.all fun r => decide (r.sourceId = 1)) = true := by
    decide +kernel
  obtain ⟨x, hrun, hx⟩ := Option.any_eq_true _ _ |>.mp h
  simp only [Bool.and_eq_true, decide_eq_true_eq, List.all_eq_true] at hx
  obtain ⟨⟨⟨⟨hone, hi⟩, hc⟩, hp⟩, hsrc⟩ := hx
  have hr : ReachableBeats x :=
    Transition.ReachableNoted.execWhen (fun _ _ _ => trivial) ⟨_, _, rfl⟩ hrun
  refine ⟨x, hr, hone, hi, hc, hp, ?_⟩
  refine (heartbeats_forward hr (by omega) (by rw [hc]; decide)).mpr ⟨?_, ?_, ?_⟩
  · intro r hr r' hr'
    rw [hsrc r hr, hsrc r' hr']
  · rw [hi]
    decide
  · rw [hp]
    decide

/-- Records of three sources: the word goes from 2 back to 1, and then repeats it. -/
theorem heartbeat_compute_goes_back :
    ∃ x, ReachableBeats x ∧ x.past.attempts = 1 ∧ x.past.compute = [1, 2, 1, 1]
      ∧ ¬ x.past.compute.IsChain (· ≤ ·) ∧ ¬ x.past.compute.IsChain (· ≠ ·) := by
  have h : (Transition.execWhen (Transition.notedStep step noteBeats) (fun _ _ => true)
      ⟨start (replayOf [{ sourceId := 1, sequence := 1 }, { sourceId := 1, sequence := 2 },
        { sourceId := 2, sequence := 1 }, { sourceId := 3, sequence := 1 }]) 1, {}⟩
      (beatsFor 4)).any
      (fun x => decide (x.past.attempts = 1) && decide (x.past.compute = [1, 2, 1, 1])) = true := by
    decide +kernel
  obtain ⟨x, hrun, hx⟩ := Option.any_eq_true _ _ |>.mp h
  simp only [Bool.and_eq_true, decide_eq_true_eq] at hx
  obtain ⟨hone, hc⟩ := hx
  refine ⟨x, Transition.ReachableNoted.execWhen (fun _ _ _ => trivial) ⟨_, _, rfl⟩ hrun, hone, hc,
    ?_, ?_⟩
  · rw [hc]
    decide
  · rw [hc]
    decide

end Pipeline

end RateHub
