import RateHub.Lib.History
import RateHub.Proof.IngestWakes
import RateHub.Proof.Result
import RateHub.Proof.StageMoves

/-!
# What a rerun finds on the mapping

`reset_control` clears the control block and leaves the ring and the triple buffer as the
last pipeline left them. So a rerun starts clean when both were left empty: nothing
waits in the ring, and the fresh bit is clear.

`RunLog` says where things come from, by the number of the run: for each record ever
pushed the run whose ingest pushed it, for each record ever popped the run whose fast
thread popped it, and for each part of a snapshot, in the slots, in publish's copy and
in the output file, the run whose snapshot thread stored it. Parts and not whole
snapshots, because a compute that is killed inside `snapshots.publish()` can leave a
slot that its successor overwrites while publish copies it.
-/

namespace RateHub

/-! ## Where things come from -/

/-- What a run remembers. -/
structure RunLog where
  /-- The reruns so far. -/
  run : Nat
  pushedIn : List Nat
  poppedIn : List Nat
  /-- By slot and part. -/
  slot : UInt64 → Nat → Nat
  /-- By part: publish's `last`. -/
  last : Nat → Nat
  /-- By part: the snapshot behind the output file. -/
  written : Nat → Nat

/-- A freshly constructed mapping. -/
def RunLog.empty : RunLog :=
  { run := 0, pushedIn := [], poppedIn := [], slot := fun _ _ => 0, last := fun _ => 0
    written := fun _ => 0 }

/-- A step of the snapshot thread: `fill k` stores part `k` to the write slot. -/
def RunLog.store (g : RunLog) (b : TripleBuffer Snapshot) : SnapshotPc → RunLog
  | .fill k =>
      { g with slot := Function.update g.slot b.write (Function.update (g.slot b.write) k g.run) }
  | _ => g

/-- A step of publish: `copy k` takes part `k` out of the read slot. -/
def RunLog.take (g : RunLog) (b : TripleBuffer Snapshot) : PublishPc → RunLog
  | .copy k => { g with last := Function.update g.last k (g.slot b.read k) }
  | .write => { g with written := g.last }
  | _ => g

/-- Every part of the slot is this run's. -/
def RunLog.current (g : RunLog) (slot : UInt64) : Prop := ∀ k < Snapshot.parts, g.slot slot k = g.run

namespace Pipeline

/-- How a step of the system changes the log. -/
def noteRuns (g : RunLog) (s : Pipeline) (a : Act) (s' : Pipeline) : RunLog :=
  match a with
  | .rerun => { g with run := g.run + 1 }
  | .frames =>
      { g with pushedIn := g.pushedIn
                 ++ List.replicate (s'.layout.ring.pushed.length - s.layout.ring.pushed.length) g.run }
  | .fast =>
      { g with poppedIn := g.poppedIn
                 ++ List.replicate (s'.layout.ring.popped.length - s.layout.ring.popped.length) g.run }
  | .snapshot =>
      match s.compute with
      | .running p => g.store s.layout.snapshots p.snapshot.pc
      | _ => g
  | .publish =>
      match s.publish with
      | .running q => g.take s.layout.snapshots q.pc
      | _ => g
  | _ => g

/-- The condition on a step: at a rerun the ring is empty and the fresh bit is clear. -/
def rerunsEmptied (x : Transition.Noted Pipeline RunLog) (a : Act) : Bool :=
  match a with
  | .rerun =>
      decide (x.now.layout.ring.write = x.now.layout.ring.read)
        && decide (x.now.layout.snapshots.middle &&& TripleBuffer.kFresh = 0)
  | _ => true

/-- The runs whose steps meet the condition. -/
def ReachableEmptied (x : Transition.Noted Pipeline RunLog) : Prop :=
  Transition.ReachableNoted step noteRuns (fun x a => rerunsEmptied x a = true) Start .empty x

end Pipeline

/-! ## The ring -/

/-- What waits in the ring is this run's, and what was popped was popped in its own run. -/
structure RunRing (r : SpscRing Record kRingCapacity) (g : RunLog) : Prop where
  pushed : g.pushedIn.length = r.pushed.length
  popped : g.poppedIn.length = r.popped.length
  own : g.poppedIn <+: g.pushedIn
  waiting : ∀ i n, r.popped.length ≤ i → g.pushedIn[i]? = some n → n = g.run

theorem runRing_init : RunRing (SpscRing.init {}) .empty where
  pushed := rfl
  popped := rfl
  own := List.nil_prefix
  waiting := by
    intro i n _ hn
    simp [RunLog.empty] at hn

/-- Neither the records nor what is remembered of them changes. -/
theorem RunRing.frame {r r' : SpscRing Record kRingCapacity} {g g' : RunLog} (h : RunRing r g)
    (hp : r'.pushed.length = r.pushed.length) (hq : r'.popped.length = r.popped.length)
    (hpi : g'.pushedIn = g.pushedIn) (hqi : g'.poppedIn = g.poppedIn) (hr : g'.run = g.run) :
    RunRing r' g' where
  pushed := by rw [hpi, h.pushed, hp]
  popped := by rw [hqi, h.popped, hq]
  own := by rw [hpi, hqi]; exact h.own
  waiting := by rw [hpi, hr, hq]; exact h.waiting

theorem RunRing.push {r r' : SpscRing Record kRingCapacity} {g : RunLog} (h : RunRing r g)
    (hp : r.pushed.length ≤ r'.pushed.length) (hq : r'.popped = r.popped) :
    RunRing r' { g with pushedIn := g.pushedIn
                          ++ List.replicate (r'.pushed.length - r.pushed.length) g.run } where
  pushed := by
    rw [List.length_append, List.length_replicate, h.pushed]
    omega
  popped := by rw [hq]; exact h.popped
  own := h.own.trans (List.prefix_append _ _)
  waiting := by
    intro i n hi hn
    rw [hq] at hi
    rcases lt_or_ge i g.pushedIn.length with hlt | hge
    · rw [List.getElem?_append_left hlt] at hn
      exact h.waiting i n hi hn
    · rw [List.getElem?_append_right hge] at hn
      exact List.eq_of_mem_replicate (List.mem_of_getElem? hn)

/-- A pop takes a record that waits, so one of this run. -/
theorem RunRing.pop {r r' : SpscRing Record kRingCapacity} {g : RunLog} (h : RunRing r g)
    (hp : r'.pushed = r.pushed) (hq : r.popped.length ≤ r'.popped.length)
    (hle : r'.popped.length ≤ r'.pushed.length) :
    RunRing r' { g with poppedIn := g.poppedIn
                          ++ List.replicate (r'.popped.length - r.popped.length) g.run } where
  pushed := by rw [hp]; exact h.pushed
  popped := by
    rw [List.length_append, List.length_replicate, h.popped]
    omega
  own := by
    rw [hp] at hle
    rw [List.prefix_iff_getElem?]
    intro i hi
    rw [List.length_append, List.length_replicate, h.popped] at hi
    have hin : i < g.pushedIn.length := by rw [h.pushed]; omega
    rcases lt_or_ge i g.poppedIn.length with hlt | hge
    · rw [List.getElem_append_left hlt]
      exact List.prefix_iff_getElem?.mp h.own i hlt
    · rw [List.getElem_append_right hge, List.getElem_replicate, List.getElem?_eq_getElem hin]
      rw [h.popped] at hge
      rw [h.waiting i _ hge (List.getElem?_eq_getElem hin)]
  waiting := by
    intro i n hi hn
    exact h.waiting i n (Nat.le_trans hq hi) hn

/-- At a rerun nothing waits. -/
theorem RunRing.rerun {r : SpscRing Record kRingCapacity} {g : RunLog} (h : RunRing r g)
    (hinv : SpscRing.Inv r) (hempty : r.write = r.read) : RunRing r { g with run := g.run + 1 } where
  pushed := h.pushed
  popped := h.popped
  own := h.own
  waiting := by
    intro i n hi hn
    have hlen := hinv.empty_iff.mp hempty.symm
    have hin := (List.getElem?_eq_some_iff.mp hn).1
    have hp := h.pushed
    simp only at hin
    omega

/-! ## The triple buffer -/

/-- What the snapshot thread has stored to the write slot so far. -/
def FilledIn (b : TripleBuffer Snapshot) (g : RunLog) : SnapshotPc → Prop
  | .fill k => ∀ j < k, g.slot b.write j = g.run
  | .publish .exchange => g.current b.write
  | _ => True

/-- What publish has got hold of so far. -/
def TakenIn (b : TripleBuffer Snapshot) (g : RunLog) : PublishPc → Prop
  | .consume .exchange => b.middle &&& TripleBuffer.kFresh ≠ 0
  | .consume (.update old) => g.current (old &&& TripleBuffer.kIndexMask).toUInt64
  | .copy k => g.current b.read ∧ ∀ j < k, g.last j = g.run
  | _ => True

/-- What publish holds is this run's. -/
structure PublishIn (b : TripleBuffer Snapshot) (g : RunLog) (q : Publish) : Prop where
  taken : TakenIn b g q.pc
  kept : q.have_ = true → ∀ k < Snapshot.parts, g.last k = g.run
  write : q.pc.filing = true → q.have_ = true

/-- A fresh spare slot is this run's. -/
def FreshIn (b : TripleBuffer Snapshot) (g : RunLog) : Prop :=
  b.middle &&& TripleBuffer.kFresh ≠ 0 →
    g.current (b.middle &&& TripleBuffer.kIndexMask).toUInt64

/-- A store of this run makes nothing older. -/
theorem RunLog.store_slot {g : RunLog} {b : TripleBuffer Snapshot} {pc : SnapshotPc} {i : UInt64}
    {k : Nat} (h : g.slot i k = g.run) : (g.store b pc).slot i k = (g.store b pc).run := by
  unfold RunLog.store
  split
  · rename_i j
    by_cases hi : i = b.write
    · subst hi
      by_cases hk : k = j
      · subst hk
        simp
      · simp [hk, h]
    · simp [hi, h]
  · exact h

@[simp] theorem RunLog.store_run (g : RunLog) (b : TripleBuffer Snapshot) (pc : SnapshotPc) :
    (g.store b pc).run = g.run := by
  unfold RunLog.store
  split <;> rfl

@[simp] theorem RunLog.store_last (g : RunLog) (b : TripleBuffer Snapshot) (pc : SnapshotPc) :
    (g.store b pc).last = g.last := by
  unfold RunLog.store
  split <;> rfl

@[simp] theorem RunLog.store_written (g : RunLog) (b : TripleBuffer Snapshot) (pc : SnapshotPc) :
    (g.store b pc).written = g.written := by
  unfold RunLog.store
  split <;> rfl

theorem RunLog.store_current {g : RunLog} {b : TripleBuffer Snapshot} {pc : SnapshotPc}
    {i : UInt64} (h : g.current i) : (g.store b pc).current i :=
  fun k hk => RunLog.store_slot (h k hk)

/-- Storing parts leaves publish with what it has. -/
theorem PublishIn.store {b : TripleBuffer Snapshot} {g : RunLog} {q : Publish} {pc : SnapshotPc}
    (h : PublishIn b g q) : PublishIn b (g.store b pc) q := by
  refine ⟨?_, ?_, h.write⟩
  · have ht := h.taken
    unfold TakenIn at ht ⊢
    split
    · rename_i hpc
      rw [hpc] at ht
      exact ht
    · rename_i hpc
      rw [hpc] at ht
      exact RunLog.store_current ht
    · rename_i hpc
      rw [hpc] at ht
      rw [RunLog.store_last, RunLog.store_run]
      exact ⟨RunLog.store_current ht.1, ht.2⟩
    · trivial
  · rw [RunLog.store_last, RunLog.store_run]
    exact h.kept

/-- The words publish looks at are where they were, or the spare slot is fresh now. -/
theorem PublishIn.frame {b b' : TripleBuffer Snapshot} {g : RunLog} {q : Publish}
    (h : PublishIn b g q) (hread : b'.read = b.read)
    (hmid : b.middle &&& TripleBuffer.kFresh ≠ 0 → b'.middle &&& TripleBuffer.kFresh ≠ 0) :
    PublishIn b' g q := by
  refine ⟨?_, h.kept, h.write⟩
  have ht := h.taken
  unfold TakenIn at ht ⊢
  split
  · rename_i hpc
    rw [hpc] at ht
    exact hmid ht
  · rename_i hpc
    rw [hpc] at ht
    exact ht
  · rename_i hpc
    rw [hpc] at ht
    rw [hread]
    exact ht
  · trivial

theorem filledIn_next (b : TripleBuffer Snapshot) (g : RunLog) (id : Fin kMaxSources) :
    FilledIn b g (SnapshotPc.next id) := by
  unfold SnapshotPc.next
  split
  · trivial
  · intro j hj
    exact absurd hj (Nat.not_lt_zero j)

/-- **A step of the snapshot thread.** Each store adds a part, the exchange moves a slot all
of whose parts are this run's. -/
theorem SnapshotMove.runLog {clock : UInt64} {l l' : Layout} {t t' : SnapshotThread}
    {g : RunLog} {c : TripleBuffer.ConsumePc} (h : SnapshotMove clock l t l' t')
    (hrange : TripleBuffer.InRange l.snapshots t.pc.pubCall c)
    (hfresh : FreshIn l.snapshots g) (hfill : FilledIn l.snapshots g t.pc) :
    FreshIn l'.snapshots (g.store l.snapshots t.pc)
      ∧ FilledIn l'.snapshots (g.store l.snapshots t.pc) t'.pc
      ∧ l'.snapshots.read = l.snapshots.read
      ∧ (l.snapshots.middle &&& TripleBuffer.kFresh ≠ 0 →
          l'.snapshots.middle &&& TripleBuffer.kFresh ≠ 0) := by
  -- away from `fill` the log stays as it is
  have hkeep : FreshIn l.snapshots (g.store l.snapshots t.pc) := by
    intro hne
    exact RunLog.store_current (hfresh hne)
  cases h with
  | @fill k hpc =>
      rw [hpc] at hfill hkeep ⊢
      refine ⟨hkeep, ?_, rfl, id⟩
      have hparts : ∀ j < k + 1,
          (g.store l.snapshots (.fill k)).slot l.snapshots.write j = g.run := by
        intro j hj
        by_cases hjk : j = k
        · subst hjk
          simp [RunLog.store]
        · have hold := hfill j (by omega)
          have hkept : (g.store l.snapshots (.fill k)).slot l.snapshots.write j
              = (g.store l.snapshots (.fill k)).run := RunLog.store_slot hold
          rwa [RunLog.store_run] at hkept
      split
      · intro j hj
        rw [RunLog.store_run]
        exact hparts j hj
      · intro j hj
        rw [RunLog.store_run]
        exact hparts j (by omega)
  | storing hpc hr hin =>
      rw [hpc] at hrange hfill hkeep ⊢
      rename_i call call' buf
      cases call with
      | idle =>
          simp only [TripleBuffer.publishStep, Prod.mk.injEq] at hr
          exact absurd hr.2.symm hin
      | exchange =>
          simp only [TripleBuffer.publishStep, Prod.mk.injEq] at hr
          obtain ⟨rfl, rfl⟩ := hr
          obtain ⟨hset, hindex⟩ := hrange.exchanged
          refine ⟨?_, trivial, rfl, fun _ => hset⟩
          intro _
          show RunLog.current g _
          rw [hindex]
          exact hfill
      | update old =>
          simp only [TripleBuffer.publishStep, Prod.mk.injEq] at hr
          exact absurd hr.2.symm hin
  | stored hpc hr =>
      rw [hpc] at hkeep ⊢
      rename_i call buf
      cases call with
      | idle =>
          simp only [TripleBuffer.publishStep, Prod.mk.injEq] at hr
          obtain ⟨rfl, _⟩ := hr
          exact ⟨hkeep, trivial, rfl, id⟩
      | exchange => simp [TripleBuffer.publishStep] at hr
      | update old =>
          simp only [TripleBuffer.publishStep, Prod.mk.injEq] at hr
          obtain ⟨rfl, _⟩ := hr
          exact ⟨hkeep, trivial, rfl, id⟩
  | @row id _ _ _ _ hpc hr => exact ⟨hkeep, filledIn_next _ _ id, rfl, fun h => h⟩
  | @noRow id _ _ _ _ hpc hr => exact ⟨hkeep, filledIn_next _ _ id, rfl, fun h => h⟩
  | _ => exact ⟨hkeep, trivial, rfl, id⟩

theorem Publish.leave_pc (q : Publish) :
    (q.have_ = true ∧ q.leave.pc = .openFile ∨ q.leave.pc = .exit 0) ∧ q.leave.have_ = q.have_ := by
  unfold Publish.leave
  split
  · rename_i hh
    exact ⟨Or.inl ⟨hh, rfl⟩, rfl⟩
  · exact ⟨Or.inr rfl, rfl⟩

/-- Publish outside any use of the buffer. -/
theorem PublishIn.rest {b b' : TripleBuffer Snapshot} {g : RunLog} {q q' : Publish}
    (h : PublishIn b g q) (hpc : TakenIn b' g q'.pc) (hhave : q'.have_ = q.have_)
    (hwrite : q'.pc.filing = true → q.have_ = true) : PublishIn b' g q' :=
  ⟨hpc, by rw [hhave]; exact h.kept, by rw [hhave]; exact hwrite⟩

theorem PublishIn.leave {b : TripleBuffer Snapshot} {g : RunLog} {q : Publish}
    (h : PublishIn b g q) : PublishIn b g q.leave := by
  obtain ⟨hpc, hhave⟩ := q.leave_pc
  rcases hpc with ⟨hh, hpc⟩ | hpc
  · exact h.rest (by rw [hpc]; trivial) hhave fun _ => hh
  · refine h.rest (by rw [hpc]; trivial) hhave ?_
    intro hw
    rw [hpc] at hw
    cases hw

/-- **A step of publish**, away from the output file. It takes a slot only while the fresh bit
is set, and copies only what it has taken. -/
theorem Publish.step_runLog {l l' : Layout} {q q' : Publish} {g : RunLog} {c : TripleBuffer.PubPc}
    (hs : q.step l = some (l', q')) (hw : q.pc.filing = false)
    (hrange : TripleBuffer.InRange l.snapshots c q.pc.conCall) (hfresh : FreshIn l.snapshots g)
    (h : PublishIn l.snapshots g q) :
    FreshIn l'.snapshots (g.take l.snapshots q.pc)
      ∧ PublishIn l'.snapshots (g.take l.snapshots q.pc) q'
      ∧ l'.snapshots.write = l.snapshots.write := by
  unfold Publish.step at hs
  cases hpc : q.pc with
  | test =>
      simp only [hpc] at hs
      split at hs <;> simp only [Option.some.injEq, Prod.mk.injEq] at hs <;>
        obtain ⟨rfl, rfl⟩ := hs
      · exact ⟨hfresh, h.rest trivial rfl (fun hq => by cases hq), rfl⟩
      · exact ⟨hfresh, h.leave, rfl⟩
  | testDone =>
      simp only [hpc] at hs
      split at hs <;> simp only [Option.some.injEq, Prod.mk.injEq] at hs <;>
        obtain ⟨rfl, rfl⟩ := hs
      · exact ⟨hfresh, h.leave, rfl⟩
      · exact ⟨hfresh, h.rest trivial rfl (fun hq => by cases hq), rfl⟩
  | attach =>
      simp only [hpc, Option.some.injEq, Prod.mk.injEq] at hs
      obtain ⟨rfl, rfl⟩ := hs
      exact ⟨hfresh, h.rest trivial rfl (fun hq => by cases hq), rfl⟩
  | beat =>
      simp only [hpc, Option.some.injEq, Prod.mk.injEq] at hs
      obtain ⟨rfl, rfl⟩ := hs
      exact ⟨hfresh, h.rest trivial rfl (fun hq => by cases hq), rfl⟩
  | openFile => simp [hpc, PublishPc.filing] at hw
  | write => simp [hpc, PublishPc.filing] at hw
  | exit code => simp [hpc] at hs
  | consume call =>
      have ht := h.taken
      rw [hpc] at ht hrange
      simp only [hpc] at hs
      cases call with
      | idle =>
          simp only [TripleBuffer.consumeStep, Option.some.injEq, Prod.mk.injEq] at hs
          obtain ⟨rfl, rfl⟩ := hs
          exact ⟨hfresh, h.rest trivial rfl (fun hq => by cases hq), rfl⟩
      | loadFresh =>
          simp only [TripleBuffer.consumeStep] at hs
          by_cases hf : l.snapshots.middle &&& TripleBuffer.kFresh = 0
          · simp only [if_pos hf, Option.some.injEq, Prod.mk.injEq] at hs
            obtain ⟨rfl, rfl⟩ := hs
            exact ⟨hfresh, h.rest trivial rfl (fun hq => by cases hq), rfl⟩
          · simp only [if_neg hf, Option.some.injEq, Prod.mk.injEq] at hs
            obtain ⟨rfl, rfl⟩ := hs
            exact ⟨hfresh, h.rest hf rfl (fun hq => by cases hq), rfl⟩
      | exchange =>
          simp only [TripleBuffer.consumeStep, Option.some.injEq, Prod.mk.injEq] at hs
          obtain ⟨rfl, rfl⟩ := hs
          refine ⟨fun hne => absurd hrange.cleared hne, ?_, rfl⟩
          exact h.rest (hfresh ht) rfl (fun hq => by cases hq)
      | update old =>
          simp only [TripleBuffer.consumeStep, Option.some.injEq, Prod.mk.injEq] at hs
          obtain ⟨rfl, rfl⟩ := hs
          refine ⟨hfresh, h.rest ⟨ht, ?_⟩ rfl (fun hq => by cases hq), rfl⟩
          intro j hj
          exact absurd hj (Nat.not_lt_zero j)
  | copy k =>
      have ht := h.taken
      rw [hpc] at ht
      obtain ⟨hread, hbelow⟩ := ht
      -- a part of a slot of this run
      have hlast : k < Snapshot.parts →
          ∀ j, (j < k + 1 ∨ g.last j = g.run) → (g.take l.snapshots (.copy k)).last j = g.run := by
        intro hk j hj
        by_cases hjk : j = k
        · subst hjk
          simp only [RunLog.take, Function.update_self]
          exact hread _ hk
        · simp only [RunLog.take, Function.update_of_ne hjk]
          rcases hj with hj | hj
          · exact hbelow j (by omega)
          · exact hj
      simp only [hpc] at hs
      split at hs <;> rename_i hk <;> simp only [Option.some.injEq, Prod.mk.injEq] at hs <;>
        obtain ⟨rfl, rfl⟩ := hs
      · refine ⟨hfresh, ⟨⟨hread, ?_⟩, ?_, fun hq => by cases hq⟩, rfl⟩
        · intro j hj
          exact hlast (by omega) j (Or.inl hj)
        · intro hh j hj
          exact hlast (by omega) j (Or.inr (h.kept hh j hj))
      · refine ⟨hfresh, ⟨trivial, ?_, fun hq => by cases hq⟩, rfl⟩
        intro _ j hj
        have hk' : k < Snapshot.parts ∨ Snapshot.parts ≤ k := lt_or_ge _ _
        rcases hk' with hk' | hk'
        · exact hlast hk' j (Or.inl (by omega))
        · simp only [RunLog.take, Function.update_of_ne (show j ≠ k by omega)]
          exact hbelow j (by omega)

/-! ## The ring, step by step -/

/-- A push adds at most one record. -/
theorem Ingest.stepFrames_pushed {l l' : Layout} {p p' : Ingest}
    (hs : p.stepFrames l = some (l', p')) : l.ring.pushed.length ≤ l'.ring.pushed.length := by
  have hpush : ∀ call : SpscRing.PushPc Record,
      l.ring.pushed.length ≤ (SpscRing.pushStep l.ring call).1.pushed.length := by
    intro call
    cases call with
    | loadRead v w =>
        simp only [SpscRing.pushStep]
        split <;> exact Nat.le_refl _
    | storeWrite v w => simp [SpscRing.pushStep]
    | _ => exact Nat.le_refl _
  cases Ingest.framesMove hs with
  | @access record call call' ring hpc hr =>
      have hle := hpush call
      rw [hr] at hle
      exact hle
  | @pushed record call call' ring hpc hr =>
      have hle := hpush call
      rw [hr] at hle
      exact hle
  | @full record call call' ring hpc hr =>
      have hle := hpush call
      rw [hr] at hle
      exact hle
  | _ => exact Nat.le_refl _

/-- The fast thread pushes nothing. -/
theorem FastMove.history {clock : UInt64} {l l' : Layout} {t t' : Fast}
    (h : FastMove clock l t l' t') :
    l'.ring.pushed = l.ring.pushed ∧ l.ring.popped.length ≤ l'.ring.popped.length := by
  have hpop : ∀ {ring : SpscRing Record kRingCapacity} {call call' : SpscRing.PopPc Record}
      {b : Option (Option Record)}, SpscRing.popStep l.ring call = (ring, call', b) →
      ring.pushed = l.ring.pushed ∧ l.ring.popped.length ≤ ring.popped.length := by
    intro ring call call' b hr
    obtain ⟨hp, hq⟩ := SpscRing.popStep_history hr
    refine ⟨hp, ?_⟩
    rw [hq, List.length_append]
    exact Nat.le_add_right _ _
  cases h with
  | access hpc hr => exact hpop hr
  | empty hpc hr => exact hpop hr
  | took hpc hr => exact hpop hr
  | _ => exact ⟨rfl, Nat.le_refl _⟩

namespace Pipeline

/-- Only the two ends of the ring touch it. -/
theorem ring_of_step {s s' : Pipeline} {a : Act} (hs : s.step a = some s') (hf : a ≠ .frames)
    (hfa : a ≠ .fast) : s'.layout.ring = s.layout.ring := by
  cases move_of_step hs with
  | frames hp hm hst => exact absurd rfl hf
  | fast hp ha hst => exact absurd rfl hfa
  | store hst =>
      obtain ⟨sh, g, sv, rfl⟩ := (supStep_stored hst).layout
      rfl
  | source hp hm hst =>
      obtain ⟨n, rfl⟩ := Ingest.stepSource_layout hst
      rfl
  | ingestMain hp hst =>
      obtain ⟨n, rfl⟩ := Ingest.stepMain_layout hst
      rfl
  | window hp ha hst =>
      obtain ⟨hb, ov, wd, wi, rfl⟩ := windowStep_layout hst
      rfl
  | snapshot hp ha hpc hst =>
      obtain ⟨hb, ov, sd, b, rfl⟩ := snapshotStep_layout hst
      rfl
  | handOver hp ha hpc hst =>
      obtain ⟨hb, ov, sd, b, rfl⟩ := snapshotStep_layout hst
      rfl
  | watchdog hp ha hst =>
      obtain ⟨f, rfl⟩ := watchdogStep_layout hst
      rfl
  | computeMain hp hst =>
      obtain ⟨cd, rfl⟩ := computeMainStep_layout hst
      rfl
  | publish hp hw hst =>
      obtain ⟨hb, b, rfl⟩ := Publish.step_layout hst
      rfl
  | _ => rfl

/-- The other steps leave the records' part of the log alone. -/
theorem noteRuns_records (g : RunLog) (s s' : Pipeline) {a : Act} (hr : a ≠ .rerun)
    (hf : a ≠ .frames) (hfa : a ≠ .fast) :
    (noteRuns g s a s').run = g.run ∧ (noteRuns g s a s').pushedIn = g.pushedIn
      ∧ (noteRuns g s a s').poppedIn = g.poppedIn := by
  cases a with
  | rerun => exact absurd rfl hr
  | frames => exact absurd rfl hf
  | fast => exact absurd rfl hfa
  | snapshot =>
      simp only [noteRuns]
      split
      · unfold RunLog.store
        split <;> exact ⟨rfl, rfl, rfl⟩
      · exact ⟨rfl, rfl, rfl⟩
  | publish =>
      simp only [noteRuns]
      split
      · unfold RunLog.take
        split <;> exact ⟨rfl, rfl, rfl⟩
      · exact ⟨rfl, rfl, rfl⟩
  | _ => exact ⟨rfl, rfl, rfl⟩

theorem runRing_step {s s' : Pipeline} {a : Act} {g : RunLog} (h : RunRing s.layout.ring g)
    (hi : Sound s) (hi' : Sound s') (hok : rerunsEmptied ⟨s, g⟩ a = true)
    (hs : s.step a = some s') : RunRing s'.layout.ring (noteRuns g s a s') := by
  by_cases hr : a = .rerun
  · subst hr
    have hring := ring_of_step hs (by simp) (by simp)
    simp only [rerunsEmptied, Bool.and_eq_true, decide_eq_true_eq] at hok
    rw [hring]
    exact h.rerun hi.calls.ring hok.1
  by_cases hf : a = .frames
  · subst hf
    cases move_of_step hs with
    | frames hp hm hst =>
        exact h.push (Ingest.stepFrames_pushed hst) (Ingest.stepFrames_popped hst)
  by_cases hfa : a = .fast
  · subst hfa
    cases move_of_step hs with
    | fast hp ha hst =>
        obtain ⟨hpushed, hpopped⟩ := (fastMove hst).history
        exact h.pop hpushed hpopped hi'.calls.ring.length_le
  · obtain ⟨hrun, hpi, hqi⟩ := noteRuns_records g s s' hr hf hfa
    rw [ring_of_step hs hf hfa]
    exact h.frame rfl rfl hpi hqi hrun

/-! ## The buffer, step by step -/

/-- Whatever is on its way to the output file is this run's. -/
structure RunBuffer (s : Pipeline) (g : RunLog) : Prop where
  range : TripleBuffer.InRange s.layout.snapshots s.pubCall s.conCall
  fresh : FreshIn s.layout.snapshots g
  filled : ∀ p, s.compute = .running p → FilledIn s.layout.snapshots g p.snapshot.pc
  publish : ∀ q, s.publish = .running q → PublishIn s.layout.snapshots g q
  written : s.written ≠ none → ∀ k < Snapshot.parts, g.written k = g.run

theorem runBuffer_start (replay : List UInt8) (clock : UInt64) :
    RunBuffer (start replay clock) .empty where
  range := TripleBuffer.inRange_init _
  fresh hne := absurd (by decide : (2 : UInt32) &&& TripleBuffer.kFresh = 0) hne
  filled p hp := by cases hp
  publish q hq := by cases hq
  written hne := absurd rfl hne

/-- Compute, as far as the buffer is concerned, is where it was, or has started, or is gone. -/
def SameWriter (c c' : Child Compute) : Prop :=
  ∀ p', c' = .running p' → p'.snapshot.pc = .testWindow
    ∨ ∃ p, c = .running p ∧ p'.snapshot.pc = p.snapshot.pc

/-- A step that leaves the buffer, publish and the file alone. -/
theorem RunBuffer.calm {s s' : Pipeline} {g : RunLog} (h : RunBuffer s g)
    (hb : s'.layout.snapshots = s.layout.snapshots) (hcom : SameWriter s.compute s'.compute)
    (hpub : s'.publish = s.publish) (hw : s'.written = s.written) : RunBuffer s' g := by
  refine ⟨?_, ?_, ?_, ?_, ?_⟩
  · have hr := h.range
    have hcon : s'.conCall = s.conCall := by unfold conCall; rw [hpub]
    rw [hb, hcon]
    cases hc : s'.compute with
    | running p' =>
        have hp' : s'.pubCall = p'.snapshot.pc.pubCall := by simp [pubCall, hc]
        rw [hp']
        rcases hcom p' hc with hpc | ⟨p, hp, hpc⟩
        · rw [hpc]
          exact hr.dropPub
        · rw [hpc]
          simpa [pubCall, hp] using hr
    | _ =>
        have hidle : s'.pubCall = .idle := by simp [pubCall, hc]
        rw [hidle]
        exact hr.dropPub
  · rw [hb]
    exact h.fresh
  · intro p' hp'
    rw [hb]
    rcases hcom p' hp' with hpc | ⟨p, hp, hpc⟩
    · rw [hpc]
      trivial
    · rw [hpc]
      exact h.filled p hp
  · rw [hb, hpub]
    exact h.publish
  · rw [hw]
    exact h.written

/-- Publish starts, ends, or gives up writing. -/
theorem RunBuffer.newPublish {s s' : Pipeline} {g : RunLog} (h : RunBuffer s g)
    (hb : s'.layout.snapshots = s.layout.snapshots) (hcom : s'.compute = s.compute)
    (hpub : ∀ q', s'.publish = .running q' →
      q'.pc.conCall = .idle ∧ PublishIn s.layout.snapshots g q')
    (hw : s'.written = s.written) : RunBuffer s' g := by
  refine ⟨?_, ?_, ?_, ?_, ?_⟩
  · have hr := h.range
    have hp : s'.pubCall = s.pubCall := by unfold pubCall; rw [hcom]
    have hidle : s'.conCall = .idle := by
      unfold conCall
      split
      · rename_i q' hq'
        exact (hpub q' hq').1
      · rfl
    rw [hb, hp, hidle]
    exact hr.dropCon
  · rw [hb]
    exact h.fresh
  · rw [hb, hcom]
    exact h.filled
  · intro q' hq'
    rw [hb]
    exact (hpub q' hq').2
  · rw [hw]
    exact h.written

/-- The records' part of the log does not matter here. -/
theorem RunBuffer.ofLog {s : Pipeline} {g g' : RunLog} (h : RunBuffer s g)
    (hrun : g'.run = g.run) (hslot : g'.slot = g.slot) (hlast : g'.last = g.last)
    (hwritten : g'.written = g.written) : RunBuffer s g' := by
  obtain ⟨run, pushedIn, poppedIn, slot, last, written⟩ := g
  obtain ⟨run', pushedIn', poppedIn', slot', last', written'⟩ := g'
  simp only at hrun hslot hlast hwritten
  subst hrun hslot hlast hwritten
  exact ⟨h.range, h.fresh, h.filled, fun q hq => ⟨(h.publish q hq).taken, (h.publish q hq).kept,
    (h.publish q hq).write⟩, h.written⟩

theorem sameWriter_of_snapshot {c : Child Compute} {p p' : Compute} (hp : c = .running p)
    (h : p'.snapshot = p.snapshot) : SameWriter c (.running p') := by
  intro q hq
  obtain rfl := Child.running.inj hq
  exact Or.inr ⟨p, hp, by rw [h]⟩

theorem sameWriter_refl (c : Child Compute) : SameWriter c c := fun p' hp' => Or.inr ⟨p', hp', rfl⟩

theorem sameWriter_gone {c c' : Child Compute} (h : ∀ p, c' ≠ .running p) : SameWriter c c' :=
  fun p' hp' => absurd hp' (h p')

/-- A step of the snapshot thread, on the system. -/
theorem RunBuffer.snapshot {s s' : Pipeline} {g : RunLog} {p : Compute} {t' : SnapshotThread}
    (h : RunBuffer s g) (hp : s.compute = .running p)
    (hst : snapshotStep s.clock s.layout p.snapshot = some (s'.layout, t'))
    (hc : s'.compute = .running { p with snapshot := t' }) (hpub : s'.publish = s.publish)
    (hw : s'.written = s.written) : RunBuffer s' (g.store s.layout.snapshots p.snapshot.pc) := by
  have hrange : TripleBuffer.InRange s.layout.snapshots p.snapshot.pc.pubCall s.conCall := by
    simpa [pubCall, hp] using h.range
  have hcon : s'.conCall = s.conCall := by unfold conCall; rw [hpub]
  have hcall : s'.pubCall = t'.pc.pubCall := by simp [pubCall, hc]
  obtain ⟨hfresh, hfill, hread, hmid⟩ :=
    (snapshotMove hst).runLog hrange h.fresh (h.filled p hp)
  refine ⟨?_, hfresh, ?_, ?_, ?_⟩
  · rw [hcon, hcall]
    exact snapshotStep_inRange hrange hst
  · intro q hq
    rw [hc] at hq
    obtain rfl := Child.running.inj hq
    exact hfill
  · intro q hq
    rw [hpub] at hq
    exact (h.publish q hq).store.frame hread hmid
  · rw [hw, RunLog.store_written, RunLog.store_run]
    exact h.written

/-- A step of publish, away from the output file, on the system. -/
theorem RunBuffer.publishStep {s : Pipeline} {g : RunLog} {q q' : Publish} {l' : Layout}
    (h : RunBuffer s g) (hq : s.publish = .running q) (hw : q.pc.filing = false)
    (hst : q.step s.layout = some (l', q')) :
    RunBuffer (s.withPublish (l', q')) (g.take s.layout.snapshots q.pc) := by
  have hrange : TripleBuffer.InRange s.layout.snapshots s.pubCall q.pc.conCall := by
    simpa [conCall, hq] using h.range
  obtain ⟨hfresh, hpub, hwrite⟩ := q.step_runLog hst hw hrange h.fresh (h.publish q hq)
  -- the parts in the slots are as they were
  have hslot : (g.take s.layout.snapshots q.pc).slot = g.slot
      ∧ (g.take s.layout.snapshots q.pc).run = g.run
      ∧ (g.take s.layout.snapshots q.pc).written = g.written := by
    unfold RunLog.take
    split
    · exact ⟨rfl, rfl, rfl⟩
    · rename_i hpc
      simp [hpc, PublishPc.filing] at hw
    · exact ⟨rfl, rfl, rfl⟩
  refine ⟨Publish.step_inRange hrange hst, hfresh, ?_, ?_, ?_⟩
  · intro p hp
    have hfill := h.filled p hp
    have hwrite' : (s.withPublish (l', q')).layout.snapshots.write = s.layout.snapshots.write :=
      hwrite
    unfold FilledIn at hfill ⊢
    split
    · rename_i k hpc
      rw [hpc] at hfill
      rw [hwrite', hslot.1, hslot.2.1]
      exact hfill
    · rename_i hpc
      rw [hpc] at hfill
      unfold RunLog.current at hfill ⊢
      rw [hwrite', hslot.1, hslot.2.1]
      exact hfill
    · trivial
  · intro r hr
    obtain rfl := Child.running.inj hr
    exact hpub
  · rw [hslot.2.2, hslot.2.1]
    exact h.written

theorem runBuffer_step {s s' : Pipeline} {a : Act} {g : RunLog} (h : RunBuffer s g)
    (hok : rerunsEmptied ⟨s, g⟩ a = true) (hs : s.step a = some s') :
    RunBuffer s' (noteRuns g s a s') := by
  cases move_of_step hs with
  | snapshot hp ha hpc hst =>
      simp only [noteRuns, hp]
      exact h.snapshot hp hst rfl rfl rfl
  | handOver hp ha hpc hst =>
      simp only [noteRuns, hp]
      exact h.snapshot hp hst rfl rfl rfl
  | publish hq hw hst =>
      simp only [noteRuns, hq]
      exact h.publishStep hq hw hst
  | @publishOpen q hq hc =>
      -- the file is empty, so there is nothing in it to be of any run
      have hp := h.publish q hq
      simp only [noteRuns, hq, hc, RunLog.take]
      have hrest : RunBuffer (s.withPublish (s.layout, { q with pc := .write })) g := by
        refine h.newPublish rfl rfl ?_ rfl
        intro q' hq'
        obtain rfl := Child.running.inj hq'
        exact ⟨rfl, trivial, hp.kept, fun _ => hp.write (by rw [hc]; rfl)⟩
      exact ⟨hrest.range, hrest.fresh, hrest.filled, hrest.publish, fun hne => absurd rfl hne⟩
  | @publishWrite q hq hw =>
      -- the copy is complete, so what is written is this run's
      have hp := h.publish q hq
      have hkept := hp.kept (hp.write (by rw [hw]; rfl))
      simp only [noteRuns, hq, hw, RunLog.take]
      have hrest : RunBuffer (s.withPublish (s.layout, { q with pc := .exit 0 })) g := by
        refine h.newPublish rfl rfl ?_ rfl
        intro q' hq'
        obtain rfl := Child.running.inj hq'
        exact ⟨rfl, trivial, hp.kept, fun hq' => by cases hq'⟩
      refine ⟨hrest.range, hrest.fresh, hrest.filled, fun r hr => ?_, fun _ => hkept⟩
      have hr' := hrest.publish r hr
      exact ⟨hr'.taken, hr'.kept, hr'.write⟩
  | @openFails q hq hc =>
      refine h.newPublish rfl rfl ?_ rfl
      intro q' hq'
      obtain rfl := Child.running.inj hq'
      exact ⟨rfl, trivial, (h.publish q hq).kept, fun hq' => by cases hq'⟩
  | spawnPublish hsup =>
      refine h.newPublish rfl rfl ?_ rfl
      intro q' hq'
      obtain rfl := Child.running.inj hq'
      exact ⟨rfl, trivial, fun hh => absurd hh (by decide), fun hq' => by cases hq'⟩
  | noPublish hsup => exact h.newPublish rfl rfl (fun q' hq' => by cases hq') rfl
  | publishExit hq hc =>
      simp only [noteRuns, hq, hc, RunLog.take]
      exact h.newPublish rfl rfl (fun q' hq' => by cases hq') rfl
  | publishRefused hq hc => exact h.newPublish rfl rfl (fun q' hq' => by cases hq') rfl
  | killPublish hq => exact h.newPublish rfl rfl (fun q' hq' => by cases hq') rfl
  | spawnCompute hsup =>
      refine h.calm rfl ?_ rfl rfl
      intro p' hp'
      obtain rfl := Child.running.inj hp'
      exact Or.inl rfl
  | noCompute hsup => exact h.calm rfl (sameWriter_gone (by simp)) rfl rfl
  | computeExit hp hm => exact h.calm rfl (sameWriter_gone (by simp)) rfl rfl
  | computeCrash hp hm => exact h.calm rfl (sameWriter_gone (by simp)) rfl rfl
  | computeRefused hp hm => exact h.calm rfl (sameWriter_gone (by simp)) rfl rfl
  | killCompute hp => exact h.calm rfl (sameWriter_gone (by simp)) rfl rfl
  | rerun hsup =>
      simp only [rerunsEmptied, Bool.and_eq_true, decide_eq_true_eq] at hok
      refine ⟨h.range.dropPub.dropCon, fun hne => absurd hok.2 hne, fun p hp => ?_,
        fun q hq => ?_, fun hne => absurd rfl hne⟩
      · cases hp
      · cases hq
  | fast hp ha hst =>
      obtain ⟨hb, hc, ov, fd, r, la, rfl⟩ := fastStep_layout hst
      refine RunBuffer.ofLog (g := g) ?_ rfl rfl rfl rfl
      exact h.calm rfl (sameWriter_of_snapshot hp rfl) rfl rfl
  | window hp ha hst =>
      obtain ⟨hb, ov, wd, wi, rfl⟩ := windowStep_layout hst
      exact h.calm rfl (sameWriter_of_snapshot hp rfl) rfl rfl
  | watchdog hp ha hst =>
      obtain ⟨f, rfl⟩ := watchdogStep_layout hst
      exact h.calm rfl (sameWriter_of_snapshot hp rfl) rfl rfl
  | computeMain hp hst =>
      obtain ⟨cd, rfl⟩ := computeMainStep_layout hst
      exact h.calm rfl (sameWriter_of_snapshot hp rfl) rfl rfl
  | frames hp hm hst =>
      obtain ⟨r, rfl⟩ := Ingest.stepFrames_layout hst
      refine RunBuffer.ofLog (g := g) ?_ rfl rfl rfl rfl
      exact h.calm rfl (sameWriter_refl _) rfl rfl
  | store hst =>
      obtain ⟨sh, gen, sv, rfl⟩ := (supStep_stored hst).layout
      exact h.calm rfl (sameWriter_refl _) rfl rfl
  | source hp hm hst =>
      obtain ⟨n, rfl⟩ := Ingest.stepSource_layout hst
      exact h.calm rfl (sameWriter_refl _) rfl rfl
  | ingestMain hp hst =>
      obtain ⟨n, rfl⟩ := Ingest.stepMain_layout hst
      exact h.calm rfl (sameWriter_refl _) rfl rfl
  | _ => exact h.calm rfl (sameWriter_refl _) rfl rfl

theorem runs_reachable {x : Transition.Noted Pipeline RunLog} (h : ReachableEmptied x) :
    RunRing x.now.layout.ring x.past ∧ RunBuffer x.now x.past := by
  refine Transition.ReachableNoted.invariant
    (I := fun s g => RunRing s.layout.ring g ∧ RunBuffer s g) ?_ ?_ h
  · rintro _ ⟨replay, clock, rfl⟩
    exact ⟨runRing_init, runBuffer_start replay clock⟩
  · intro x a s' hr hi hok hs
    have hsound := sound_reachable hr
    exact ⟨runRing_step hi.1 hsound (sound_step hsound hs) hok hs, runBuffer_step hi.2 hok hs⟩

/--
**A rerun that finds the ring empty and the fresh bit clear starts clean.**

In every run over any number of pipelines all of whose reruns do, with any statuses,
spawns failing and processes killed anywhere: every record popped was pushed by the
ingest of the run that popped it, the `i`-th popped being the `i`-th pushed; and every
part of a snapshot that publish has written out was stored by the compute of the run
that wrote it.
-/
theorem reruns_start_clean {x : Transition.Noted Pipeline RunLog} (h : ReachableEmptied x) :
    x.past.poppedIn.length = x.now.layout.ring.popped.length
      ∧ x.past.pushedIn.length = x.now.layout.ring.pushed.length
      ∧ x.now.layout.ring.popped <+: x.now.layout.ring.pushed
      ∧ (∀ (i n : Nat), x.past.poppedIn[i]? = some n → x.past.pushedIn[i]? = some n)
      ∧ (x.now.written ≠ none → ∀ k < Snapshot.parts, x.past.written k = x.past.run) := by
  obtain ⟨hring, hbuf⟩ := runs_reachable h
  have hinv := (sound_reachable (Transition.ReachableNoted.now h)).calls.ring
  refine ⟨hring.popped, hring.pushed, hinv.popped_prefix, ?_, hbuf.written⟩
  intro i n hn
  obtain ⟨hi, rfl⟩ := List.getElem?_eq_some_iff.mp hn
  exact List.prefix_iff_getElem?.mp hring.own i hi

/-- The attempts of a pipeline in which compute cannot be spawned. -/
def noAttempts : List Act :=
  (List.replicate 3 [Act.spawnFails, .sup 0, .sup 0, .sup 0, .sup 0]).flatten

/-- Ingest attaches, pushes the one record of its file, and ends. -/
def pushesOne : List Act :=
  [Act.ingestMain] ++ List.replicate 6 Act.source ++ List.replicate 7 Act.frames
    ++ List.replicate 4 Act.ingestMain

/-- Nothing can be spawned; then a rerun in which everything goes well. -/
def rerunDelivers : List Act :=
  List.flatten [[.spawnFails, .sup 0, .spawnFails, .sup 0], noAttempts, List.replicate 4 (.sup 0),
    [.rerun], List.replicate 6 (.sup 7), pushesOne, List.replicate 2 .computeMain,
    List.replicate 30 .fast, List.replicate 457 .window, List.replicate 328 .snapshot,
    [.watchdog], List.replicate 5 .computeMain, List.replicate 74 .publish]

theorem reruns_start_clean_delivers :
    ∃ x, ReachableEmptied x ∧ x.past.run = 1 ∧ x.past.poppedIn = [1]
      ∧ x.past.pushedIn[0]? = some 1 ∧ x.now.written.isSome = true
      ∧ ∀ k < Snapshot.parts, x.past.written k = 1 := by
  have h : (Transition.execWhen (Transition.notedStep step noteRuns) rerunsEmptied
      ⟨start (IngestRun.copies 1) 1, .empty⟩ rerunDelivers).any
      (fun x => decide (x.past.run = 1) && decide (x.past.poppedIn = [1])
        && x.now.written.isSome) = true := by
    decide +kernel
  obtain ⟨x, hrun, hx⟩ := Option.any_eq_true _ _ |>.mp h
  simp only [Bool.and_eq_true, decide_eq_true_eq] at hx
  obtain ⟨⟨hone, hpop⟩, hw⟩ := hx
  have hr : ReachableEmptied x :=
    Transition.ReachableNoted.execWhen (fun _ _ hg => hg) ⟨_, _, rfl⟩ hrun
  obtain ⟨_, _, _, hown, hwritten⟩ := reruns_start_clean hr
  refine ⟨x, hr, hone, hpop, hown 0 1 (by rw [hpop]; rfl), hw, ?_⟩
  intro k hk
  rw [← hone]
  exact hwritten (Option.isSome_iff_ne_none.mp hw) k hk

/-- Ingest pushes its record, and no attempt of compute takes it; the rerun's fast thread
does. -/
def leavesRecord : List Act :=
  List.flatten [[.sup 7, .sup 0, .spawnFails, .sup 0], pushesOne, noAttempts,
    List.replicate 4 (.sup 0), [.rerun, .spawnFails, .sup 0, .spawnFails, .sup 0, .sup 7],
    List.replicate 2 .computeMain, List.replicate 8 .fast]

/-- There is no publish to take the snapshot; the rerun's publish takes it, and writes it out
although the rerun has no compute. -/
def leavesSnapshot : List Act :=
  List.flatten [[.sup 7, .sup 0, .spawnFails, .sup 0, .sup 7, .sup 0],
    [.ingestMain, .source, .source, .frames], List.replicate 4 .ingestMain,
    List.replicate 2 .computeMain, List.replicate 9 .fast, List.replicate 452 .window,
    List.replicate 328 .snapshot, [.watchdog], List.replicate 7 .computeMain,
    List.replicate 7 (.sup 0), [.rerun, .spawnFails, .sup 0, .sup 7, .sup 0],
    List.replicate 72 .publish, noAttempts, List.replicate 3 .publish]

theorem reruns_find_leftovers :
    (∃ x, Transition.ReachableNoted step noteRuns (fun _ _ => True) Start .empty x
        ∧ x.past.poppedIn = [1] ∧ x.past.pushedIn = [0])
      ∧ ∃ x, Transition.ReachableNoted step noteRuns (fun _ _ => True) Start .empty x
        ∧ x.past.run = 1 ∧ x.now.written.isSome = true
        ∧ ∀ k < Snapshot.parts, x.past.written k = 0 := by
  constructor
  · have h : (Transition.execWhen (Transition.notedStep step noteRuns) (fun _ _ => true)
        ⟨start (IngestRun.copies 1) 1, .empty⟩ leavesRecord).any
        (fun x => decide (x.past.poppedIn = [1]) && decide (x.past.pushedIn = [0])) = true := by
      decide +kernel
    obtain ⟨x, hrun, hx⟩ := Option.any_eq_true _ _ |>.mp h
    simp only [Bool.and_eq_true, decide_eq_true_eq] at hx
    exact ⟨x, Transition.ReachableNoted.execWhen (fun _ _ _ => trivial) ⟨_, _, rfl⟩ hrun, hx⟩
  · have h : (Transition.execWhen (Transition.notedStep step noteRuns) (fun _ _ => true)
        ⟨start [] 1, .empty⟩ leavesSnapshot).any
        (fun x => decide (x.past.run = 1) && x.now.written.isSome
          && (List.range Snapshot.parts).all fun k => x.past.written k == 0) = true := by
      decide +kernel
    obtain ⟨x, hrun, hx⟩ := Option.any_eq_true _ _ |>.mp h
    rw [Bool.and_eq_true, Bool.and_eq_true, decide_eq_true_eq, List.all_eq_true] at hx
    refine ⟨x, Transition.ReachableNoted.execWhen (fun _ _ _ => trivial) ⟨_, _, rfl⟩ hrun, hx.1.1,
      hx.1.2, ?_⟩
    intro k hk
    exact beq_iff_eq.mp (hx.2 k (List.mem_range.mpr hk))

end Pipeline

end RateHub
