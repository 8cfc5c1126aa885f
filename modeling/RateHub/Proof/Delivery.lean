import RateHub.Process.Compute
import RateHub.Process.Publish
import RateHub.Sync.TripleBufferProof

/-!
# From the snapshot thread to the output file

The path of one snapshot: the snapshot thread copies it into its write slot part by
part and exchanges the slot for the spare; publish finds the fresh bit, takes the slot
with its own exchange, copies it out part by part, and writes its copy.

Nothing here assumes that the two sides own different slots. A writer that died
between its exchange and its index store leaves its successor with a slot the reader
may be using, but the successor fills that slot only before its own exchange, and
from there on `InFlight` follows the snapshot wherever it is.
-/

namespace RateHub

/-! ## Copying part by part -/

/-- The parts below `k` of `dst` are those of `src`. -/
structure Copied (k : Nat) (src dst : Snapshot) : Prop where
  generation : 0 < k → dst.generation = src.generation
  rows : ∀ id : Fin kMaxSources, id.val + 1 < k → dst.rows id = src.rows id

theorem copied_zero (src dst : Snapshot) : Copied 0 src dst :=
  ⟨fun h => absurd h (Nat.lt_irrefl 0), fun _ h => absurd h (Nat.not_lt_zero _)⟩

theorem Copied.part {k : Nat} {src dst : Snapshot} (h : Copied k src dst) :
    Copied (k + 1) src (src.copyPart dst k) := by
  cases k with
  | zero => exact ⟨fun _ => rfl, fun id hid => absurd hid (by omega)⟩
  | succ k =>
      refine ⟨fun _ => h.generation (Nat.succ_pos k), ?_⟩
      intro id hid
      simp only [Snapshot.copyPart]
      split
      · rfl
      · exact h.rows id (by omega)

theorem Copied.eq {src dst : Snapshot} (h : Copied Snapshot.parts src dst) : dst = src := by
  have hrows : dst.rows = src.rows := by
    funext id
    exact h.rows id (Nat.succ_lt_succ id.isLt)
  have hgen := h.generation (by decide)
  cases dst
  cases src
  simp only at hrows hgen
  rw [hrows, hgen]

/-! ## The index words -/

namespace TripleBuffer

variable {T : Type}

/-- The indexes are slot numbers, also those an exchange has taken and not stored yet. -/
structure InRange (b : TripleBuffer T) (p : PubPc) (c : ConsumePc) : Prop where
  write : ∃ i, b.write = slotIx i
  read : ∃ i, b.read = slotIx i
  middle : ∃ i f, b.middle = middleWord i f
  pub : ∀ old, p = .update old → ∃ i f, old = middleWord i f
  con : ∀ old, c = .update old → ∃ i f, old = middleWord i f

theorem inRange_init (zero : T) : InRange (init zero) .idle .idle :=
  ⟨⟨0, rfl⟩, ⟨1, rfl⟩, ⟨2, false, rfl⟩, by simp, by simp⟩

theorem InRange.dropPub {b : TripleBuffer T} {p : PubPc} {c : ConsumePc} (h : InRange b p c) :
    InRange b .idle c :=
  ⟨h.write, h.read, h.middle, by simp, h.con⟩

theorem InRange.dropCon {b : TripleBuffer T} {p : PubPc} {c : ConsumePc} (h : InRange b p c) :
    InRange b p .idle :=
  ⟨h.write, h.read, h.middle, h.pub, by simp⟩

theorem InRange.publishStep {b : TripleBuffer T} {p : PubPc} {c : ConsumePc} (h : InRange b p c) :
    InRange (publishStep b p).1 (publishStep b p).2 c := by
  cases p with
  | idle => exact h
  | exchange =>
      obtain ⟨i, hi⟩ := h.write
      refine ⟨h.write, h.read, ⟨i, true, ?_⟩, ?_, h.con⟩
      · simp only [TripleBuffer.publishStep, hi]
        exact slotIx_or_fresh i
      · intro old hold
        obtain rfl := PubPc.update.inj hold
        exact h.middle
  | update old =>
      obtain ⟨i, f, hold⟩ := h.pub old rfl
      refine ⟨⟨i, ?_⟩, h.read, h.middle, by simp [TripleBuffer.publishStep], h.con⟩
      simp only [TripleBuffer.publishStep, hold]
      exact middleWord_index i f

theorem InRange.consumeStep {b : TripleBuffer T} {p : PubPc} {c : ConsumePc} (h : InRange b p c) :
    InRange (consumeStep b c).1 p (consumeStep b c).2.1 := by
  cases c with
  | idle => exact h
  | loadFresh =>
      simp only [TripleBuffer.consumeStep]
      split
      · exact h.dropCon
      · exact ⟨h.write, h.read, h.middle, h.pub, by simp⟩
  | exchange =>
      obtain ⟨i, hi⟩ := h.read
      refine ⟨h.write, h.read, ⟨i, false, ?_⟩, h.pub, ?_⟩
      · simp only [TripleBuffer.consumeStep, hi]
        exact slotIx_toUInt32 i
      · intro old hold
        obtain rfl := ConsumePc.update.inj hold
        exact h.middle
  | update old =>
      obtain ⟨i, f, hold⟩ := h.con old rfl
      refine ⟨h.write, ⟨i, ?_⟩, h.middle, h.pub, by simp [TripleBuffer.consumeStep]⟩
      simp only [TripleBuffer.consumeStep, hold]
      exact middleWord_index i f

/-- A publish's exchange leaves its slot in the spare, with the fresh bit set. -/
theorem InRange.exchanged {b : TripleBuffer T} {p : PubPc} {c : ConsumePc} (h : InRange b p c) :
    (b.write.toUInt32 ||| kFresh) &&& kFresh ≠ 0
      ∧ ((b.write.toUInt32 ||| kFresh) &&& kIndexMask).toUInt64 = b.write := by
  obtain ⟨i, hi⟩ := h.write
  rw [hi, slotIx_or_fresh]
  refine ⟨?_, middleWord_index i true⟩
  rw [Ne, middleWord_fresh]
  simp

/-- A consume's exchange leaves the fresh bit clear. -/
theorem InRange.cleared {b : TripleBuffer T} {p : PubPc} {c : ConsumePc} (h : InRange b p c) :
    b.read.toUInt32 &&& kFresh = 0 := by
  obtain ⟨i, hi⟩ := h.read
  rw [hi, slotIx_toUInt32, middleWord_fresh]

end TripleBuffer

/-! ## The snapshot thread's half -/

/-- The call of `snapshots.publish()` in progress. -/
def SnapshotPc.pubCall : SnapshotPc → TripleBuffer.PubPc
  | .publish call => call
  | _ => .idle

/-- Past the exchange. -/
def SnapshotPc.handed : SnapshotPc → Bool
  | .publish .exchange => false
  | .publish _ => true
  | .lastBeat => true
  | .storeLastBeat _ => true
  | .storeDone => true
  | .done => true
  | _ => false

theorem SnapshotPc.handed_of_isDone {pc : SnapshotPc} (h : pc.isDone = true) :
    pc.handed = true := by
  cases pc with
  | done => rfl
  | _ => cases h

/-- How much of `snap` is in the write slot. -/
def FillOk (b : TripleBuffer Snapshot) (t : SnapshotThread) : Prop :=
  match t.pc with
  | .fill k => k < Snapshot.parts ∧ Copied k t.snap (b.slots b.write)
  | .publish .exchange => b.slots b.write = t.snap
  | _ => True

theorem snapshotPc_next_pubCall (id : Fin kMaxSources) : (SnapshotPc.next id).pubCall = .idle := by
  unfold SnapshotPc.next
  split <;> rfl

/-- The snapshot thread keeps the index words in range. -/
theorem snapshotStep_inRange {clock : UInt64} {l l' : Layout} {t t' : SnapshotThread}
    {c : TripleBuffer.ConsumePc} (h : TripleBuffer.InRange l.snapshots t.pc.pubCall c)
    (hs : snapshotStep clock l t = some (l', t')) :
    TripleBuffer.InRange l'.snapshots t'.pc.pubCall c := by
  unfold snapshotStep at hs
  cases hpc : t.pc with
  | publish call =>
      rw [hpc] at h
      have hpub : TripleBuffer.InRange _ _ c := TripleBuffer.InRange.publishStep h
      simp only [hpc] at hs
      split at hs <;> rename_i hr <;> rw [SnapshotPc.pubCall, hr] at hpub <;>
        simp only [Option.some.injEq, Prod.mk.injEq] at hs <;> obtain ⟨rfl, rfl⟩ := hs
      · exact hpub
      · exact hpub
  | fill k =>
      simp only [hpc, Option.some.injEq, Prod.mk.injEq] at hs
      obtain ⟨rfl, rfl⟩ := hs
      have hnext : ∀ old, (if k + 1 < Snapshot.parts then SnapshotPc.fill (k + 1)
          else .publish .exchange).pubCall ≠ .update old := by
        intro old
        split <;> simp [SnapshotPc.pubCall]
      exact ⟨h.write, h.read, h.middle, fun old hold => absurd hold (hnext old), h.con⟩
  | load id row call =>
      simp only [hpc] at hs
      split at hs <;> simp only [Option.some.injEq, Prod.mk.injEq] at hs <;>
        obtain ⟨rfl, rfl⟩ := hs
      · exact h.dropPub
      · rw [snapshotPc_next_pubCall]; exact h.dropPub
      · rw [snapshotPc_next_pubCall]; exact h.dropPub
  | _ =>
      simp only [hpc] at hs
      (try split at hs) <;> try simp only [Option.some.injEq, Prod.mk.injEq, reduceCtorEq] at hs
      all_goals
        obtain ⟨rfl, rfl⟩ := hs
        exact h.dropPub

/-- Nothing is stored yet when the rows have been collected. -/
theorem fillOk_next (b : TripleBuffer Snapshot) {t : SnapshotThread} {id : Fin kMaxSources}
    (h : t.pc = .next id) : FillOk b t := by
  unfold SnapshotPc.next at h
  split at h
  · simp only [FillOk, h]
  · simp only [FillOk, h]
    exact ⟨by decide, copied_zero _ _⟩

/-- Before the exchange, the thread keeps count of the parts it has stored. -/
theorem snapshotStep_fillOk {clock : UInt64} {l l' : Layout} {t t' : SnapshotThread}
    (h : FillOk l.snapshots t) (hs : snapshotStep clock l t = some (l', t')) :
    FillOk l'.snapshots t' := by
  unfold snapshotStep at hs
  cases hpc : t.pc with
  | fill k =>
      simp only [FillOk, hpc] at h
      simp only [hpc, Option.some.injEq, Prod.mk.injEq] at hs
      obtain ⟨rfl, rfl⟩ := hs
      have hpart := h.2.part
      have hslot : (l.snapshots.fill fun slot => t.snap.copyPart slot k).slots
          (l.snapshots.fill fun slot => t.snap.copyPart slot k).write
          = t.snap.copyPart (l.snapshots.slots l.snapshots.write) k := by
        simp [TripleBuffer.fill]
      unfold FillOk
      split
      · rename_i j hj
        simp only at hj
        split at hj
        · rename_i hlt
          obtain rfl := SnapshotPc.fill.inj hj
          exact ⟨hlt, by rw [hslot]; exact hpart⟩
        · cases hj
      · rename_i hj
        simp only at hj
        split at hj
        · cases hj
        · rename_i hge
          have hk : k + 1 = Snapshot.parts := by omega
          rw [hslot]
          exact (hk ▸ hpart).eq
      · trivial
  | load id row call =>
      simp only [hpc] at hs
      split at hs <;> simp only [Option.some.injEq, Prod.mk.injEq] at hs <;>
        obtain ⟨rfl, rfl⟩ := hs
      · trivial
      · exact fillOk_next _ rfl
      · exact fillOk_next _ rfl
  | publish call =>
      cases call with
      | _ =>
          simp only [hpc, TripleBuffer.publishStep] at hs
          simp only [Option.some.injEq, Prod.mk.injEq] at hs
          obtain ⟨rfl, rfl⟩ := hs
          trivial
  | _ =>
      simp only [hpc] at hs
      (try split at hs) <;> try simp only [Option.some.injEq, Prod.mk.injEq, reduceCtorEq] at hs
      all_goals
        obtain ⟨rfl, rfl⟩ := hs
        trivial

/-! ## Publish's half -/

/-- The call of `snapshots.consume()` in progress. -/
def PublishPc.conCall : PublishPc → TripleBuffer.ConsumePc
  | .consume call => call
  | _ => .idle

/-- Before the end of the loop. -/
def PublishPc.inLoop : PublishPc → Bool
  | .openFile => false
  | .write => false
  | .exit _ => false
  | _ => true

/-- Inside the loop, outside any use of the buffer, or at the output file. -/
def PublishPc.resting : PublishPc → Bool
  | .beat => true
  | .testDone => true
  | .test => true
  | .openFile => true
  | .write => true
  | .consume .loadFresh => true
  | _ => false

/-- Where a snapshot that was handed over is, as seen from publish. -/
inductive InFlight (b : TripleBuffer Snapshot) (written : Option Snapshot) (snap : Snapshot)
    (p : Publish) : Prop
  /-- In the spare slot, with the fresh bit set. -/
  | waiting (hfresh : b.middle &&& TripleBuffer.kFresh ≠ 0)
      (hslot : b.slots (b.middle &&& TripleBuffer.kIndexMask).toUInt64 = snap)
      (hloop : p.pc.inLoop = true)
  /-- Taken by the exchange, the index not stored yet. -/
  | taken (old : UInt32) (hclear : b.middle &&& TripleBuffer.kFresh = 0)
      (hpc : p.pc = .consume (.update old))
      (hslot : b.slots (old &&& TripleBuffer.kIndexMask).toUInt64 = snap)
  /-- In the read slot, being copied out. -/
  | copying (k : Nat) (hclear : b.middle &&& TripleBuffer.kFresh = 0) (hpc : p.pc = .copy k)
      (hk : k < Snapshot.parts) (hslot : b.slots b.read = snap) (hcopied : Copied k snap p.last)
  /-- In `last`. -/
  | kept (hclear : b.middle &&& TripleBuffer.kFresh = 0) (hlast : p.last = snap)
      (hhave : p.have_ = true) (hpc : p.pc.resting = true)
  /-- In the output file. -/
  | wrote (hw : written = some snap) (hpc : ∃ c, p.pc = .exit c)
  /-- The output file could not be opened. -/
  | lost (hpc : ∃ c, c ≠ 0 ∧ p.pc = .exit c)

/-- Publish keeps the index words in range. -/
theorem Publish.step_inRange {l l' : Layout} {p p' : Publish} {c : TripleBuffer.PubPc}
    (h : TripleBuffer.InRange l.snapshots c p.pc.conCall) (hs : p.step l = some (l', p')) :
    TripleBuffer.InRange l'.snapshots c p'.pc.conCall := by
  have hleave : p.leave.pc.conCall = .idle := by
    unfold Publish.leave
    split <;> rfl
  unfold Publish.step at hs
  cases hpc : p.pc with
  | consume call =>
      rw [hpc] at h
      have hcon : TripleBuffer.InRange _ c _ := TripleBuffer.InRange.consumeStep h
      simp only [hpc] at hs
      split at hs <;> rename_i hr <;> rw [PublishPc.conCall, hr] at hcon <;>
        simp only [Option.some.injEq, Prod.mk.injEq] at hs <;> obtain ⟨rfl, rfl⟩ := hs
      · exact hcon
      · exact hcon.dropCon
      · exact hcon.dropCon
  | test =>
      simp only [hpc] at hs
      split at hs <;> simp only [Option.some.injEq, Prod.mk.injEq] at hs <;>
        obtain ⟨rfl, rfl⟩ := hs
      · exact ⟨h.write, h.read, h.middle, h.pub, by simp [PublishPc.conCall]⟩
      · rw [hleave]; exact h.dropCon
  | testDone =>
      simp only [hpc] at hs
      split at hs <;> simp only [Option.some.injEq, Prod.mk.injEq] at hs <;>
        obtain ⟨rfl, rfl⟩ := hs
      · rw [hleave]; exact h.dropCon
      · exact h.dropCon
  | _ =>
      simp only [hpc] at hs
      (try split at hs) <;> try simp only [Option.some.injEq, Prod.mk.injEq, reduceCtorEq] at hs
      all_goals
        obtain ⟨rfl, rfl⟩ := hs
        exact h.dropCon

/-- Publish stores to no slot, and not to the writer's index. -/
theorem Publish.step_slots {l l' : Layout} {p p' : Publish} (hs : p.step l = some (l', p')) :
    l'.snapshots.slots = l.snapshots.slots ∧ l'.snapshots.write = l.snapshots.write := by
  unfold Publish.step at hs
  cases hpc : p.pc with
  | consume call =>
      cases call with
      | loadFresh =>
          simp only [hpc, TripleBuffer.consumeStep] at hs
          by_cases hf : l.snapshots.middle &&& TripleBuffer.kFresh = 0
          · simp only [if_pos hf, Option.some.injEq, Prod.mk.injEq] at hs
            obtain ⟨rfl, _⟩ := hs
            exact ⟨rfl, rfl⟩
          · simp only [if_neg hf, Option.some.injEq, Prod.mk.injEq] at hs
            obtain ⟨rfl, _⟩ := hs
            exact ⟨rfl, rfl⟩
      | _ =>
          simp only [hpc, TripleBuffer.consumeStep, Option.some.injEq, Prod.mk.injEq] at hs
          obtain ⟨rfl, _⟩ := hs
          exact ⟨rfl, rfl⟩
  | _ =>
      simp only [hpc] at hs
      (try split at hs) <;> try simp only [Option.some.injEq, Prod.mk.injEq, reduceCtorEq] at hs
      all_goals
        obtain ⟨rfl, _⟩ := hs
        exact ⟨rfl, rfl⟩

/-- The step takes publish out of its loop. -/
def Publish.leaving (l : Layout) (p : Publish) : Bool :=
  match p.pc with
  | .test => decide (l.control.shutdown ≠ 0)
  | .testDone => decide (l.control.computeDone ≠ 0) && p.have_
  | _ => false

/-- While the snapshot waits, publish goes on, and only its exchange moves the snapshot. -/
theorem InFlight.step_waiting {l l' : Layout} {p p' : Publish} {w : Option Snapshot}
    {snap : Snapshot} {c : TripleBuffer.PubPc}
    (hfresh : l.snapshots.middle &&& TripleBuffer.kFresh ≠ 0)
    (hslot : l.snapshots.slots (l.snapshots.middle &&& TripleBuffer.kIndexMask).toUInt64 = snap)
    (hloop : p.pc.inLoop = true) (hr : TripleBuffer.InRange l.snapshots c p.pc.conCall)
    (hstay : p.leaving l = false) (hs : p.step l = some (l', p')) :
    InFlight l'.snapshots w snap p' := by
  unfold Publish.step at hs
  cases hpc : p.pc with
  | attach =>
      simp only [hpc, Option.some.injEq, Prod.mk.injEq] at hs
      obtain ⟨rfl, rfl⟩ := hs
      exact .waiting hfresh hslot rfl
  | test =>
      simp only [Publish.leaving, hpc, decide_eq_false_iff_not, not_not] at hstay
      simp only [hpc, if_pos hstay, Option.some.injEq, Prod.mk.injEq] at hs
      obtain ⟨rfl, rfl⟩ := hs
      exact .waiting hfresh hslot rfl
  | consume call =>
      cases call with
      | idle =>
          simp only [hpc, TripleBuffer.consumeStep, Option.some.injEq, Prod.mk.injEq] at hs
          obtain ⟨rfl, rfl⟩ := hs
          exact .waiting hfresh hslot rfl
      | loadFresh =>
          simp only [hpc, TripleBuffer.consumeStep, if_neg hfresh, Option.some.injEq,
            Prod.mk.injEq] at hs
          obtain ⟨rfl, rfl⟩ := hs
          exact .waiting hfresh hslot rfl
      | exchange =>
          -- the exchange takes the slot with the snapshot out of the spare
          simp only [hpc, TripleBuffer.consumeStep, Option.some.injEq, Prod.mk.injEq] at hs
          obtain ⟨rfl, rfl⟩ := hs
          exact .taken _ hr.cleared rfl hslot
      | update old =>
          simp only [hpc, TripleBuffer.consumeStep, Option.some.injEq, Prod.mk.injEq] at hs
          obtain ⟨rfl, rfl⟩ := hs
          exact .waiting hfresh hslot rfl
  | copy k =>
      simp only [hpc] at hs
      split at hs <;> simp only [Option.some.injEq, Prod.mk.injEq] at hs <;>
        obtain ⟨rfl, rfl⟩ := hs <;> exact .waiting hfresh hslot rfl
  | beat =>
      simp only [hpc, Option.some.injEq, Prod.mk.injEq] at hs
      obtain ⟨rfl, rfl⟩ := hs
      exact .waiting hfresh hslot rfl
  | testDone =>
      have hno : ¬ (l.control.computeDone ≠ 0 ∧ p.have_ = true) := by
        intro hyes
        simp [Publish.leaving, hpc, hyes.1, hyes.2] at hstay
      simp only [hpc, if_neg hno, Option.some.injEq, Prod.mk.injEq] at hs
      obtain ⟨rfl, rfl⟩ := hs
      exact .waiting hfresh hslot rfl
  | openFile => simp [hpc, PublishPc.inLoop] at hloop
  | write => simp [hpc, PublishPc.inLoop] at hloop
  | exit code => simp [hpc, PublishPc.inLoop] at hloop

/-- Once copied, the snapshot stays in `last`: nothing fresh is there to replace it. -/
theorem InFlight.step_kept {l l' : Layout} {p p' : Publish} {w : Option Snapshot}
    {snap : Snapshot} (hclear : l.snapshots.middle &&& TripleBuffer.kFresh = 0)
    (hlast : p.last = snap) (hhave : p.have_ = true) (hrest : p.pc.resting = true)
    (hw : p.pc.filing = false) (hs : p.step l = some (l', p')) : InFlight l'.snapshots w snap p' := by
  have hleave : p.leave = { p with pc := .openFile } := if_pos hhave
  unfold Publish.step at hs
  cases hpc : p.pc with
  | test =>
      simp only [hpc] at hs
      split at hs <;> simp only [Option.some.injEq, Prod.mk.injEq] at hs <;>
        obtain ⟨rfl, rfl⟩ := hs
      · exact .kept hclear hlast hhave rfl
      · rw [hleave]
        exact .kept hclear hlast hhave rfl
  | consume call =>
      cases call with
      | loadFresh =>
          simp only [hpc, TripleBuffer.consumeStep, if_pos hclear, Option.some.injEq,
            Prod.mk.injEq] at hs
          obtain ⟨rfl, rfl⟩ := hs
          exact .kept hclear hlast hhave rfl
      | _ => simp [hpc, PublishPc.resting] at hrest
  | beat =>
      simp only [hpc, Option.some.injEq, Prod.mk.injEq] at hs
      obtain ⟨rfl, rfl⟩ := hs
      exact .kept hclear hlast hhave rfl
  | testDone =>
      simp only [hpc] at hs
      split at hs <;> simp only [Option.some.injEq, Prod.mk.injEq] at hs <;>
        obtain ⟨rfl, rfl⟩ := hs
      · rw [hleave]
        exact .kept hclear hlast hhave rfl
      · exact .kept hclear hlast hhave rfl
  | openFile => simp [hpc, PublishPc.filing] at hw
  | write => simp [hpc, PublishPc.filing] at hw
  | _ => simp [hpc, PublishPc.resting] at hrest

/-- **Publish never loses a snapshot it does not leave behind.** -/
theorem InFlight.step {l l' : Layout} {p p' : Publish} {w : Option Snapshot} {snap : Snapshot}
    {c : TripleBuffer.PubPc} (h : InFlight l.snapshots w snap p)
    (hr : TripleBuffer.InRange l.snapshots c p.pc.conCall)
    (hleave : p.leaving l = true → l.snapshots.middle &&& TripleBuffer.kFresh = 0)
    (hw : p.pc.filing = false) (hs : p.step l = some (l', p')) : InFlight l'.snapshots w snap p' := by
  cases h with
  | waiting hfresh hslot hloop =>
      refine InFlight.step_waiting hfresh hslot hloop hr ?_ hs
      cases hl : p.leaving l with
      | false => rfl
      | true => exact absurd (hleave hl) hfresh
  | taken old hclear hpc hslot =>
      simp only [Publish.step, hpc, TripleBuffer.consumeStep, Option.some.injEq,
        Prod.mk.injEq] at hs
      obtain ⟨rfl, rfl⟩ := hs
      exact .copying 0 hclear rfl (by decide) hslot (copied_zero _ _)
  | copying k hclear hpc hk hslot hcopied =>
      have hpart := hcopied.part
      simp only [Publish.step, hpc, hslot] at hs
      split at hs <;> simp only [Option.some.injEq, Prod.mk.injEq] at hs <;>
        obtain ⟨rfl, rfl⟩ := hs
      · exact .copying (k + 1) hclear rfl ‹_› hslot hpart
      · have hk' : k + 1 = Snapshot.parts := by omega
        exact .kept hclear (hk' ▸ hpart).eq rfl rfl
  | kept hclear hlast hhave hrest => exact InFlight.step_kept hclear hlast hhave hrest hw hs
  | wrote hwr hpc =>
      obtain ⟨code, hpc⟩ := hpc
      simp [Publish.step, hpc] at hs
  | lost hpc =>
      obtain ⟨code, _, hpc⟩ := hpc
      simp [Publish.step, hpc] at hs

/-- Opening the file leaves it where it is. -/
theorem InFlight.openFile {b : TripleBuffer Snapshot} {w w' : Option Snapshot} {snap : Snapshot}
    {p : Publish} (h : InFlight b w snap p) (hc : p.pc = .openFile) :
    InFlight b w' snap { p with pc := .write } := by
  cases h with
  | waiting _ _ hloop => simp [hc, PublishPc.inLoop] at hloop
  | taken old _ hpc _ => simp [hc] at hpc
  | copying k _ hpc _ _ _ => simp [hc] at hpc
  | kept hclear hlast hhave _ => exact .kept hclear hlast hhave rfl
  | wrote _ hpc =>
      obtain ⟨code, hpc⟩ := hpc
      simp [hc] at hpc
  | lost hpc =>
      obtain ⟨code, _, hpc⟩ := hpc
      simp [hc] at hpc

/-- Writing puts it in the file. -/
theorem InFlight.write {b : TripleBuffer Snapshot} {w : Option Snapshot} {snap : Snapshot}
    {p : Publish} (h : InFlight b w snap p) (hw : p.pc = .write) :
    InFlight b (some p.last) snap { p with pc := .exit 0 } := by
  cases h with
  | waiting _ _ hloop => simp [hw, PublishPc.inLoop] at hloop
  | taken old _ hpc _ => simp [hw] at hpc
  | copying k _ hpc _ _ _ => simp [hw] at hpc
  | kept _ hlast _ _ => exact .wrote (by rw [hlast]) ⟨0, rfl⟩
  | wrote _ hpc =>
      obtain ⟨code, hpc⟩ := hpc
      simp [hw] at hpc
  | lost hpc =>
      obtain ⟨code, _, hpc⟩ := hpc
      simp [hw] at hpc

/-- A publish process that ends well has written it. -/
theorem InFlight.exit {b : TripleBuffer Snapshot} {w : Option Snapshot} {snap : Snapshot}
    {p : Publish} (h : InFlight b w snap p) (hc : p.pc = .exit 0) : w = some snap := by
  cases h with
  | waiting _ _ hloop => simp [hc, PublishPc.inLoop] at hloop
  | taken old _ hpc _ => simp [hc] at hpc
  | copying k _ hpc _ _ _ => simp [hc] at hpc
  | kept _ _ _ hrest => simp [hc, PublishPc.resting] at hrest
  | wrote hw _ => exact hw
  | lost hpc =>
      obtain ⟨code, hne, hpc⟩ := hpc
      rw [hc] at hpc
      exact absurd (PublishPc.exit.inj hpc).symm hne

/-- The writer's index store, after the exchange, moves nothing that is in flight. -/
theorem InFlight.frame {b b' : TripleBuffer Snapshot} {w : Option Snapshot} {snap : Snapshot}
    {p : Publish} (h : InFlight b w snap p) (hm : b'.middle = b.middle) (hs : b'.slots = b.slots)
    (hr : b'.read = b.read) : InFlight b' w snap p := by
  cases h with
  | waiting hfresh hslot hloop =>
      exact .waiting (by rw [hm]; exact hfresh) (by rw [hm, hs]; exact hslot) hloop
  | taken old hclear hpc hslot =>
      exact .taken old (by rw [hm]; exact hclear) hpc (by rw [hs]; exact hslot)
  | copying k hclear hpc hk hslot hcopied =>
      exact .copying k (by rw [hm]; exact hclear) hpc hk (by rw [hs, hr]; exact hslot) hcopied
  | kept hclear hlast hhave hrest =>
      exact .kept (by rw [hm]; exact hclear) hlast hhave hrest
  | wrote hw hpc => exact .wrote hw hpc
  | lost hpc => exact .lost hpc

/-- Outside its exchange, the snapshot thread stays on its side of it; past it, it
leaves everything but its own index alone. -/
theorem snapshotStep_handed {clock : UInt64} {l l' : Layout} {t t' : SnapshotThread}
    (hpc : t.pc ≠ .publish .exchange) (hs : snapshotStep clock l t = some (l', t')) :
    t'.pc.handed = t.pc.handed ∧ (t.pc.handed = true →
      l'.snapshots.middle = l.snapshots.middle ∧ l'.snapshots.slots = l.snapshots.slots
        ∧ l'.snapshots.read = l.snapshots.read) := by
  have hnext : ∀ id, (SnapshotPc.next id).handed = false := by
    intro id
    unfold SnapshotPc.next
    split <;> rfl
  unfold snapshotStep at hs
  cases ht : t.pc with
  | publish call =>
      cases call with
      | exchange => exact absurd ht hpc
      | idle =>
          simp only [ht, TripleBuffer.publishStep, Option.some.injEq, Prod.mk.injEq] at hs
          obtain ⟨rfl, rfl⟩ := hs
          exact ⟨rfl, fun _ => ⟨rfl, rfl, rfl⟩⟩
      | update old =>
          simp only [ht, TripleBuffer.publishStep, Option.some.injEq, Prod.mk.injEq] at hs
          obtain ⟨rfl, rfl⟩ := hs
          exact ⟨rfl, fun _ => ⟨rfl, rfl, rfl⟩⟩
  | load id row call =>
      simp only [ht] at hs
      split at hs <;> simp only [Option.some.injEq, Prod.mk.injEq] at hs <;>
        obtain ⟨rfl, rfl⟩ := hs
      · exact ⟨rfl, by simp [SnapshotPc.handed]⟩
      · exact ⟨hnext id, by simp [SnapshotPc.handed]⟩
      · exact ⟨hnext id, by simp [SnapshotPc.handed]⟩
  | fill k =>
      simp only [ht, Option.some.injEq, Prod.mk.injEq] at hs
      obtain ⟨rfl, rfl⟩ := hs
      refine ⟨?_, by simp [SnapshotPc.handed]⟩
      simp only
      split <;> rfl
  | _ =>
      simp only [ht] at hs
      (try split at hs) <;> try simp only [Option.some.injEq, Prod.mk.injEq, reduceCtorEq] at hs
      all_goals
        obtain ⟨rfl, rfl⟩ := hs
        exact ⟨rfl, fun _ => ⟨rfl, rfl, rfl⟩⟩

end RateHub
