import RateHub.Sync.TripleBuffer

/-!
# Each slot has one owner

Taking an exchange together with the index store that follows it, the three
indexes are always a permutation of the three slots: an exchange swaps the
caller's slot with the spare. Everything else is bookkeeping on top of that. The
spare holds the latest publish when its fresh bit is set, the reader's slot holds
the publish its last consume adopted, and the writer only ever stores to the
third one.

As with the seqlock, the invariant asks one thing of a kill: that it does not fall
between an exchange and its index store, because there the swap is half done.
-/

namespace RateHub.TripleBuffer

variable {T : Type}

/-! ## Index words -/

/-- Slot `i` as `write_` and `read_` hold it. -/
def slotIx (i : Fin 3) : UInt64 := UInt64.ofNat i.val

/-- Slot `i` as `middle_` holds it. -/
def middleWord (i : Fin 3) (fresh : Bool) : UInt32 :=
  if fresh then UInt32.ofNat i.val ||| kFresh else UInt32.ofNat i.val

theorem slotIx_inj : ∀ {i j : Fin 3}, slotIx i = slotIx j → i = j := by decide

theorem slotIx_ne {i j : Fin 3} (h : i ≠ j) : slotIx i ≠ slotIx j := fun he => h (slotIx_inj he)

theorem slotIx_or_fresh : ∀ i : Fin 3, (slotIx i).toUInt32 ||| kFresh = middleWord i true := by
  decide

theorem slotIx_toUInt32 : ∀ i : Fin 3, (slotIx i).toUInt32 = middleWord i false := by decide

theorem middleWord_index : ∀ (i : Fin 3) (f : Bool),
    (middleWord i f &&& kIndexMask).toUInt64 = slotIx i := by decide

theorem middleWord_fresh : ∀ (i : Fin 3) (f : Bool),
    middleWord i f &&& kFresh = 0 ↔ f = false := by decide

/-! ## The invariant -/

/-- Who owns what: the writer slot `w`, the spare `m` and the reader slot `r`. -/
structure Owns (b : TripleBuffer T) (p : PubPc) (c : ConsumePc) (w m r : Fin 3) (fresh : Bool) :
    Prop where
  wm : w ≠ m
  mr : m ≠ r
  wr : w ≠ r
  writer : writerSlot b p = slotIx w
  reader : readerSlot b c = slotIx r
  middle : b.middle = middleWord m fresh
  /-- The fresh bit says that a publish has not been consumed. -/
  seen_le : b.seen ≤ b.published.length
  fresh_iff : fresh = true ↔ b.seen < b.published.length
  /-- The unread publish sits in the spare. -/
  spare : fresh = true → b.published.getLast? = some (b.slots (slotIx m))
  /-- The publish the reader adopted sits in its slot. -/
  held : 0 < b.seen → b.published[b.seen - 1]? = some (b.slots (slotIx r))
  /-- A consume past its load has seen the bit, and only the reader clears it. -/
  passed : c = .exchange → fresh = true
  order : b.consumed.Pairwise (· < ·)
  bound : ∀ k ∈ b.consumed, 0 < k ∧ k ≤ b.seen

/-- The invariant: some assignment of the three slots. -/
def Inv (s : State T) : Prop := ∃ w m r fresh, Owns s.buf s.writer s.reader w m r fresh

theorem inv_start (zero : T) : Inv (State.start zero) :=
  ⟨0, 2, 1, false,
    { wm := by decide, mr := by decide, wr := by decide
      writer := rfl, reader := rfl, middle := rfl
      seen_le := Nat.le_refl _
      fresh_iff := by simp [State.start, init, seen]
      spare := fun h => absurd h (by simp)
      held := fun h => absurd h (by simp [State.start, init, seen])
      passed := fun h => absurd h (by simp [State.start])
      order := List.Pairwise.nil
      bound := fun k hk => absurd hk (by simp [State.start, init]) }⟩

/-- Filling the write slot touches neither of the other two. -/
theorem Owns.fill {b : TripleBuffer T} {c : ConsumePc} {w m r : Fin 3} {fresh : Bool}
    (h : Owns b .idle c w m r fresh) (part : T → T) :
    Owns (b.fill part) .idle c w m r fresh := by
  have hw : b.write = slotIx w := h.writer
  have hm : (b.fill part).slots (slotIx m) = b.slots (slotIx m) := by
    simp [TripleBuffer.fill, hw, Function.update_of_ne (slotIx_ne h.wm.symm)]
  have hr : (b.fill part).slots (slotIx r) = b.slots (slotIx r) := by
    simp [TripleBuffer.fill, hw, Function.update_of_ne (slotIx_ne h.wr.symm)]
  exact
    { h with
      reader := h.reader
      spare := fun hf => by rw [hm]; exact h.spare hf
      held := fun hs => by rw [hr]; exact h.held hs }

/-- **One step of `publish`.** The exchange swaps the writer's slot with the spare. -/
theorem Owns.publishStep {b : TripleBuffer T} {p : PubPc} {c : ConsumePc} {w m r : Fin 3}
    {fresh : Bool} (h : Owns b p c w m r fresh) :
    ∃ w' m' fresh', Owns (publishStep b p).1 (publishStep b p).2 c w' m' r fresh' := by
  cases p with
  | idle => exact ⟨w, m, fresh, h⟩
  | exchange =>
      have hw : b.write = slotIx w := h.writer
      have hle := h.seen_le
      refine ⟨m, w, true, ?_⟩
      exact
        { wm := h.wm.symm, mr := h.wr, wr := h.mr
          writer := by
            simp only [TripleBuffer.publishStep, writerSlot, h.middle]
            exact middleWord_index m fresh
          reader := by cases c <;> exact h.reader
          middle := by
            simp only [TripleBuffer.publishStep, hw]
            exact slotIx_or_fresh w
          seen_le := by
            simp only [TripleBuffer.publishStep, List.length_append]
            exact Nat.le_trans hle (Nat.le_add_right _ _)
          fresh_iff := by
            simp only [TripleBuffer.publishStep, List.length_append, List.length_singleton,
              true_iff]
            exact Nat.lt_succ_of_le hle
          spare := fun _ => by simp [TripleBuffer.publishStep, hw]
          held := by
            intro hs
            have := h.held hs
            show (b.published ++ [b.slots b.write])[b.seen - 1]? = some (b.slots (slotIx r))
            rw [List.getElem?_append_left (List.getElem?_eq_some_iff.mp this).1]
            exact this
          passed := fun _ => rfl
          order := h.order
          bound := h.bound }
  | update old =>
      refine ⟨w, m, fresh, ?_⟩
      exact { h with reader := by cases c <;> exact h.reader }

/-- **One step of `consume`.** The exchange swaps the reader's slot with the spare. -/
theorem Owns.consumeStep {b : TripleBuffer T} {p : PubPc} {c : ConsumePc} {w m r : Fin 3}
    {fresh : Bool} (h : Owns b p c w m r fresh) :
    ∃ m' r' fresh', Owns (consumeStep b c).1 p (consumeStep b c).2.1 w m' r' fresh' := by
  cases c with
  | idle => exact ⟨m, r, fresh, h⟩
  | loadFresh =>
      refine ⟨m, r, fresh, ?_⟩
      simp only [TripleBuffer.consumeStep]
      split
      · exact { h with reader := h.reader, passed := fun hc => absurd hc (by simp) }
      · rename_i hne
        refine { h with reader := h.reader, passed := fun _ => ?_ }
        rw [h.middle, middleWord_fresh] at hne
        simpa using hne
  | exchange =>
      -- the reader's slot and the spare change hands, and nothing is fresh after it
      have hr : b.read = slotIx r := h.reader
      have hfresh := h.passed rfl
      have hlt := h.fresh_iff.mp hfresh
      have hspare := h.spare hfresh
      have hseen : (TripleBuffer.consumeStep b .exchange).1.seen = b.published.length := by
        simp [TripleBuffer.consumeStep, seen]
      refine ⟨r, m, false, ?_⟩
      exact
        { wm := h.wr, mr := h.mr.symm, wr := h.wm
          writer := by cases p <;> exact h.writer
          reader := by
            simp only [TripleBuffer.consumeStep, readerSlot, h.middle]
            exact middleWord_index m fresh
          middle := by
            simp only [TripleBuffer.consumeStep, hr]
            exact slotIx_toUInt32 r
          seen_le := Nat.le_of_eq hseen
          fresh_iff := by
            rw [hseen]
            simp [TripleBuffer.consumeStep]
          spare := fun hf => absurd hf (by simp)
          held := by
            intro _
            rw [hseen]
            show b.published[b.published.length - 1]? = some (b.slots (slotIx m))
            rw [← List.getLast?_eq_getElem?]
            exact hspare
          passed := fun hc => absurd hc (by simp [TripleBuffer.consumeStep])
          order := by
            simp only [TripleBuffer.consumeStep, List.pairwise_append]
            refine ⟨h.order, List.pairwise_singleton _ _, ?_⟩
            intro k hk k' hk'
            rw [List.mem_singleton] at hk'
            have := (h.bound k hk).2
            omega
          bound := by
            intro k hk
            rw [hseen]
            simp only [TripleBuffer.consumeStep, List.mem_append, List.mem_singleton] at hk
            rcases hk with hk | hk
            · have := h.bound k hk
              omega
            · omega }
  | update old =>
      -- the reader has owned the slot since the exchange; now `read_` says so too
      refine ⟨m, r, fresh, ?_⟩
      exact
        { h with
          writer := by cases p <;> exact h.writer
          reader := h.reader
          passed := fun hc => absurd hc (by simp [TripleBuffer.consumeStep]) }

/-- **Preserved by every step whose kills are clean.** -/
theorem inv_step {s s' : State T} {a : Act T} (h : Inv s) (hk : cleanKill s a = true)
    (hs : s.step a = some s') : Inv s' := by
  obtain ⟨w, m, r, fresh, h⟩ := h
  cases a with
  | fill part =>
      simp only [State.step] at hs
      split at hs
      · rename_i hw
        obtain rfl := Option.some.inj hs
        rw [hw] at h
        exact ⟨w, m, r, fresh, by simp only [hw]; exact h.fill part⟩
      · exact absurd hs (by simp)
  | callPublish =>
      simp only [State.step] at hs
      split at hs
      · rename_i hw
        obtain rfl := Option.some.inj hs
        rw [hw] at h
        exact ⟨w, m, r, fresh, { h with writer := h.writer }⟩
      · exact absurd hs (by simp)
  | writer =>
      simp only [State.step] at hs
      split at hs
      · exact absurd hs (by simp)
      · obtain rfl := Option.some.inj hs
        obtain ⟨w', m', fresh', h'⟩ := h.publishStep
        exact ⟨w', m', r, fresh', h'⟩
  | callConsume =>
      simp only [State.step] at hs
      split at hs
      · rename_i hc
        obtain rfl := Option.some.inj hs
        rw [hc] at h
        exact ⟨w, m, r, fresh, { h with reader := h.reader, passed := fun hc => absurd hc (by simp) }⟩
      · exact absurd hs (by simp)
  | reader =>
      simp only [State.step] at hs
      split at hs
      · exact absurd hs (by simp)
      · obtain rfl := Option.some.inj hs
        obtain ⟨m', r', fresh', h'⟩ := h.consumeStep
        exact ⟨w, m', r', fresh', h'⟩
  | killWriter =>
      -- outside the update `write_` itself names the writer's slot
      obtain rfl := Option.some.inj hs
      refine ⟨w, m, r, fresh, { h with writer := ?_ }⟩
      have hw := h.writer
      cases hp : s.writer with
      | update old => simp [cleanKill, hp] at hk
      | idle => rw [hp] at hw; exact hw
      | exchange => rw [hp] at hw; exact hw
  | killReader =>
      obtain rfl := Option.some.inj hs
      refine ⟨w, m, r, fresh, { h with reader := ?_, passed := fun hc => absurd hc (by simp) }⟩
      have hr := h.reader
      cases hc : s.reader with
      | update old => simp [cleanKill, hc] at hk
      | idle => rw [hc] at hr; exact hr
      | loadFresh => rw [hc] at hr; exact hr
      | exchange => rw [hc] at hr; exact hr

/-! ## Every run -/

/-- Every state of the runs in which no process dies. -/
def ReachableAlive (zero : T) : State T → Prop :=
  Transition.Reachable State.step (fun _ a => noKill a = true) (· = State.start zero)

/-- Every state of the runs whose kills spare the span from exchange to index store. -/
def ReachableClean (zero : T) : State T → Prop :=
  Transition.Reachable State.step (fun s a => cleanKill s a = true) (· = State.start zero)

theorem inv_reachable {zero : T} {s : State T} (h : ReachableClean zero s) : Inv s := by
  refine Transition.Reachable.invariant ?_ ?_ h
  · rintro s rfl
    exact inv_start zero
  · intro s a s' hi hk hs
    exact inv_step hi hk hs

theorem ReachableAlive.clean {zero : T} {s : State T} (h : ReachableAlive zero s) :
    ReachableClean zero s := by
  refine Transition.Reachable.mono ?_ h
  intro s a hk
  cases a with
  | killWriter => exact absurd hk (by simp [noKill])
  | killReader => exact absurd hk (by simp [noKill])
  | fill part => rfl
  | callPublish => rfl
  | writer => rfl
  | callConsume => rfl
  | reader => rfl

/-- Three different slots are all three slots. -/
theorem slots_perm : ∀ {w m r : Fin 3}, w ≠ m → m ≠ r → w ≠ r →
    List.Perm [slotIx w, slotIx m, slotIx r] [0, 1, 2] := by decide

/--
**Ownership and freshness.**

For one writer, one reader and every interleaving of their steps, in every state:

* the writer's slot, the spare and the reader's slot are the three slots, each
  once (an exchange being taken together with its index store), so a fill never
  stores into the slot the reader may read;
* the slot the reader adopted with its last successful consume still holds,
  whole, the publish that was the latest at that consume's exchange;
* that exchange adopts the latest publish there is;
* successive successful consumes give strictly later publishes;
* the fresh-bit load lets a consume go on exactly when there is a publish since
  the last successful consume's exchange, and a consume that goes on returns true.
-/
theorem ownership_and_freshness {zero : T} {s : State T} (h : ReachableAlive zero s) :
    List.Perm [writerSlot s.buf s.writer, (s.buf.middle &&& kIndexMask).toUInt64,
        readerSlot s.buf s.reader] [0, 1, 2]
      ∧ (s.writer = .idle → s.buf.write ≠ readerSlot s.buf s.reader)
      ∧ (0 < s.buf.seen →
          s.buf.published[s.buf.seen - 1]? = some (s.buf.slots (readerSlot s.buf s.reader)))
      ∧ (s.reader = .exchange → ∀ s', s.step .reader = some s' →
          s'.buf.seen = s.buf.published.length
            ∧ s.buf.published.getLast? = some (s'.buf.slots (readerSlot s'.buf s'.reader)))
      ∧ s.buf.consumed.Pairwise (· < ·)
      ∧ (s.reader = .loadFresh →
          ((consumeStep s.buf s.reader).2.2 = some false ↔ s.buf.seen = s.buf.published.length)
            ∧ ((consumeStep s.buf s.reader).2.1 = .exchange
                ↔ s.buf.seen < s.buf.published.length))
      ∧ (∀ old, s.reader = .update old → (consumeStep s.buf s.reader).2.2 = some true) := by
  obtain ⟨w, m, r, fresh, ho⟩ := inv_reachable h.clean
  have hmid : (s.buf.middle &&& kIndexMask).toUInt64 = slotIx m := by
    rw [ho.middle]; exact middleWord_index m fresh
  refine ⟨?_, ?_, ?_, ?_, ho.order, ?_, ?_⟩
  · rw [ho.writer, ho.reader, hmid]
    exact slots_perm ho.wm ho.mr ho.wr
  · intro hw
    have hwrite := ho.writer
    rw [hw] at hwrite
    rw [ho.reader]
    exact fun he => slotIx_ne ho.wr (hwrite.symm.trans he)
  · intro hs
    rw [ho.reader]
    exact ho.held hs
  · intro hc s' hs
    simp only [State.step, hc] at hs
    rw [if_neg (by simp)] at hs
    obtain rfl := Option.some.inj hs
    refine ⟨by simp [consumeStep, seen], ?_⟩
    have hspare := ho.spare (ho.passed hc)
    simpa [consumeStep, readerSlot, hmid] using hspare
  · intro hc
    have hle := ho.seen_le
    have hlt := ho.fresh_iff
    rw [hc]
    simp only [consumeStep, ho.middle, middleWord_fresh]
    cases hf : fresh with
    | true =>
        have := hlt.mp hf
        simp
        omega
    | false =>
        have : ¬ s.buf.seen < s.buf.published.length := fun hh => by
          rw [hf] at hlt; exact absurd (hlt.mpr hh) (by simp)
        simp
        omega
  · intro old hc
    rw [hc]
    rfl

/-- The test's run: two publishes, then a consume that has just adopted the second. -/
theorem ownership_and_freshness_latest :
    ∃ s : State Nat, s.buf.consumed = [2] ∧ s.buf.slots (readerSlot s.buf s.reader) = 8
      ∧ s.buf.published[s.buf.seen - 1]? = some (s.buf.slots (readerSlot s.buf s.reader)) := by
  have h : ∃ s, Transition.execWhen State.step (fun _ a => noKill a) (State.start 0)
      [.fill (fun _ => 7), .callPublish, .writer, .writer, .callConsume, .reader,
        .fill (fun _ => 8), .callPublish, .writer, .reader, .writer, .reader] = some s
      ∧ s.buf.consumed = [2] ∧ s.buf.slots (readerSlot s.buf s.reader) = 8 :=
    ⟨_, rfl, rfl, rfl⟩
  obtain ⟨s, hs, hc, hslot⟩ := h
  have hr : ReachableAlive 0 s :=
    Transition.Reachable.execWhen (g := fun _ a => noKill a) (fun _ _ hb => hb) _ (.init rfl) hs
  refine ⟨s, hc, hslot, (ownership_and_freshness hr).2.2.1 ?_⟩
  simp [seen, hc]

/-! ## Processes that are killed and replaced -/

/--
**Clean kills keep the owners apart.**

In every run in which a writer or reader process is killed only outside the span
from its exchange to its index store, however many processes continue on the same
object, the writer's slot and the reader's slot differ; between calls these are
the fields `write_` and `read_` themselves.
-/
theorem owners_differ_after_restart {zero : T} {s : State T} (h : ReachableClean zero s) :
    writerSlot s.buf s.writer ≠ readerSlot s.buf s.reader
      ∧ (s.writer = .idle → s.reader = .idle → s.buf.write ≠ s.buf.read) := by
  obtain ⟨w, m, r, fresh, ho⟩ := inv_reachable h
  have hne : writerSlot s.buf s.writer ≠ readerSlot s.buf s.reader := by
    rw [ho.writer, ho.reader]
    exact slotIx_ne ho.wr
  refine ⟨hne, fun hw hc => ?_⟩
  rw [hw, hc] at hne
  exact hne

/-- A writer killed before its exchange and a reader killed before its own. -/
theorem owners_differ_after_restart_clean :
    ∃ s : State Nat, s.buf.published = [7] ∧ s.buf.consumed = [1]
      ∧ writerSlot s.buf s.writer ≠ readerSlot s.buf s.reader := by
  have h : ∃ s, Transition.execWhen State.step cleanKill (State.start 0)
      [.fill (fun _ => 7), .callPublish, .killWriter, .callPublish, .writer, .writer,
        .callConsume, .reader, .killReader, .callConsume, .reader, .reader, .reader] = some s
      ∧ s.buf.published = [7] ∧ s.buf.consumed = [1] := ⟨_, rfl, rfl, rfl⟩
  obtain ⟨s, hs, hp, hc⟩ := h
  have hr : ReachableClean 0 s :=
    Transition.Reachable.execWhen (g := cleanKill) (fun _ _ hb => hb) _ (.init rfl) hs
  exact ⟨s, hp, hc, (owners_differ_after_restart hr).1⟩

/--
**A kill between the exchange and the index store gives a slot two owners.**

The writer dies with its slot already in the middle and `write_` still naming it.
The reader consumes that slot, and from then on the next writer process fills the
slot the reader is copying, with nobody inside a call.
-/
theorem slot_shared_after_kill :
    ∃ s : State Nat,
      Transition.Reachable State.step (fun _ _ => True) (· = State.start 0) s
        ∧ s.writer = .idle ∧ s.reader = .idle ∧ s.buf.write = s.buf.read := by
  have h : ∃ s, Transition.exec State.step (State.start 0)
      [.fill (fun _ => 7), .callPublish, .writer, .killWriter, .callConsume, .reader, .reader,
        .reader] = some s
      ∧ s.writer = .idle ∧ s.reader = .idle ∧ s.buf.write = s.buf.read :=
    ⟨_, rfl, rfl, rfl, rfl⟩
  obtain ⟨s, hs, hw, hc, heq⟩ := h
  exact ⟨s, Transition.Reachable.exec (fun _ _ => trivial) _ (.init rfl) hs, hw, hc, heq⟩

end RateHub.TripleBuffer
