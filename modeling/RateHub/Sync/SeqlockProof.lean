import RateHub.Lib.Cyclic
import RateHub.Sync.Seqlock

/-!
# A load never mixes two publishes

Count the completed publishes, `n`. The sequence word is `2n` between publishes
and `2n + 1` from the odd store to the even store, both modulo `2^32`, and the
payload words are those of version `n`, overwritten from the front by the value
being published.

A load attempt that read an even `begin` at version `b` has, as long as `n = b`
and no publish is past its odd store, collected words of version `b` only. When
`end` equals `begin`, parity rules out a publish in its words, and fewer than
`2^31` completed publishes rule out a whole lap of the counter, so `n = b` and
every collected word is version `b`'s.

The invariant needs one thing of a killed writer: that it was not between its
odd and its even store. `cleanKill` says so; a writer killed anywhere else
leaves a slot in which the next process continues correctly.
-/

namespace RateHub.Seqlock

variable {T : Type} [TriviallyCopyable T] {R : Type} [DecidableEq R]

/-! ## Sequence numbers -/

/-- The sequence word after `k` stores to it. -/
def seqOf (k : Nat) : UInt32 := UInt32.ofNat k

theorem seqOf_toNat (k : Nat) : (seqOf k).toNat = k % 2 ^ 32 := UInt32.toNat_ofNat'

theorem seqOf_add (k m : Nat) : seqOf k + UInt32.ofNat m = seqOf (k + m) := by
  apply UInt32.toNat_inj.mp
  rw [UInt32.toNat_add, seqOf_toNat, seqOf_toNat, UInt32.toNat_ofNat', ← Nat.add_mod]

theorem seqOf_and_one (k : Nat) : (seqOf k &&& 1).toNat = k % 2 := by
  rw [UInt32.toNat_and, seqOf_toNat]
  have h1 : (1 : UInt32).toNat = 1 := rfl
  rw [h1, Nat.and_one_is_mod, Nat.mod_mod_of_dvd _ (by decide)]

theorem even_and_one (n : Nat) : seqOf (2 * n) &&& 1 = 0 := by
  apply UInt32.toNat_inj.mp
  rw [seqOf_and_one]
  simp

theorem odd_and_one (n : Nat) : seqOf (2 * n + 1) &&& 1 ≠ 0 := by
  intro h
  have h' := congrArg UInt32.toNat h
  rw [seqOf_and_one] at h'
  have h0 : (0 : UInt32).toNat = 0 := rfl
  omega

theorem even_ne_odd (m n : Nat) : seqOf (2 * m) ≠ seqOf (2 * n + 1) := by
  intro h
  apply odd_and_one n
  rw [← h, even_and_one]

/-- Less than one lap apart, equal even sequence words mean the same version. -/
theorem even_inj {m n : Nat} (hle : m ≤ n) (hlt : n < m + 2 ^ 31)
    (h : seqOf (2 * m) = seqOf (2 * n)) : m = n := by
  have h' := congrArg UInt32.toNat h
  rw [seqOf_toNat, seqOf_toNat] at h'
  have := Cyclic.eq_of_mod_eq (n := 2 ^ 32) (by omega) (by omega) h'
  omega

/-! ## Versions -/

/-- The payload words of version `k` (version 0 is the freshly constructed slot). -/
def rawAt (vs : List T) : Nat → Raw T
  | 0 => Raw.zero
  | k + 1 => match vs[k]? with
    | some v => Raw.pack v
    | none => Raw.zero

theorem rawAt_last (vs : List T) (v : T) : rawAt (vs ++ [v]) (vs.length + 1) = Raw.pack v := by
  simp [rawAt]

/-- Unpacking a version's words gives that version's value. -/
theorem history_rawAt {l : Seqlock T} {k : Nat} (h : k ≤ l.versions.length) :
    l.history[k]? = some (Raw.unpack (rawAt l.versions k)) := by
  cases k with
  | zero => rfl
  | succ k =>
      have hlt : k < l.versions.length := by omega
      simp [history, rawAt, List.getElem?_eq_getElem hlt]

theorem history_append {vs : List T} {k : Nat} {x : T} (v : T)
    (h : (Raw.unpack Raw.zero :: vs)[k]? = some x) :
    (Raw.unpack Raw.zero :: (vs ++ [v]))[k]? = some x := by
  rw [← List.cons_append, List.getElem?_append_left (List.getElem?_eq_some_iff.mp h).1]
  exact h

/-! ## The writer's side -/

/-- What the sequence and the words are while the writer stands at `w`. -/
def LockInv (l : Seqlock T) : PubPc T → Prop
  | .idle => l.seq = seqOf (2 * l.versions.length) ∧ l.words = rawAt l.versions l.versions.length
  | .loadSeq _ =>
      l.seq = seqOf (2 * l.versions.length) ∧ l.words = rawAt l.versions l.versions.length
  | .storeOdd _ q =>
      q = l.seq ∧ l.seq = seqOf (2 * l.versions.length)
        ∧ l.words = rawAt l.versions l.versions.length
  | .words v q i =>
      q = seqOf (2 * l.versions.length) ∧ l.seq = seqOf (2 * l.versions.length + 1)
        ∧ i ≤ kWords T
        ∧ ∀ j, l.words j = if j.val < i then Raw.pack v j else rawAt l.versions l.versions.length j

/-- Outside the words the slot is stable at the latest version. -/
theorem LockInv.stable {l : Seqlock T} {w : PubPc T} (h : LockInv l w) (hw : w.inWords = false) :
    l.seq = seqOf (2 * l.versions.length) ∧ l.words = rawAt l.versions l.versions.length := by
  cases w with
  | idle => exact h
  | loadSeq v => exact h
  | storeOdd v q => exact h.2
  | words v q i => exact absurd hw (by simp [PubPc.inWords])

theorem LockInv.odd {l : Seqlock T} {w : PubPc T} (h : LockInv l w) (hw : w.inWords = true) :
    l.seq = seqOf (2 * l.versions.length + 1) := by
  cases w with
  | words v q i => exact h.2.1
  | idle => exact absurd hw (by simp [PubPc.inWords])
  | loadSeq v => exact absurd hw (by simp [PubPc.inWords])
  | storeOdd v q => exact absurd hw (by simp [PubPc.inWords])

/-- **One access of `publish`.** -/
theorem LockInv.publishStep {l : Seqlock T} {w : PubPc T} (h : LockInv l w) :
    LockInv (publishStep l w).1 (publishStep l w).2 := by
  cases w with
  | idle => exact h
  | loadSeq v => exact ⟨rfl, h⟩
  | storeOdd v q =>
      obtain ⟨hq, hseq, hwords⟩ := h
      refine ⟨hq.trans hseq, ?_, Nat.zero_le _, ?_⟩
      · simp only [Seqlock.publishStep]
        rw [hq, hseq]
        exact seqOf_add _ 1
      · intro j
        simp [Seqlock.publishStep, hwords]
  | words v q i =>
      obtain ⟨hq, hseq, hi, hwords⟩ := h
      simp only [Seqlock.publishStep]
      split
      · rename_i hlt
        refine ⟨hq, hseq, hlt, ?_⟩
        intro j
        by_cases hj : j = ⟨i, hlt⟩
        · subst hj
          simp
        · have hne : j.val ≠ i := fun he => hj (Fin.ext he)
          have hiff : j.val < i + 1 ↔ j.val < i := by omega
          simp only [Function.update_of_ne hj, hwords j, hiff]
      · rename_i hge
        have hall : ∀ j : Fin (kWords T), j.val < i := fun j => by have := j.isLt; omega
        constructor
        · simp only [List.length_append, List.length_singleton]
          rw [hq]
          exact seqOf_add _ 2
        · simp only [List.length_append, List.length_singleton, rawAt_last]
          funext j
          rw [hwords j, if_pos (hall j)]

/-- A publish only ever adds versions. -/
theorem publishStep_versions (l : Seqlock T) (w : PubPc T) :
    (publishStep l w).1.versions = l.versions
      ∨ ((∃ v, (publishStep l w).1.versions = l.versions ++ [v]) ∧ w.inWords = true) := by
  cases w with
  | words v q i =>
      simp only [Seqlock.publishStep]
      split
      · exact Or.inl rfl
      · exact Or.inr ⟨⟨v, rfl⟩, rfl⟩
  | idle => exact Or.inl rfl
  | loadSeq v => exact Or.inl rfl
  | storeOdd v q => exact Or.inl rfl

/-- Words change only past the odd store. -/
theorem publishStep_stable {l : Seqlock T} {w : PubPc T}
    (h : (publishStep l w).2.inWords = false) (hv : (publishStep l w).1.versions = l.versions) :
    (publishStep l w).1 = l ∧ w.inWords = false := by
  cases w with
  | words v q i =>
      simp only [Seqlock.publishStep] at h hv
      split at h
      · exact absurd h (by simp [PubPc.inWords])
      · rename_i hge
        simp [hge] at hv
  | storeOdd v q => exact absurd h (by simp [Seqlock.publishStep, PubPc.inWords])
  | idle => exact ⟨rfl, rfl⟩
  | loadSeq v => exact ⟨rfl, rfl⟩

/-! ## The reader's side -/

/-- What a load attempt that began at version `b` has collected. -/
def LoadOk (l : Seqlock T) (w : PubPc T) (b : Nat) : LoadPc T → Prop
  | .idle => True
  | .loadBegin _ => True
  | .words _ beg i raw =>
      b ≤ l.versions.length ∧ beg = seqOf (2 * b) ∧ i ≤ kWords T
        ∧ (l.versions.length = b → w.inWords = false →
            ∀ j : Fin (kWords T), j.val < i → raw j = rawAt l.versions b j)

/-- A publish may spoil an attempt, never make it lie. -/
theorem LoadOk.publishStep {l : Seqlock T} {w : PubPc T} {b : Nat} {pc : LoadPc T}
    (h : LoadOk l w b pc) :
    LoadOk (publishStep l w).1 (publishStep l w).2 b pc := by
  cases pc with
  | idle => trivial
  | loadBegin a => trivial
  | words a beg i raw =>
      obtain ⟨hb, hbeg, hi, hraw⟩ := h
      rcases publishStep_versions l w with hv | ⟨⟨v, hv⟩, _⟩
      · refine ⟨hv ▸ hb, hbeg, hi, ?_⟩
        intro hn hw
        obtain ⟨hl, hw'⟩ := publishStep_stable hw hv
        rw [hl] at hn ⊢
        exact hraw hn hw'
      · -- the even store moved the version past `b`
        have hlen : (Seqlock.publishStep l w).1.versions.length = l.versions.length + 1 := by
          rw [hv]; simp
        refine ⟨by omega, hbeg, hi, ?_⟩
        intro hn
        omega

theorem LoadOk.of_stable {l : Seqlock T} {w w' : PubPc T} {b : Nat} {pc : LoadPc T}
    (h : LoadOk l w b pc) (hw : w'.inWords = false → w.inWords = false) : LoadOk l w' b pc := by
  cases pc with
  | idle => trivial
  | loadBegin a => trivial
  | words a beg i raw =>
      exact ⟨h.1, h.2.1, h.2.2.1, fun hn hw' => h.2.2.2 hn (hw hw')⟩

/-- The version an access of `load` belongs to: the `begin` load fixes it. -/
def versionAfter (l : Seqlock T) (b : Nat) : LoadPc T → Nat
  | .loadBegin _ => l.versions.length
  | _ => b

/-- **One access of `load`.** -/
theorem LoadOk.loadStep {l : Seqlock T} {w : PubPc T} {b : Nat} {pc : LoadPc T} {out : T}
    (hl : LockInv l w) (h : LoadOk l w b pc) :
    LoadOk l w (versionAfter l b pc) (loadStep l out pc).2.1 := by
  have hretry : ∀ (c a : Nat), LoadOk l w c (retry (T := T) a).1 := by
    intro c a
    unfold retry
    split <;> trivial
  cases pc with
  | idle => trivial
  | loadBegin a =>
      simp only [Seqlock.loadStep]
      split
      · exact hretry _ a
      · rename_i heven
        have hw : w.inWords = false := by
          cases hw : w.inWords with
          | false => rfl
          | true => exact absurd (hl.odd hw ▸ odd_and_one _) heven
        refine ⟨Nat.le_refl _, (hl.stable hw).1, Nat.zero_le _, ?_⟩
        intro _ _ j hj
        exact absurd hj (Nat.not_lt_zero _)
  | words a beg i raw =>
      obtain ⟨hb, hbeg, hi, hraw⟩ := h
      simp only [Seqlock.loadStep]
      split
      · rename_i hlt
        refine ⟨hb, hbeg, hlt, ?_⟩
        intro hn hw j hj
        by_cases hji : j = ⟨i, hlt⟩
        · subst hji
          simp only [Function.update_self]
          rw [(hl.stable hw).2]
          exact congrArg (fun k => rawAt l.versions k _) hn
        · have hne : j.val ≠ i := fun he => hji (Fin.ext he)
          rw [Function.update_of_ne hji]
          exact hraw hn hw j (by omega)
      · split
        · trivial
        · exact hretry _ a

/-- A lost attempt does not return true. -/
theorem retry_ne_true (a : Nat) : (retry (T := T) a).2 ≠ some true := by
  unfold retry
  split <;> simp

/-- Only the `end` load returns true, and only when `seq` is what `begin` was. -/
theorem loadStep_true {l : Seqlock T} {out : T} {pc : LoadPc T}
    (htrue : (loadStep l out pc).2.2 = some true) :
    ∃ a beg i raw, pc = .words a beg i raw ∧ ¬ i < kWords T ∧ beg = l.seq
      ∧ (loadStep l out pc).1 = Raw.unpack raw := by
  cases pc with
  | idle => cases htrue
  | loadBegin a =>
      simp only [loadStep] at htrue
      split at htrue
      · exact absurd htrue (retry_ne_true a)
      · cases htrue
  | words a beg i raw =>
      simp only [loadStep] at htrue ⊢
      split at htrue
      · cases htrue
      · rename_i hge
        split at htrue
        · rename_i heq
          refine ⟨a, beg, i, raw, rfl, hge, heq, ?_⟩
          rw [dif_neg hge, if_pos heq]
        · exact absurd htrue (retry_ne_true a)

/-- **A successful load yields one version, whole.** -/
theorem LoadOk.load_true {l : Seqlock T} {w : PubPc T} {b : Nat} {pc : LoadPc T} {out : T}
    (hl : LockInv l w) (h : LoadOk l w b pc) (hlt : l.versions.length < b + 2 ^ 31)
    (htrue : (Seqlock.loadStep l out pc).2.2 = some true) :
    b = l.versions.length ∧ (Seqlock.loadStep l out pc).1 = Raw.unpack (rawAt l.versions b) := by
  obtain ⟨a, beg, i, raw, rfl, hge, heq, hout⟩ := loadStep_true htrue
  obtain ⟨hb, hbeg, hi, hraw⟩ := h
  -- parity: no publish is in its words
  have hw : w.inWords = false := by
    cases hw : w.inWords with
    | false => rfl
    | true =>
        rw [hbeg, hl.odd hw] at heq
        exact absurd heq (even_ne_odd _ _)
  -- less than a lap: the version has not moved
  have hn : b = l.versions.length := by
    rw [hbeg, (hl.stable hw).1] at heq
    exact even_inj hb hlt heq
  have hfull : raw = rawAt l.versions b := by
    funext j
    have hj := j.isLt
    exact hraw hn.symm hw j (by omega)
  refine ⟨hn, ?_⟩
  rw [hout, hfull]

/-- Only the successful return writes `out`. -/
theorem loadStep_out {l : Seqlock T} {out : T} {pc : LoadPc T}
    (h : (loadStep l out pc).2.2 ≠ some true) : (loadStep l out pc).1 = out := by
  cases pc with
  | idle => rfl
  | loadBegin a => simp only [loadStep]; split <;> rfl
  | words a beg i raw =>
      simp only [loadStep] at h ⊢
      split
      · rfl
      · rename_i hge
        split
        · rename_i heq
          exact absurd (by simp [hge, heq]) h
        · rfl

/-- A call returns exactly when its program counter leaves it. -/
theorem loadStep_returns {l : Seqlock T} {out : T} {pc : LoadPc T} (hpc : pc ≠ .idle) :
    (loadStep l out pc).2.1 = .idle ↔ ∃ ok, (loadStep l out pc).2.2 = some ok := by
  have hretry : ∀ a : Nat, (retry (T := T) a).1 = .idle ↔ ∃ ok, (retry (T := T) a).2 = some ok := by
    intro a
    unfold retry
    split <;> simp
  cases pc with
  | idle => exact absurd rfl hpc
  | loadBegin a =>
      simp only [loadStep]
      split
      · exact hretry a
      · simp
  | words a beg i raw =>
      simp only [loadStep]
      split
      · simp
      · split
        · simp
        · exact hretry a

/-! ## The loads of one call -/

/-- Inside a call: one of its 64 attempts, and at most all of the words loaded. -/
def LoadPc.live : LoadPc T → Prop
  | .idle => False
  | .loadBegin attempt => attempt < 64
  | .words attempt _ i _ => attempt < 64 ∧ i ≤ kWords T

/-- The loads a call has still to make, if every attempt fails at its end. -/
def LoadPc.left : LoadPc T → Nat
  | .idle => 0
  | .loadBegin attempt => (64 - attempt) * (kWords T + 2)
  | .words attempt _ i _ => (63 - attempt) * (kWords T + 2) + (kWords T + 1 - i)

/-- A call that has not returned has a load to make. -/
theorem LoadPc.live.left_pos {pc : LoadPc T} (h : pc.live) : 0 < pc.left := by
  cases pc with
  | idle => exact h.elim
  | loadBegin a =>
      have ha : a < 64 := h
      exact Nat.mul_pos (by omega) (by omega)
  | words a beg i raw =>
      obtain ⟨-, hi⟩ := h
      simp only [LoadPc.left]
      omega

/-- An attempt that fails leaves the next ones. -/
theorem retry_left {a : Nat} {pc : LoadPc T} (h : retry a = (pc, none)) :
    pc.live ∧ pc.left = (63 - a) * (kWords T + 2) := by
  unfold retry at h
  split at h
  · rename_i hlt
    obtain ⟨rfl, -⟩ := Prod.mk.inj h
    refine ⟨hlt, ?_⟩
    show (64 - (a + 1)) * (kWords T + 2) = _
    congr 1
    omega
  · cases h

/-- **A call of `load` ends**: every access that does not return leaves one fewer. -/
theorem loadStep_left {l : Seqlock T} {out out' : T} {pc pc' : LoadPc T} (hlive : pc.live)
    (h : loadStep l out pc = (out', pc', none)) : pc'.live ∧ pc'.left < pc.left := by
  cases pc with
  | idle => exact hlive.elim
  | loadBegin a =>
      have ha : a < 64 := hlive
      have hsplit : (64 - a) * (kWords T + 2) = (63 - a) * (kWords T + 2) + (kWords T + 2) := by
        rw [show 64 - a = 63 - a + 1 by omega, Nat.add_mul, Nat.one_mul]
      simp only [loadStep] at h
      split at h
      · obtain ⟨-, hretry⟩ := Prod.mk.inj h
        obtain ⟨hlive', hleft⟩ := retry_left hretry
        refine ⟨hlive', ?_⟩
        rw [hleft, LoadPc.left, hsplit]
        omega
      · cases h
        refine ⟨⟨ha, Nat.zero_le _⟩, ?_⟩
        simp only [LoadPc.left]
        omega
  | words a beg i raw =>
      obtain ⟨ha, hi⟩ := hlive
      simp only [loadStep] at h
      split at h
      · rename_i hlt
        cases h
        refine ⟨⟨ha, hlt⟩, ?_⟩
        simp only [LoadPc.left]
        omega
      · split at h
        · cases h
        · obtain ⟨-, hretry⟩ := Prod.mk.inj h
          obtain ⟨hlive', hleft⟩ := retry_left hretry
          refine ⟨hlive', ?_⟩
          rw [hleft, LoadPc.left]
          omega

/-! ## A slot nobody writes -/

/-- What a slot holds between two publishes: the last value published, or zero. -/
def current (l : Seqlock T) : T := l.versions.getLast?.getD (Raw.unpack Raw.zero)

theorem current_nil {l : Seqlock T} (h : l.versions = []) : l.current = Raw.unpack Raw.zero := by
  simp [current, h]

theorem current_append {l : Seqlock T} {vs : List T} {v : T} (h : l.versions = vs ++ [v]) :
    l.current = v := by
  simp [current, h]

theorem current_mem {l : Seqlock T} (h : l.versions ≠ []) : l.current ∈ l.versions := by
  rw [current, List.getLast?_eq_some_getLast h]
  exact List.getLast_mem h

theorem unpack_rawAt_length (l : Seqlock T) :
    Raw.unpack (rawAt l.versions l.versions.length) = l.current := by
  rcases List.eq_nil_or_concat l.versions with hnil | ⟨vs, v, hv⟩
  · rw [current_nil hnil, hnil]
    rfl
  · rw [List.concat_eq_append] at hv
    rw [current_append hv, hv, List.length_append]
    exact (congrArg Raw.unpack (rawAt_last vs v)).trans (Raw.unpack_pack v)

/-- The value a publish in progress is about. -/
def PubPc.value : PubPc T → Option T
  | .idle => none
  | .loadSeq v => some v
  | .storeOdd v _ => some v
  | .words v _ _ => some v

omit [TriviallyCopyable T] in
theorem PubPc.idle_of_value {w : PubPc T} (h : w.value = none) : w = .idle := by
  cases w with
  | idle => rfl
  | _ => cases h

/-- A publish keeps its value to the even store, and the even store adds it. -/
theorem publishStep_value (l : Seqlock T) (w : PubPc T) :
    ((publishStep l w).2.value = w.value ∧ (publishStep l w).1.versions = l.versions)
      ∨ ((publishStep l w).2 = .idle
          ∧ ∃ v, w.value = some v ∧ (publishStep l w).1.versions = l.versions ++ [v]) := by
  cases w with
  | words v q i =>
      simp only [publishStep]
      split
      · exact Or.inl ⟨rfl, rfl⟩
      · exact Or.inr ⟨rfl, v, rfl, rfl⟩
  | idle => exact Or.inl ⟨rfl, rfl⟩
  | loadSeq v => exact Or.inl ⟨rfl, rfl⟩
  | storeOdd v q => exact Or.inl ⟨rfl, rfl⟩

/-- A writer that died with the sequence even left the slot as if it were outside any call. -/
theorem LockInv.of_even {l : Seqlock T} {w : PubPc T} (h : LockInv l w)
    (heven : l.seq &&& 1 = 0) : LockInv l .idle := by
  refine h.stable ?_
  cases hw : w.inWords with
  | false => rfl
  | true =>
      rw [h.odd hw] at heven
      exact absurd heven (odd_and_one _)

/-- **A load that finds the slot as it was at its `begin` load does not fail**, and it yields
what the slot holds. -/
theorem LoadOk.undisturbed {l : Seqlock T} {w : PubPc T} {pc : LoadPc T} (out : T)
    (hl : LockInv l w) (hw : w.inWords = false) (hpc : pc ≠ .idle)
    (h : LoadOk l w l.versions.length pc) :
    ((Seqlock.loadStep l out pc).2.2 = none
        ∧ LoadOk l w l.versions.length (Seqlock.loadStep l out pc).2.1)
      ∨ ((Seqlock.loadStep l out pc).2.2 = some true
          ∧ (Seqlock.loadStep l out pc).1 = l.current) := by
  have hnext : LoadOk l w (versionAfter l l.versions.length pc) (Seqlock.loadStep l out pc).2.1 :=
    h.loadStep hl
  have hseq := (hl.stable hw).1
  cases pc with
  | idle => exact absurd rfl hpc
  | loadBegin a =>
      left
      refine ⟨?_, hnext⟩
      simp [Seqlock.loadStep, hseq, even_and_one]
  | words a beg i raw =>
      by_cases hi : i < kWords T
      · left
        refine ⟨?_, hnext⟩
        simp [Seqlock.loadStep, hi]
      · right
        have hbeg : beg = l.seq := h.2.1.trans hseq.symm
        have htrue : (Seqlock.loadStep l out (.words a beg i raw)).2.2 = some true := by
          simp [Seqlock.loadStep, hi, hbeg]
        have hlt : l.versions.length < l.versions.length + 2 ^ 31 := by omega
        exact ⟨htrue, (h.load_true hl hlt htrue).2.trans (unpack_rawAt_length l)⟩

/-! ## A slot among the steps of its writer's thread -/

/-- What one step of a thread does to one slot it writes: nothing, the call of `publish` with
a value that is as `P` says, or one access of the call. -/
inductive WriterStep (P : T → Prop) (l : Seqlock T) : PubPc T → Seqlock T → PubPc T → Prop
  | stay (w : PubPc T) : WriterStep P l w l w
  | call {v : T} (hv : P v) : WriterStep P l .idle l (.loadSeq v)
  | access (w : PubPc T) : WriterStep P l w (publishStep l w).1 (publishStep l w).2

namespace WriterStep

variable {P : T → Prop} {l l' : Seqlock T} {w w' : PubPc T}

theorem lockInv (h : WriterStep P l w l' w') (hl : LockInv l w) : LockInv l' w' := by
  cases h with
  | stay => exact hl
  | call hv => exact hl
  | access => exact hl.publishStep

theorem loadOk (h : WriterStep P l w l' w') {b : Nat} {pc : LoadPc T} (hpc : LoadOk l w b pc) :
    LoadOk l' w' b pc := by
  cases h with
  | stay => exact hpc
  | call hv => exact hpc.of_stable fun _ => rfl
  | access => exact hpc.publishStep

/-- Only the even store adds a version, and what it adds was being published. -/
theorem versions (h : WriterStep P l w l' w') :
    l'.versions = l.versions
      ∨ ∃ v, w.value = some v ∧ w' = .idle ∧ l'.versions = l.versions ++ [v] := by
  cases h with
  | stay => exact Or.inl rfl
  | call hv => exact Or.inl rfl
  | access =>
      rcases publishStep_value l w with ⟨_, hv⟩ | ⟨hidle, v, hw, hv⟩
      · exact Or.inl hv
      · exact Or.inr ⟨v, hw, hidle, hv⟩

theorem value (h : WriterStep P l w l' w') {v : T} (hv : w'.value = some v) :
    w.value = some v ∨ (P v ∧ w = .idle ∧ l' = l) := by
  cases h with
  | stay => exact Or.inl hv
  | call hp =>
      obtain rfl := Option.some.inj hv
      exact Or.inr ⟨hp, rfl, rfl⟩
  | access =>
      rcases publishStep_value l w with ⟨hw, _⟩ | ⟨hidle, _⟩
      · exact Or.inl (hw ▸ hv)
      · rw [hidle] at hv
        cases hv

/-- What is true of every value published so far, and of the one under way. -/
theorem all (h : WriterStep P l w l' w') (hl : ∀ v, v ∈ l.versions ∨ w.value = some v → P v) :
    ∀ v, v ∈ l'.versions ∨ w'.value = some v → P v := by
  intro v hv
  rcases hv with hmem | hval
  · rcases h.versions with hsame | ⟨u, hu, _, happ⟩
    · exact hl v (Or.inl (hsame ▸ hmem))
    · rw [happ, List.mem_append, List.mem_singleton] at hmem
      rcases hmem with hmem | rfl
      · exact hl v (Or.inl hmem)
      · exact hl _ (Or.inr hu)
  · rcases h.value hval with hw | ⟨hp, _⟩
    · exact hl v (Or.inr hw)
    · exact hp

end WriterStep

/-! ## Every run -/

/-- What is true of a load that has returned. -/
structure EntryOk (l : Seqlock T) (e : Returned T) : Prop where
  value : e.ok = true →
    e.called ≤ e.version ∧ e.version ≤ e.returned ∧ l.history[e.version]? = some e.out
  unchanged : e.ok = false → e.out = e.before
  quiet : e.quiet = true → e.ok = true ∧ e.version = e.called
  bound : e.called ≤ e.returned ∧ e.returned ≤ l.versions.length

/-- What is true of a reader. -/
structure ReaderInv (l : Seqlock T) (w : PubPc T) (rd : Reader T) : Prop where
  load : LoadOk l w rd.version rd.pc
  called : rd.pc ≠ .idle → rd.called ≤ l.versions.length ∧ rd.out = rd.before
  version : ∀ a b i raw, rd.pc = .words a b i raw → rd.called ≤ rd.version
  /-- An undisturbed call is still in its first attempt, at the latest version. -/
  quiet : rd.pc ≠ .idle → rd.quiet = true →
    w = .idle ∧ rd.called = l.versions.length
      ∧ (rd.pc = .loadBegin 0
          ∨ ∃ b i raw, rd.pc = .words 0 b i raw ∧ rd.version = l.versions.length)
  log : ∀ e ∈ rd.log, EntryOk l e
  /-- A call begins after the ones before it returned. -/
  order : rd.log.Pairwise fun e f => e.returned ≤ f.called
  last : rd.pc ≠ .idle → ∀ e ∈ rd.log, e.returned ≤ rd.called

/-- The whole system. -/
structure Inv (s : State T R) : Prop where
  lock : LockInv s.lock s.writer
  readers : ∀ r, ReaderInv s.lock s.writer (s.readers r)

omit [DecidableEq R] in
theorem inv_start {s : State T R} (h : s.Start) : Inv s := by
  obtain ⟨hl, hw, hr⟩ := h
  refine ⟨?_, ?_⟩
  · rw [hl, hw]
    exact ⟨rfl, rfl⟩
  · intro r
    obtain ⟨out, hout⟩ := hr r
    rw [hout]
    exact
      { load := trivial
        called := fun h => absurd rfl h
        version := fun _ _ _ _ h => by simp [Reader.init] at h
        quiet := fun h => absurd rfl h
        log := fun e he => by simp [Reader.init] at he
        order := List.Pairwise.nil
        last := fun h => absurd rfl h }

/-- Returned loads stay right when versions are added. -/
theorem EntryOk.mono {l l' : Seqlock T} {e : Returned T} (h : EntryOk l e)
    (hv : l'.versions = l.versions ∨ ∃ v, l'.versions = l.versions ++ [v]) : EntryOk l' e := by
  refine ⟨?_, h.unchanged, h.quiet, h.bound.1, ?_⟩
  · intro hok
    obtain ⟨h1, h2, h3⟩ := h.value hok
    refine ⟨h1, h2, ?_⟩
    rcases hv with hv | ⟨v, hv⟩
    · rw [history, hv]; exact h3
    · rw [history, hv]; exact history_append v h3
  · have := h.bound.2
    rcases hv with hv | ⟨v, hv⟩
    · rw [hv]; exact this
    · rw [hv, List.length_append]; omega

/-- A reader keeps its facts across an access of the writer. -/
theorem ReaderInv.publishStep {l : Seqlock T} {w : PubPc T} {rd : Reader T}
    (h : ReaderInv l w rd) (hw : w.busy = true) :
    ReaderInv (publishStep l w).1 (publishStep l w).2 rd := by
  have hv : (Seqlock.publishStep l w).1.versions = l.versions
      ∨ ∃ v, (Seqlock.publishStep l w).1.versions = l.versions ++ [v] :=
    (publishStep_versions l w).imp id And.left
  have hlen : l.versions.length ≤ (Seqlock.publishStep l w).1.versions.length := by
    rcases hv with hv | ⟨v, hv⟩ <;> simp [hv]
  refine ⟨h.load.publishStep, ?_, h.version, ?_, fun e he => (h.log e he).mono hv, h.order, h.last⟩
  · intro hpc
    exact ⟨Nat.le_trans (h.called hpc).1 hlen, (h.called hpc).2⟩
  · -- a call that sees the writer move is not undisturbed
    intro hpc hq
    have := (h.quiet hpc hq).1
    rw [this] at hw
    exact absurd hw (by simp [PubPc.busy])

/-- A reader keeps its facts when a writer outside its words is killed. -/
theorem ReaderInv.killed {l : Seqlock T} {w : PubPc T} {rd : Reader T}
    (h : ReaderInv l w rd) (hw : w.inWords = false) : ReaderInv l .idle rd :=
  { h with
    load := h.load.of_stable fun _ => hw
    quiet := fun hpc hquiet => ⟨rfl, (h.quiet hpc hquiet).2⟩ }

omit [DecidableEq R] in
/-- A reader's own access: what it returns is right. -/
theorem entryOk_of_return {s : State T R} {r : R} (h : Inv s) (hp : prompt s (.reader r) = true)
    {ok : Bool} (hpc : (s.readers r).pc ≠ .idle)
    (hret : (loadStep s.lock (s.readers r).out (s.readers r).pc).2.2 = some ok) :
    EntryOk s.lock
      { ok := ok, out := (loadStep s.lock (s.readers r).out (s.readers r).pc).1
        before := (s.readers r).before, called := (s.readers r).called
        returned := s.lock.versions.length
        version := versionAfter s.lock (s.readers r).version (s.readers r).pc
        quiet := (s.readers r).quiet } := by
  have hr := h.readers r
  have hcalled := hr.called hpc
  refine ⟨?_, ?_, ?_, hcalled.1, Nat.le_refl _⟩
  · intro hok
    simp only at hok
    subst hok
    -- only the `end` load returns true
    cases hpc' : (s.readers r).pc with
    | idle => exact absurd hpc' hpc
    | loadBegin a =>
        rw [hpc'] at hret
        simp only [loadStep, retry] at hret
        split at hret
        · split at hret <;> simp at hret
        · simp at hret
    | words a b i raw =>
        have hlt : s.lock.versions.length < (s.readers r).version + 2 ^ 31 := by
          simp only [prompt, hpc', Bool.or_eq_true, decide_eq_true_eq] at hp
          rcases hp with hi | hlt
          · rw [hpc'] at hret
            simp [loadStep, hi] at hret
          · exact hlt
        have hload := hr.load
        rw [hpc'] at hret hload
        obtain ⟨hb, hout⟩ := hload.load_true h.lock hlt hret
        simp only [versionAfter]
        refine ⟨hr.version a b i raw hpc', Nat.le_of_eq hb, ?_⟩
        rw [hout]
        exact history_rawAt (Nat.le_of_eq hb)
  · -- a call that returns false has left its argument as it was
    intro hok
    simp only at hok ⊢
    subst hok
    rw [loadStep_out (by rw [hret]; simp)]
    exact hcalled.2
  · -- undisturbed, the call returns from its first `end` load
    intro hq
    obtain ⟨hw, hcn, hcase⟩ := hr.quiet hpc hq
    have hstable := h.lock.stable (w := s.writer) (by rw [hw]; rfl)
    simp only
    rcases hcase with hbegin | ⟨b, i, raw, hwords, hver⟩
    · -- the sequence is even, so the first access does not return
      rw [hbegin] at hret
      simp only [loadStep, hstable.1] at hret
      rw [if_neg (by rw [even_and_one]; simp)] at hret
      exact absurd hret (by simp)
    · rw [hwords] at hret ⊢
      have hload := hr.load
      rw [hwords] at hload
      have hbeg : b = s.lock.seq := by rw [hload.2.1, hver, hstable.1]
      simp only [loadStep, hbeg] at hret
      split at hret
      · exact absurd hret (by simp)
      · simp only [if_true] at hret
        exact ⟨(Option.some.inj hret).symm, by simp only [versionAfter]; omega⟩

omit [DecidableEq R] in
/-- A reader's own access keeps its facts. -/
theorem readerInv_step {s : State T R} {r : R} (h : Inv s) (hp : prompt s (.reader r) = true)
    (hpc : (s.readers r).pc ≠ .idle) :
    ReaderInv s.lock s.writer ((s.readers r).step s.lock) := by
  have hr := h.readers r
  have hcalled := hr.called hpc
  have hload : LoadOk s.lock s.writer (versionAfter s.lock (s.readers r).version (s.readers r).pc)
      (loadStep s.lock (s.readers r).out (s.readers r).pc).2.1 := hr.load.loadStep h.lock
  cases hret : (loadStep s.lock (s.readers r).out (s.readers r).pc).2.2 with
  | some ok =>
      -- the call returns: one more entry in the log, nothing in progress
      have hidle : (loadStep s.lock (s.readers r).out (s.readers r).pc).2.1 = .idle :=
        (loadStep_returns hpc).mpr ⟨ok, hret⟩
      have hentry := entryOk_of_return h hp hpc hret
      simp only [Reader.step, hret, hidle]
      refine ⟨trivial, fun hne => absurd rfl hne, ?_, fun hne => absurd rfl hne, ?_, ?_,
        fun hne => absurd rfl hne⟩
      · intro a b i raw hw
        exact absurd hw (by simp)
      · intro e he
        rcases List.mem_append.mp he with he | he
        · exact hr.log e he
        · rw [List.mem_singleton] at he
          subst he
          exact hentry
      · rw [List.pairwise_append]
        refine ⟨hr.order, List.pairwise_singleton _ _, ?_⟩
        intro e he f hf
        rw [List.mem_singleton] at hf
        subst hf
        exact hr.last hpc e he
  | none =>
      -- the call goes on, and has not touched its result
      have hnidle : (loadStep s.lock (s.readers r).out (s.readers r).pc).2.1 ≠ .idle := by
        intro hi
        obtain ⟨ok, hok⟩ := (loadStep_returns hpc).mp hi
        rw [hret] at hok
        exact absurd hok (by simp)
      have hout : (loadStep s.lock (s.readers r).out (s.readers r).pc).1 = (s.readers r).out :=
        loadStep_out (by rw [hret]; simp)
      simp only [Reader.step, hret]
      refine ⟨hload, fun _ => ⟨hcalled.1, by simp only [hout]; exact hcalled.2⟩, ?_, ?_, hr.log,
        hr.order, fun _ => hr.last hpc⟩
      · intro a b i raw hw
        simp only at hw ⊢
        cases hpc' : (s.readers r).pc with
        | idle => exact absurd hpc' hpc
        | loadBegin a' => exact hcalled.1
        | words a' b' i' raw' => exact hr.version _ _ _ _ hpc'
      · -- an undisturbed call goes from its first `begin` load through the words
        intro _ hq
        obtain ⟨hw, hcn, hcase⟩ := hr.quiet hpc hq
        refine ⟨hw, hcn, Or.inr ?_⟩
        have hstable := h.lock.stable (w := s.writer) (by rw [hw]; rfl)
        rcases hcase with hbegin | ⟨b, i, raw, hwords, hver⟩
        · refine ⟨s.lock.seq, 0, Raw.zero, ?_, ?_⟩
          · simp only [hbegin, loadStep, hstable.1]
            rw [if_neg (by rw [even_and_one]; simp)]
          · simp only [hbegin]
        · rw [hwords] at hret
          simp only [loadStep] at hret
          split at hret
          · rename_i hlt
            refine ⟨b, i + 1, Function.update raw ⟨i, hlt⟩ (s.lock.words ⟨i, hlt⟩), ?_, ?_⟩
            · simp only [hwords, loadStep, dif_pos hlt]
            · simp only [hwords]
              exact hver
          · have hload' := hr.load
            rw [hwords] at hload'
            have hbeg : b = s.lock.seq := by rw [hload'.2.1, hver, hstable.1]
            rw [if_pos hbeg] at hret
            exact absurd hret (by simp)

omit [DecidableEq R] in
theorem readerInv_call {s : State T R} {r : R} (h : Inv s) :
    ReaderInv s.lock s.writer ((s.readers r).call s.lock s.writer.busy) := by
  have hr := h.readers r
  refine ⟨trivial, fun _ => ⟨Nat.le_refl _, rfl⟩, ?_, ?_, hr.log, hr.order,
    fun _ e he => (hr.log e he).bound.2⟩
  · intro a b i raw hw
    exact absurd hw (by simp [Reader.call])
  · intro _ hq
    refine ⟨?_, rfl, Or.inl rfl⟩
    simp only [Reader.call, Bool.not_eq_true'] at hq
    cases hw : s.writer with
    | idle => rfl
    | loadSeq v => rw [hw] at hq; exact absurd hq (by simp [PubPc.busy])
    | storeOdd v q => rw [hw] at hq; exact absurd hq (by simp [PubPc.busy])
    | words v q i => rw [hw] at hq; exact absurd hq (by simp [PubPc.busy])

/-- **Preserved by every step whose kills are clean.** -/
theorem inv_step {s s' : State T R} {a : Act T R} (h : Inv s) (hp : prompt s a = true)
    (hk : cleanKill s a = true) (hs : s.step a = some s') : Inv s' := by
  cases a with
  | callPublish v =>
      simp only [State.step] at hs
      split at hs
      · rename_i hw
        obtain rfl := Option.some.inj hs
        refine ⟨?_, ?_⟩
        · have := h.lock
          rw [hw] at this
          exact this
        · -- a publish begins, so no load is undisturbed any more
          intro r
          have hr := h.readers r
          rw [hw] at hr
          exact
            { load := hr.load.of_stable fun _ => rfl
              called := hr.called
              version := hr.version
              quiet := fun _ hq => absurd hq (by simp)
              log := hr.log
              order := hr.order
              last := hr.last }
      · exact absurd hs (by simp)
  | writer =>
      simp only [State.step] at hs
      split at hs
      · rename_i hw
        obtain rfl := Option.some.inj hs
        exact ⟨h.lock.publishStep, fun r => (h.readers r).publishStep hw⟩
      · exact absurd hs (by simp)
  | callLoad r =>
      simp only [State.step] at hs
      split at hs
      · obtain rfl := Option.some.inj hs
        refine ⟨h.lock, fun r' => ?_⟩
        by_cases hr : r' = r
        · subst hr
          simp only [Function.update_self]
          exact readerInv_call h
        · simp only [Function.update_of_ne hr]
          exact h.readers r'
      · exact absurd hs (by simp)
  | reader r =>
      simp only [State.step] at hs
      split at hs
      · exact absurd hs (by simp)
      · rename_i hpc
        obtain rfl := Option.some.inj hs
        refine ⟨h.lock, fun r' => ?_⟩
        by_cases hr : r' = r
        · subst hr
          simp only [Function.update_self]
          exact readerInv_step h hp hpc
        · simp only [Function.update_of_ne hr]
          exact h.readers r'
  | killWriter =>
      obtain rfl := Option.some.inj hs
      simp only [cleanKill, Bool.not_eq_true'] at hk
      exact ⟨h.lock.stable hk, fun r => (h.readers r).killed hk⟩

/-- Every state of the runs in which writers are killed only outside their words. -/
def ReachableClean : State T R → Prop :=
  Transition.Reachable State.step (fun s a => prompt s a = true ∧ cleanKill s a = true) State.Start

/-- Every state of the runs in which no writer dies. -/
def ReachableAlive : State T R → Prop :=
  Transition.Reachable State.step (fun s a => prompt s a = true ∧ noKill a = true) State.Start

theorem inv_reachable {s : State T R} (h : ReachableClean s) : Inv s := by
  refine Transition.Reachable.invariant ?_ ?_ h
  · intro s hs
    exact inv_start hs
  · intro s a s' hi hok hs
    exact inv_step hi hok.1 hok.2 hs

theorem ReachableAlive.clean {s : State T R} (h : ReachableAlive s) : ReachableClean s := by
  refine Transition.Reachable.mono ?_ h
  rintro s a ⟨hp, hk⟩
  refine ⟨hp, ?_⟩
  cases a with
  | killWriter => exact absurd hk (by simp [noKill])
  | callPublish v => rfl
  | writer => rfl
  | callLoad r => rfl
  | reader r => rfl

/--
**A load never yields a mix.**

For every payload type, every sequence of publishes by one writer, any number of
readers and every interleaving of their accesses, with fewer than `2^31`
publishes between an attempt's two sequence loads: a load that returned true
left in `out` exactly the value of one version (0 is the initial zero value), and
that version is at least as recent as the last publish completed when the load
was called; successive successful loads of one reader never go back; a load that
returned false left `out` alone; and a load during which no publish was in
progress returned true.
-/
theorem load_consistent {s : State T R} (h : ReachableAlive s) (r : R) :
    (∀ e ∈ (s.readers r).log,
        (e.ok = true → s.lock.history[e.version]? = some e.out ∧ e.called ≤ e.version)
          ∧ (e.ok = false → e.out = e.before)
          ∧ (e.quiet = true → e.ok = true))
      ∧ (s.readers r).log.Pairwise
          (fun e f => e.ok = true → f.ok = true → e.version ≤ f.version) := by
  have hr := (inv_reachable h.clean).readers r
  refine ⟨fun e he => ⟨?_, (hr.log e he).unchanged, fun hq => ((hr.log e he).quiet hq).1⟩, ?_⟩
  · intro hok
    obtain ⟨h1, _, h3⟩ := (hr.log e he).value hok
    exact ⟨h3, h1⟩
  · refine hr.order.imp_of_mem ?_
    intro e f he hf hef hoke hokf
    have h1 := ((hr.log e he).value hoke).2.1
    have h2 := ((hr.log f hf).value hokf).1
    omega

/-- A fresh slot whose readers all start from `out`. -/
def State.fresh (out : T) : State T R :=
  { lock := init, writer := .idle, readers := fun _ => Reader.init out }

/-- Sixteen bytes, the size of a window row: two words. -/
abbrev Row := Fin 16 → UInt8

/-- A load whose first attempt a publish runs into, and whose second succeeds. -/
theorem load_consistent_retried :
    ∃ (s : State Row Unit) (e : Returned Row), e ∈ (s.readers ()).log ∧ e.ok = true
      ∧ s.lock.history[e.version]? = some e.out ∧ e.called ≤ e.version := by
  have h : ∃ s, Transition.execWhen State.step (fun s a => prompt s a && noKill a)
      (State.fresh (fun _ => 9) : State Row Unit)
      [.callPublish (fun _ => 1), .writer, .callLoad (), .reader (), .writer, .writer, .reader (),
        .reader (), .writer, .reader (), .writer, .reader (), .reader (), .reader (),
        .reader ()] = some s ∧ ∃ e ∈ (s.readers ()).log, e.ok = true :=
    ⟨_, rfl, _, List.mem_singleton.mpr rfl, rfl⟩
  obtain ⟨s, hs, e, he, hok⟩ := h
  have hr : ReachableAlive s := by
    refine Transition.Reachable.execWhen (g := fun s a => prompt s a && noKill a) ?_ _
      (.init ⟨rfl, rfl, fun _ => ⟨_, rfl⟩⟩) hs
    intro s a hb
    simpa using hb
  exact ⟨s, e, he, hok, ((load_consistent hr ()).1 e he).1 hok⟩

/-! ## Writers that are killed and replaced -/

/--
**Clean kills are harmless.**

In every run in which a writer is killed only outside the span from its odd store
to its even store, however many processes continue on the same slot: a load that
returned true holds one complete published value (or the initial one), and a
load during which no publish was in progress returned true with the value of the
last publish completed before it.
-/
theorem load_after_restart {s : State T R} (h : ReachableClean s) (r : R) :
    ∀ e ∈ (s.readers r).log,
      (e.ok = true → e.out ∈ s.lock.history)
        ∧ (e.quiet = true → e.ok = true ∧ s.lock.history[e.called]? = some e.out) := by
  have hr := (inv_reachable h).readers r
  intro e he
  have hentry := hr.log e he
  refine ⟨fun hok => List.mem_of_getElem? (hentry.value hok).2.2, fun hq => ?_⟩
  obtain ⟨hok, hver⟩ := hentry.quiet hq
  exact ⟨hok, hver ▸ (hentry.value hok).2.2⟩

/-- A writer killed before its odd store; the next process publishes and is read. -/
theorem load_after_restart_clean :
    ∃ (s : State Row Unit) (e : Returned Row), e ∈ (s.readers ()).log ∧ e.quiet = true
      ∧ e.ok = true ∧ s.lock.history[e.called]? = some e.out := by
  have h : ∃ s, Transition.execWhen State.step (fun s a => prompt s a && cleanKill s a)
      (State.fresh (fun _ => 9) : State Row Unit)
      [.callPublish (fun _ => 1), .writer, .killWriter, .callPublish (fun _ => 2), .writer,
        .writer, .writer, .writer, .writer, .callLoad (), .reader (), .reader (), .reader (),
        .reader ()] = some s ∧ ∃ e ∈ (s.readers ()).log, e.quiet = true :=
    ⟨_, rfl, _, List.mem_singleton.mpr rfl, rfl⟩
  obtain ⟨s, hs, e, he, hq⟩ := h
  have hr : ReachableClean s := by
    refine Transition.Reachable.execWhen (g := fun s a => prompt s a && cleanKill s a) ?_ _
      (.init ⟨rfl, rfl, fun _ => ⟨_, rfl⟩⟩) hs
    intro s a hb
    simpa using hb
  exact ⟨s, e, he, hq, (load_after_restart hr () e he).2 hq⟩

/--
**A kill between the odd and the even store inverts the parity.**

The first process publishes ones, then dies right after the odd store of its next
publish. The second process finds an odd sequence, so its "odd" store is even:
a reader that meets it after its first word returns true with eight bytes of the
new value and eight of the old.
-/
theorem load_mixes_after_kill :
    ∃ (s : State Row Unit) (e : Returned Row),
      Transition.Reachable State.step (fun s a => prompt s a = true) State.Start s
        ∧ e ∈ (s.readers ()).log ∧ e.ok = true ∧ e.out ∉ s.lock.history
        ∧ e.out = (fun b => if b.val < 8 then 2 else 1) := by
  have h : ∃ s, Transition.execWhen State.step prompt
      (State.fresh (fun _ => 9) : State Row Unit)
      [.callPublish (fun _ => 1), .writer, .writer, .writer, .writer, .writer,
        .callPublish (fun _ => 3), .writer, .writer, .killWriter,
        .callPublish (fun _ => 2), .writer, .writer, .writer,
        .callLoad (), .reader (), .reader (), .reader (), .reader ()] = some s
      ∧ s.lock.versions = [fun _ => 1]
      ∧ ∃ e ∈ (s.readers ()).log, e.ok = true ∧ e.out = (fun b => if b.val < 8 then 2 else 1) :=
    ⟨_, rfl, rfl, _, List.mem_singleton.mpr rfl, rfl, funext (by decide)⟩
  obtain ⟨s, hs, hv, e, he, hok, hout⟩ := h
  refine ⟨s, e, ?_, he, hok, ?_, hout⟩
  · exact Transition.Reachable.execWhen (g := prompt) (fun _ _ hb => hb) _
      (.init ⟨rfl, rfl, fun _ => ⟨_, rfl⟩⟩) hs
  · rw [hout, history, hv, List.mem_cons, List.mem_singleton]
    rintro (heq | heq)
    · exact absurd (congrFun heq 0) (by decide)
    · exact absurd (congrFun heq 0) (by decide)

end RateHub.Seqlock
