import Mathlib.Data.List.Chain
import Mathlib.Data.List.Count
import Mathlib.Data.List.Induction

/-!
# Counting by key

A stream of keys, and for each of its items the number of items of the same key so far. A
counter per key, read out each time it is incremented, gives this sequence. It grows
from item to item only if there is nothing to tell apart: one key for the whole stream.
-/

namespace Tally

variable {κ : Type*} [DecidableEq κ]

/-- The counts read out along `ks`, after the keys `before`. -/
def tallyFrom (before : List κ) : List κ → List Nat
  | [] => []
  | k :: ks => (before ++ [k]).count k :: tallyFrom (before ++ [k]) ks

/-- The counts read out along a stream. -/
def tally (ks : List κ) : List Nat := tallyFrom [] ks

@[simp] theorem tally_nil : tally ([] : List κ) = [] := rfl

theorem tallyFrom_append (before ks ls : List κ) :
    tallyFrom before (ks ++ ls) = tallyFrom before ks ++ tallyFrom (before ++ ks) ls := by
  induction ks generalizing before with
  | nil => simp [tallyFrom]
  | cons k ks ih => simp [tallyFrom, ih]

/-- One item more. -/
theorem tally_snoc (ks : List κ) (k : κ) : tally (ks ++ [k]) = tally ks ++ [ks.count k + 1] := by
  simp [tally, tallyFrom_append, tallyFrom]

@[simp] theorem length_tally (ks : List κ) : (tally ks).length = ks.length := by
  induction ks using List.reverseRecOn with
  | nil => rfl
  | append_singleton ks k ih => simp [tally_snoc, ih]

/-- The counts along the first items are the first counts. -/
theorem tally_take (ks : List κ) (n : Nat) : tally (ks.take n) = (tally ks).take n := by
  have hsplit : tally ks = tally (ks.take n) ++ tallyFrom ([] ++ ks.take n) (ks.drop n) := by
    unfold tally
    rw [← tallyFrom_append, List.take_append_drop]
  by_cases hn : n ≤ ks.length
  · rw [hsplit, List.take_left' (by rw [length_tally, List.length_take_of_le hn])]
  · have hle : ks.length ≤ n := by omega
    rw [List.take_of_length_le hle, List.take_of_length_le (by rw [length_tally]; exact hle)]

/-- No count exceeds the number of items. -/
theorem le_length_of_mem {ks : List κ} {n : Nat} (h : n ∈ tally ks) : n ≤ ks.length := by
  induction ks using List.reverseRecOn with
  | nil => simp at h
  | append_singleton ks k ih =>
      rw [tally_snoc, List.mem_append, List.mem_singleton] at h
      rw [List.length_append, List.length_singleton]
      rcases h with h | rfl
      · have := ih h
        omega
      · have := List.count_le_length (a := k) (l := ks)
        omega

/-- With one key the last count is the number of items. -/
theorem getLast?_tally_of_const {ks : List κ} (hconst : ∀ a ∈ ks, ∀ b ∈ ks, a = b) {n : Nat}
    (h : n ∈ (tally ks).getLast?) : n = ks.length := by
  cases ks using List.reverseRecOn with
  | nil => simp at h
  | append_singleton ks k =>
      have hk : ks.count k = ks.length := by
        rw [List.count_eq_length]
        intro b hb
        exact hconst k (by simp) b (by simp [hb])
      rw [tally_snoc, List.getLast?_concat, Option.mem_some_iff] at h
      rw [List.length_append, List.length_singleton]
      omega

/-- **The counts grow from item to item exactly when there is one key.** -/
theorem isChain_tally {ks : List κ} :
    (tally ks).IsChain (· < ·) ↔ ∀ a ∈ ks, ∀ b ∈ ks, a = b := by
  induction ks using List.reverseRecOn with
  | nil => simp
  | append_singleton ks k ih =>
      rw [tally_snoc, List.isChain_append, ih]
      constructor
      · rintro ⟨hconst, _, hlast⟩
        -- the last count was the length already, so every item so far has the key `k`
        have hall : ∀ b ∈ ks, k = b := by
          rw [← List.count_eq_length]
          have hle := List.count_le_length (a := k) (l := ks)
          cases hl : (tally ks).getLast? with
          | none =>
              have hzero := length_tally ks
              rw [List.getLast?_eq_none_iff.mp hl] at hzero
              simp only [List.length_nil] at hzero
              omega
          | some n =>
              have hn := getLast?_tally_of_const hconst (n := n) hl
              have hlt := hlast n hl (ks.count k + 1) (by simp)
              omega
        intro a ha b hb
        simp only [List.mem_append, List.mem_singleton] at ha hb
        rcases ha with ha | rfl <;> rcases hb with hb | rfl
        · exact hconst a ha b hb
        · exact (hall a ha).symm
        · exact hall b hb
        · rfl
      · intro hconst
        refine ⟨fun a ha b hb => hconst a (by simp [ha]) b (by simp [hb]), by simp, ?_⟩
        intro n hn m hm
        have hm' : m = ks.count k + 1 := by simpa using hm.symm
        have hcount : ks.count k = ks.length := by
          rw [List.count_eq_length]
          intro b hb
          exact hconst k (by simp) b (by simp [hb])
        have hle := le_length_of_mem (List.mem_of_mem_getLast? hn)
        omega

end Tally
