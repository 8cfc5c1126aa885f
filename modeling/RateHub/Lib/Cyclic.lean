import Mathlib.Data.Nat.ModEq

/-!
# Cyclic indexes

A bounded buffer addresses its cells by a counter reduced modulo the number of
cells, but the argument that it is right is about the unreduced counters. These
are the facts that lead from one to the other: counters less than one lap apart
are told apart by their residues, and masking with `2 ^ k - 1` is reduction.
-/

namespace Cyclic

/-- Counters less than one lap apart are equal when their residues are. -/
theorem eq_of_mod_eq {n a b : Nat} (hab : a ≤ b) (hlt : b < a + n) (h : a % n = b % n) :
    a = b := by
  have hdvd : n ∣ b - a := (Nat.modEq_iff_dvd' hab).mp h
  have hzero : b - a = 0 := Nat.eq_zero_of_dvd_of_lt hdvd (by omega)
  omega

/-- The counter that is exactly one lap ahead. -/
theorem succ_mod_eq_iff {n a b : Nat} (hab : a ≤ b) (hlt : b < a + n) :
    (b + 1) % n = a % n ↔ b + 1 = a + n := by
  constructor
  · intro h
    rcases Nat.lt_or_ge (b + 1) (a + n) with hl | hl
    · have := eq_of_mod_eq (a := a) (b := b + 1) (by omega) hl h.symm
      omega
    · omega
  · intro h
    rw [h, Nat.add_mod_right]

/-! ## Masks of 32-bit indexes -/

/-- A 32-bit power of two, in the form a `static_assert` checks it. -/
theorem exists_pow {c : UInt32} (h2 : 2 ≤ c) (hand : c &&& (c - 1) = 0) :
    ∃ k, c.toNat = 2 ^ k ∧ k ≤ 31 := by
  have hle : 2 ≤ c.toNat := UInt32.le_iff_toNat_le.mp h2
  have hsub : (c - 1).toNat = c.toNat - 1 := by
    rw [UInt32.toNat_sub_of_le]
    · rfl
    · rw [UInt32.le_iff_toNat_le]
      have : (1 : UInt32).toNat = 1 := rfl
      omega
  have hnat : c.toNat &&& (c.toNat - 1) = 0 := by
    rw [← hsub, ← UInt32.toNat_and, hand]; rfl
  obtain ⟨k, hk⟩ := (Nat.and_sub_one_eq_zero_iff_isPowerOfTwo (by omega)).mp hnat
  refine ⟨k, hk, ?_⟩
  have hlt : 2 ^ k < 2 ^ 32 := hk ▸ c.toNat_lt
  have := (Nat.pow_lt_pow_iff_right (by decide : 1 < 2)).mp hlt
  omega

/-- Masking with `c - 1` reduces modulo the power of two `c`. -/
theorem toNat_and_pred {c : UInt32} (h2 : 2 ≤ c) (hand : c &&& (c - 1) = 0) (x : UInt32) :
    (x &&& (c - 1)).toNat = x.toNat % c.toNat := by
  obtain ⟨k, hk, _⟩ := exists_pow h2 hand
  have hle : 2 ≤ c.toNat := UInt32.le_iff_toNat_le.mp h2
  have hsub : (c - 1).toNat = 2 ^ k - 1 := by
    rw [UInt32.toNat_sub_of_le, hk]
    · rfl
    · rw [UInt32.le_iff_toNat_le]
      have : (1 : UInt32).toNat = 1 := rfl
      omega
  rw [UInt32.toNat_and, hsub, Nat.and_two_pow_sub_one_eq_mod, hk]

/-- A lap divides the range of the index, so wrapping the index loses nothing. -/
theorem mod_wrap {c : UInt32} (h2 : 2 ≤ c) (hand : c &&& (c - 1) = 0) (x : Nat) :
    x % 2 ^ 32 % c.toNat = x % c.toNat := by
  obtain ⟨k, hk, hk31⟩ := exists_pow h2 hand
  rw [hk]
  exact Nat.mod_mod_of_dvd x (Nat.pow_dvd_pow 2 (by omega))

end Cyclic
