import Mathlib.Algebra.CharP.Two
import Mathlib.Algebra.Polynomial.Div
import Mathlib.Tactic.Abel
import RateHub.Lib.Lfsr

/-!
# The shift register as polynomial division

A register of `w` bits is a polynomial over the two-element field of degree below `w`. To
shift it with the feedback `p` is to multiply by `x` and to reduce once by `x^w + p`, and
a bit that is fed comes in as a multiple of `x^w`. So what the register holds after a
message is a remainder (`feedAll_eq_modByMonic`): that of the message times `x^w`, plus
what the register held at first times the power of `x` that the message is long.
-/

namespace Lfsr

open Polynomial

variable {w : Nat}

/-- The polynomial of a word, bit `i` the coefficient of `x^i`. -/
noncomputable def toPoly (r : BitVec w) : (ZMod 2)[X] :=
  ∑ i ∈ Finset.range w, C (bit (r.getLsbD i)) * X ^ i

/-- The polynomial of a message, its first bit the highest coefficient. -/
noncomputable def messagePoly : List Bool → (ZMod 2)[X]
  | [] => 0
  | b :: bs => C (bit b) * X ^ bs.length + messagePoly bs

/-- The feedback `p` divides by this polynomial. -/
noncomputable def divisor (p : BitVec w) : (ZMod 2)[X] := X ^ w + toPoly p

/-! ## Words -/

theorem coeff_toPoly (r : BitVec w) (k : Nat) : (toPoly r).coeff k = bit (r.getLsbD k) := by
  rw [toPoly, finsetSum_coeff]
  by_cases hk : k < w
  · rw [Finset.sum_eq_single k]
    · simp
    · intro i _ hne
      rw [coeff_C_mul, coeff_X_pow, if_neg (Ne.symm hne), mul_zero]
    · intro h
      exact absurd (Finset.mem_range.mpr hk) h
  · rw [Finset.sum_eq_zero, BitVec.getLsbD_of_ge r k (by omega)]
    · rfl
    · intro i hi
      have hi : i < w := Finset.mem_range.mp hi
      rw [coeff_C_mul, coeff_X_pow, if_neg (by omega), mul_zero]

theorem toPoly_xor (a b : BitVec w) : toPoly (a ^^^ b) = toPoly a + toPoly b := by
  ext k
  rw [coeff_add, coeff_toPoly, coeff_toPoly, coeff_toPoly, BitVec.getLsbD_xor, bit_xor]

theorem degree_toPoly_lt (r : BitVec w) : (toPoly r).degree < w := by
  rw [degree_lt_iff_coeff_zero]
  intro k hk
  rw [coeff_toPoly, BitVec.getLsbD_of_ge r k hk]
  rfl

theorem toPoly_top (hw : 0 < w) : toPoly (top w) = X ^ (w - 1) := by
  ext k
  rw [coeff_toPoly, coeff_X_pow, top, BitVec.getLsbD_twoPow]
  by_cases hk : k = w - 1
  · subst hk
    simp [bit, hw]
  · simp [bit, hk, Ne.symm hk]

/-- Moving up multiplies by `x`, but for the bit that falls out. -/
theorem toPoly_shiftLeft (r : BitVec w) :
    toPoly (r <<< 1) + C (bit r.msb) * X ^ w = toPoly r * X := by
  ext k
  rw [coeff_add, coeff_toPoly, coeff_C_mul, coeff_X_pow]
  cases k with
  | zero =>
      rw [coeff_mul_X_zero, BitVec.getLsbD_shiftLeft]
      cases w with
      | zero => simp [bit, BitVec.msb_eq_getLsbD_last]
      | succ n => simp [bit]
  | succ k =>
      rw [coeff_mul_X, coeff_toPoly, BitVec.getLsbD_shiftLeft, BitVec.msb_eq_getLsbD_last]
      rcases Nat.lt_trichotomy (k + 1) w with hlt | heq | hgt
      · simp [hlt, Nat.ne_of_lt hlt]
      · subst heq
        simp [bit]
      · rw [BitVec.getLsbD_of_ge r k (by omega)]
        simp [bit, Nat.not_lt.mpr (Nat.le_of_lt hgt), Nat.ne_of_gt hgt]

/-! ## The divisor -/

theorem divisor_monic (p : BitVec w) : (divisor p).Monic :=
  monic_X_pow_add (degree_toPoly_lt p)

theorem divisor_degree (p : BitVec w) : (divisor p).degree = w := by
  have hlt : (toPoly p).degree < ((X : (ZMod 2)[X]) ^ w).degree := by
    rw [degree_X_pow]
    exact degree_toPoly_lt p
  rw [divisor, degree_add_eq_left_of_degree_lt hlt, degree_X_pow]

/-- A register is its own remainder. -/
theorem toPoly_modByMonic (p r : BitVec w) : toPoly r %ₘ divisor p = toPoly r := by
  rw [modByMonic_eq_self_iff (divisor_monic p), divisor_degree]
  exact degree_toPoly_lt r

/-! ## Feeding -/

/-- A shift multiplies by `x` and takes away the divisor once, or not at all. -/
theorem toPoly_shift (p r : BitVec w) :
    toPoly (shift p r) + C (bit r.msb) * divisor p = toPoly r * X := by
  rw [← toPoly_shiftLeft]
  unfold shift divisor
  cases r.msb with
  | false => simp [bit]
  | true =>
      simp only [if_true, bit, C_1, one_mul, toPoly_xor]
      calc toPoly (r <<< 1) + toPoly p + (X ^ w + toPoly p)
          = toPoly (r <<< 1) + X ^ w + (toPoly p + toPoly p) := by abel
        _ = toPoly (r <<< 1) + X ^ w := by rw [CharTwo.add_self_eq_zero, add_zero]

/-- One bit more: it comes in at `x^w`. -/
theorem toPoly_feed (p r : BitVec w) (hw : 0 < w) (b : Bool) :
    ∃ q, toPoly (feed p r b) + q * divisor p = toPoly r * X + C (bit b) * X ^ w := by
  have hstep := toPoly_shift p (if b then r ^^^ top w else r)
  refine ⟨_, hstep.trans ?_⟩
  cases b with
  | false => simp [bit]
  | true =>
      have hpow : X ^ (w - 1) * X = (X : (ZMod 2)[X]) ^ w := by
        rw [← pow_succ, Nat.sub_add_cancel hw]
      simp [bit, toPoly_xor, toPoly_top hw, add_mul, hpow]

/-- A whole message: the quotient is what was fed back. -/
theorem toPoly_feedAll (p : BitVec w) (hw : 0 < w) (bs : List Bool) (r : BitVec w) :
    ∃ q, toPoly (feedAll p r bs) + q * divisor p
      = messagePoly bs * X ^ w + toPoly r * X ^ bs.length := by
  induction bs generalizing r with
  | nil => exact ⟨0, by simp [messagePoly]⟩
  | cons b bs ih =>
      obtain ⟨q, hq⟩ := ih (feed p r b)
      obtain ⟨q', hq'⟩ := toPoly_feed p r hw b
      refine ⟨q + q' * X ^ bs.length, ?_⟩
      calc toPoly (feedAll p r (b :: bs)) + (q + q' * X ^ bs.length) * divisor p
          = toPoly (feedAll p (feed p r b) bs) + q * divisor p
              + q' * divisor p * X ^ bs.length := by rw [feedAll_cons]; ring
        _ = messagePoly bs * X ^ w + (toPoly (feed p r b) + q' * divisor p) * X ^ bs.length := by
              rw [hq]; ring
        _ = messagePoly (b :: bs) * X ^ w + toPoly r * X ^ (b :: bs).length := by
              rw [hq', messagePoly, List.length_cons]; ring

/-- **The register holds the remainder.** -/
theorem feedAll_eq_modByMonic (p r : BitVec w) (hw : 0 < w) (bs : List Bool) :
    toPoly (feedAll p r bs)
      = (messagePoly bs * X ^ w + toPoly r * X ^ bs.length) %ₘ divisor p := by
  obtain ⟨q, hq⟩ := toPoly_feedAll p hw bs r
  rw [← hq, add_modByMonic, mul_self_modByMonic (divisor_monic p), add_zero, toPoly_modByMonic]

end Lfsr
