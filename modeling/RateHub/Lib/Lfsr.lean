import Mathlib.Algebra.BigOperators.Group.Finset.Basic
import Mathlib.Algebra.Field.ZMod
import Mathlib.Data.List.GetD

/-!
# Cyclic redundancy checks as shift registers

A register of `w` bits with feedback polynomial `x^w + p`, fed one bit at a time, highest
bit first. Feeding is linear in exclusive or, so what an error does to the remainder does
not depend on what it hits: the remainder of a pattern of bits, fed to a zero register,
decides whether a check notices it. Three kinds of patterns leave one:

* a number of ones that is odd, when `x + 1` divides the polynomial (`feedAll_odd`);
* ones within `w` places, when the polynomial has a constant term (`feedAll_burst`);
* two ones `d` places apart, when `x^d + 1` is not a multiple of it (`feedAll_pair`).
-/

namespace Lfsr

variable {w : Nat}

/-- The highest bit alone. -/
def top (w : Nat) : BitVec w := BitVec.twoPow w (w - 1)

/-- The register moves up by one; the bit that falls out is fed back. -/
def shift (p r : BitVec w) : BitVec w := if r.msb then (r <<< 1) ^^^ p else r <<< 1

/-- One bit more of the message. -/
def feed (p r : BitVec w) (b : Bool) : BitVec w := shift p (if b then r ^^^ top w else r)

/-- A whole message. -/
def feedAll (p r : BitVec w) (bs : List Bool) : BitVec w := bs.foldl (feed p) r

/-- The bits of a word, highest first. -/
def msbs {n : Nat} (x : BitVec n) : List Bool := (List.range n).map x.getMsbD

@[simp] theorem feedAll_nil (p r : BitVec w) : feedAll p r [] = r := rfl

@[simp] theorem feedAll_cons (p r : BitVec w) (b : Bool) (bs : List Bool) :
    feedAll p r (b :: bs) = feedAll p (feed p r b) bs := rfl

theorem feedAll_append (p r : BitVec w) (bs cs : List Bool) :
    feedAll p r (bs ++ cs) = feedAll p (feedAll p r bs) cs := List.foldl_append

/-! ## Linearity -/

theorem xor_swap (a b c d : BitVec w) : (a ^^^ b) ^^^ (c ^^^ d) = (a ^^^ c) ^^^ (b ^^^ d) := by
  rw [BitVec.xor_assoc, BitVec.xor_assoc, ← BitVec.xor_assoc b, BitVec.xor_comm b c,
    BitVec.xor_assoc]

theorem shift_xor (p a b : BitVec w) : shift p (a ^^^ b) = shift p a ^^^ shift p b := by
  unfold shift
  rw [BitVec.msb_xor, BitVec.shiftLeft_xor_distrib]
  cases a.msb <;> cases b.msb
  · rfl
  · exact BitVec.xor_assoc _ _ _
  · simp only [Bool.xor_false, if_true, Bool.false_eq_true, if_false]
    rw [BitVec.xor_assoc, BitVec.xor_assoc, BitVec.xor_comm _ p]
  · simp only [Bool.xor_true, Bool.not_true, if_true, Bool.false_eq_true, if_false]
    rw [xor_swap, BitVec.xor_self, BitVec.xor_zero]

theorem feed_xor (p a b : BitVec w) (x y : Bool) :
    feed p (a ^^^ b) (x ^^ y) = feed p a x ^^^ feed p b y := by
  unfold feed
  rw [← shift_xor]
  congr 1
  cases x <;> cases y
  · rfl
  · exact BitVec.xor_assoc _ _ _
  · simp only [Bool.xor_false, if_true, Bool.false_eq_true, if_false]
    rw [BitVec.xor_assoc, BitVec.xor_assoc, BitVec.xor_comm _ (top w)]
  · simp only [Bool.xor_true, Bool.not_true, if_true, Bool.false_eq_true, if_false]
    rw [xor_swap, BitVec.xor_self, BitVec.xor_zero]

/-- **Feeding is linear.** -/
theorem feedAll_xor (p : BitVec w) : ∀ (bs cs : List Bool) (a b : BitVec w),
    bs.length = cs.length →
    feedAll p (a ^^^ b) (List.zipWith xor bs cs) = feedAll p a bs ^^^ feedAll p b cs
  | [], [], a, b, _ => rfl
  | x :: bs, y :: cs, a, b, h => by
      rw [List.zipWith_cons_cons, feedAll_cons, feedAll_cons, feedAll_cons, feed_xor]
      exact feedAll_xor p bs cs _ _ (Nat.succ.inj h)

/-! ## Zeros -/

@[simp] theorem shift_zero (p : BitVec w) : shift p 0 = 0 := by
  simp [shift]

theorem feedAll_zeros (p r : BitVec w) (n : Nat) :
    feedAll p r (List.replicate n false) = (shift p)^[n] r := by
  induction n generalizing r with
  | zero => rfl
  | succ n ih =>
      rw [List.replicate_succ, feedAll_cons, ih]
      rfl

/-- Zeros before the first one do nothing. -/
theorem feedAll_zero_zeros (p : BitVec w) (n : Nat) :
    feedAll p 0 (List.replicate n false) = 0 := by
  rw [feedAll_zeros]
  exact Function.iterate_fixed (shift_zero p) n

theorem iterate_shift_xor (p a b : BitVec w) (n : Nat) :
    (shift p)^[n] (a ^^^ b) = (shift p)^[n] a ^^^ (shift p)^[n] b := by
  induction n generalizing a b with
  | zero => rfl
  | succ n ih =>
      rw [Function.iterate_succ_apply, shift_xor, ih, Function.iterate_succ_apply,
        Function.iterate_succ_apply]

/-- What the register holds and what it is fed, apart. -/
theorem feedAll_split (p r : BitVec w) (bs : List Bool) :
    feedAll p r bs = (shift p)^[bs.length] r ^^^ feedAll p 0 bs := by
  have h := feedAll_xor p (List.replicate bs.length false) bs r 0#w (by simp)
  have hzip : List.zipWith xor (List.replicate bs.length false) bs = bs := by
    induction bs with
    | nil => rfl
    | cons b bs ih =>
        rw [List.length_cons, List.replicate_succ, List.zipWith_cons_cons, Bool.false_xor,
          ih (feedAll_xor p _ _ r 0#w (by simp))]
  rw [BitVec.xor_zero, feedAll_zeros, hzip] at h
  exact h

section ConstantTerm

variable {p : BitVec w} (hp : p.getLsbD 0 = true)

include hp

/-- With a constant term in the polynomial, the lowest bit tells what was fed back. -/
theorem shift_lsb (r : BitVec w) : (shift p r).getLsbD 0 = r.msb := by
  unfold shift
  cases r.msb
  · simp
  · simp [hp]

/-- Shifting loses nothing. -/
theorem eq_zero_of_shift {r : BitVec w} (h : shift p r = 0) : r = 0 := by
  have hmsb : r.msb = false := by rw [← shift_lsb hp r, h]; simp
  unfold shift at h
  rw [hmsb] at h
  apply BitVec.eq_of_getLsbD_eq
  intro i hi
  have hbit : r.getLsbD i = false := by
    by_cases hlast : i = w - 1
    · rw [BitVec.msb_eq_getLsbD_last, ← hlast] at hmsb
      exact hmsb
    · have hlt : i + 1 < w := by omega
      have hnext := congrArg (fun x => x.getLsbD (i + 1)) h
      simpa [BitVec.getLsbD_shiftLeft, hlt, -BitVec.getLsbD_eq_getElem] using hnext
  rw [hbit]
  exact BitVec.getLsbD_zero.symm

theorem feedAll_zeros_ne {r : BitVec w} (h : r ≠ 0) (n : Nat) :
    feedAll p r (List.replicate n false) ≠ 0 := by
  rw [feedAll_zeros]
  induction n generalizing r with
  | zero => exact h
  | succ n ih =>
      rw [Function.iterate_succ_apply]
      exact ih fun hz => h (eq_zero_of_shift hp hz)

/-! ## A burst -/

/-- What a register must hold for the next bits to empty it: those bits at its top, and
zeros below. -/
theorem msbs_of_feedAll : ∀ (bs : List Bool) (r : BitVec w), bs.length ≤ w →
    feedAll p r bs = 0 → ∀ i, r.getMsbD i = bs.getD i false
  | [], r, _, h, i => by
      rw [feedAll_nil] at h
      rw [h]
      simp
  | b :: bs, r, hlen, h, i => by
      rw [List.length_cons] at hlen
      rw [feedAll_cons] at h
      have ih := msbs_of_feedAll bs (feed p r b) (by omega) h
      -- the lowest bit is clear, so nothing was fed back
      have hlow : (feed p r b).getLsbD 0 = false := by
        have hlast := ih (w - 1)
        rw [BitVec.getMsbD_eq_getLsbD, List.getD_eq_default _ _ (by omega)] at hlast
        simpa [show 0 < w by omega] using hlast
      have hout : (if b then r ^^^ top w else r).msb = false := by
        rw [← shift_lsb hp]
        exact hlow
      have hmsb : r.msb = b := by
        cases b with
        | false => exact hout
        | true =>
            have htop : (top w).msb = true := by
              simp [top, BitVec.msb_twoPow, show 0 < w by omega]
            simpa [htop] using hout
      have hfeed : feed p r b = (if b then r ^^^ top w else r) <<< 1 := by
        unfold feed shift
        rw [hout]
        rfl
      cases i with
      | zero =>
          rw [List.getD_cons_zero, ← hmsb]
          rfl
      | succ i =>
          rw [List.getD_cons_succ, ← ih i, hfeed]
          by_cases hi : i + 1 < w
          · cases b
            · simp [BitVec.getMsbD_shiftLeft]
            · have hne : (top w).getMsbD (i + 1) = false := by
                simp [top, BitVec.getMsbD_twoPow]
                omega
              simp [BitVec.getMsbD_shiftLeft, hne]
          · rw [BitVec.getMsbD_shiftLeft, BitVec.getMsbD_of_ge _ _ (by omega),
              BitVec.getMsbD_of_ge _ _ (by omega)]

/-- **Ones within `w` places leave a remainder.** -/
theorem feedAll_burst {bs : List Bool} (hlen : bs.length ≤ w) (hone : true ∈ bs) :
    feedAll p 0 bs ≠ 0 := by
  intro h
  obtain ⟨i, hi, hbit⟩ := List.mem_iff_getElem.mp hone
  have hzero := msbs_of_feedAll hp bs 0 hlen h i
  rw [List.getD_eq_getElem _ _ hi, hbit] at hzero
  simp at hzero

end ConstantTerm

/-! ## An odd number of ones -/

/-- A bit as a number modulo two. -/
def bit (b : Bool) : ZMod 2 := if b then 1 else 0

theorem bit_xor (x y : Bool) : bit (x ^^ y) = bit x + bit y := by
  cases x <;> cases y <;> decide

/-- The number of ones in a register, modulo two. -/
def parity (r : BitVec w) : ZMod 2 := ∑ i ∈ Finset.range w, bit (r.getLsbD i)

theorem parity_zero : parity (0 : BitVec w) = 0 := by
  refine Finset.sum_eq_zero ?_
  intro i _
  simp [bit]

theorem parity_xor (a b : BitVec w) : parity (a ^^^ b) = parity a + parity b := by
  unfold parity
  rw [← Finset.sum_add_distrib]
  refine Finset.sum_congr rfl ?_
  intro i _
  rw [BitVec.getLsbD_xor, bit_xor]

/-- Moving up drops the highest bit. -/
theorem parity_shiftLeft (r : BitVec w) : parity (r <<< 1) + bit r.msb = parity r := by
  cases w with
  | zero => simp [parity, BitVec.msb_eq_getLsbD_last, bit]
  | succ n =>
      have hlow : bit ((r <<< 1).getLsbD 0) = 0 := by simp [bit]
      have hrest : ∀ i ∈ Finset.range n, bit ((r <<< 1).getLsbD (i + 1)) = bit (r.getLsbD i) := by
        intro i hi
        have hi : i < n := Finset.mem_range.mp hi
        rw [BitVec.getLsbD_shiftLeft]
        simp [hi]
      unfold parity
      rw [Finset.sum_range_succ', hlow, add_zero, Finset.sum_congr rfl hrest,
        Finset.sum_range_succ (fun i => bit (r.getLsbD i)), BitVec.msb_eq_getLsbD_last]
      rfl

theorem parity_shift {p : BitVec w} (hp : parity p = 1) (r : BitVec w) :
    parity (shift p r) = parity r := by
  rw [← parity_shiftLeft r]
  unfold shift
  cases r.msb
  · simp [bit]
  · simp [parity_xor, hp, bit]

/-- One bit more, in the register and in the message. -/
theorem parity_feed {p : BitVec w} (hp : parity p = 1) (hw : 0 < w) (r : BitVec w) (b : Bool) :
    parity (feed p r b) = parity r + bit b := by
  unfold feed
  rw [parity_shift hp]
  cases b with
  | false => simp [bit]
  | true =>
      have htop : parity (top w) = 1 := by
        unfold parity
        rw [Finset.sum_eq_single (w - 1)]
        · simp [top, bit, hw]
        · intro i hi hne
          have hi : i < w := Finset.mem_range.mp hi
          simp [top, bit, Ne.symm hne]
        · intro h
          exact absurd (Finset.mem_range.mpr (by omega)) h
      simp [parity_xor, htop, bit]

theorem parity_feedAll {p : BitVec w} (hp : parity p = 1) (hw : 0 < w) :
    ∀ (bs : List Bool) (r : BitVec w), parity (feedAll p r bs) = parity r + (bs.count true : ZMod 2)
  | [], r => by simp
  | b :: bs, r => by
      rw [feedAll_cons, parity_feedAll hp hw bs, parity_feed hp hw, List.count_cons]
      cases b with
      | false => simp [bit]
      | true => simp [bit, add_assoc, add_comm (1 : ZMod 2)]

/-- **An odd number of ones leaves a remainder.** -/
theorem feedAll_odd {p : BitVec w} (hp : parity p = 1) (hw : 0 < w) {bs : List Bool}
    (hodd : bs.count true % 2 = 1) : feedAll p 0 bs ≠ 0 := by
  intro h
  have hpar := parity_feedAll hp hw bs 0
  rw [h, parity_zero, zero_add] at hpar
  have hdvd := (ZMod.natCast_eq_zero_iff _ 2).mp hpar.symm
  omega

/-! ## Patterns in a longer message -/

/-- Up to the first one. -/
theorem split_first {bs : List Bool} (h : bs.count true ≠ 0) :
    ∃ i rest, bs = List.replicate i false ++ true :: rest
      ∧ bs.count true = rest.count true + 1 := by
  induction bs with
  | nil => simp at h
  | cons b bs ih =>
      cases b with
      | true => exact ⟨0, bs, rfl, by simp⟩
      | false =>
          rw [List.count_cons_of_ne (by decide)] at h ⊢
          obtain ⟨i, rest, hbs, hcount⟩ := ih h
          exact ⟨i + 1, rest, by rw [hbs]; rfl, hcount⟩

theorem all_zeros {bs : List Bool} (h : bs.count true = 0) :
    bs = List.replicate bs.length false := by
  rw [List.eq_replicate_iff]
  refine ⟨rfl, ?_⟩
  intro b hb
  cases b with
  | false => rfl
  | true => exact absurd hb (List.count_eq_zero.mp h)

/-- The register does not hold `t` at any of the next `n` moments. -/
def avoids (p t : BitVec w) : Nat → BitVec w → Bool
  | 0, _ => true
  | n + 1, r => decide (r ≠ t) && avoids p t n (shift p r)

theorem ne_of_avoids {p t : BitVec w} : ∀ {n d : Nat} {r : BitVec w}, avoids p t n r = true →
    d < n → (shift p)^[d] r ≠ t
  | n + 1, 0, r, h, _ => by
      rw [avoids, Bool.and_eq_true, decide_eq_true_eq] at h
      exact h.1
  | n + 1, d + 1, r, h, hd => by
      rw [avoids, Bool.and_eq_true] at h
      rw [Function.iterate_succ_apply]
      exact ne_of_avoids h.2 (by omega)

/-- **Two ones leave a remainder** when no shorter distance brings the feedback back to the
highest bit alone. -/
theorem feedAll_pair {p : BitVec w} (hp : p.getLsbD 0 = true) (hw : 0 < w) {bs : List Bool}
    (htwo : bs.count true = 2)
    (hperiod : ∀ d, d + 2 ≤ bs.length → (shift p)^[d] p ≠ top w) : feedAll p 0 bs ≠ 0 := by
  obtain ⟨i, rest, rfl, hcount⟩ := split_first (show bs.count true ≠ 0 by omega)
  obtain ⟨d, rest', rfl, hcount'⟩ := split_first (show rest.count true ≠ 0 by omega)
  rw [all_zeros (show rest'.count true = 0 by omega)]
  have htop : (top w).msb = true := by simp [top, BitVec.msb_twoPow, hw]
  have hfirst : feed p 0 true = p := by
    have hout : top w <<< 1 = 0 := by
      apply BitVec.eq_of_getLsbD_eq
      intro k hk
      simp [top]
      omega
    simp [feed, shift, htop, hout]
  rw [feedAll_append, feedAll_zero_zeros, feedAll_cons, hfirst, feedAll_append, feedAll_zeros,
    feedAll_cons]
  refine feedAll_zeros_ne hp ?_ _
  intro hz
  refine hperiod d (by simp; omega) ?_
  have hx := eq_zero_of_shift hp hz
  simp only [if_true] at hx
  exact BitVec.xor_eq_zero_iff.mp hx

/-- **Ones within `w` places of a longer message leave a remainder.** -/
theorem feedAll_window {p : BitVec w} (hp : p.getLsbD 0 = true) {bs : List Bool}
    (hone : true ∈ bs) {k : Nat}
    (hwin : ∀ i, bs[i]? = some true → k ≤ i ∧ i < k + w) : feedAll p 0 bs ≠ 0 := by
  have hbefore : (bs.take k).count true = 0 := by
    rw [List.count_eq_zero, List.mem_iff_getElem?]
    rintro ⟨i, hi⟩
    rw [List.getElem?_take] at hi
    split at hi
    · have := hwin i hi
      omega
    · cases hi
  have hafter : ((bs.drop k).drop w).count true = 0 := by
    rw [List.count_eq_zero, List.mem_iff_getElem?]
    rintro ⟨i, hi⟩
    rw [List.getElem?_drop, List.getElem?_drop] at hi
    have := hwin _ hi
    omega
  have hmid : true ∈ (bs.drop k).take w := by
    have hsplit : bs = bs.take k ++ ((bs.drop k).take w ++ (bs.drop k).drop w) := by simp
    rw [hsplit, List.mem_append, List.mem_append] at hone
    rcases hone with h | h | h
    · exact absurd h (List.count_eq_zero.mp hbefore)
    · exact h
    · exact absurd h (List.count_eq_zero.mp hafter)
  rw [← List.take_append_drop k bs, feedAll_append, all_zeros hbefore, feedAll_zero_zeros,
    ← List.take_append_drop w (bs.drop k), feedAll_append, all_zeros hafter]
  refine feedAll_zeros_ne hp (feedAll_burst hp ?_ hmid) _
  rw [List.length_take]
  omega

/-! ## A message followed by its remainder -/

theorem feed_msb (p r : BitVec w) (hw : 0 < w) : feed p r r.msb = r <<< 1 := by
  have htop : (top w).msb = true := by simp [top, BitVec.msb_twoPow, hw]
  have hout : top w <<< 1 = 0 := by
    apply BitVec.eq_of_getLsbD_eq
    intro k hk
    simp [top]
    omega
  unfold feed shift
  cases hr : r.msb
  · simp [hr]
  · simp [hr, htop, BitVec.shiftLeft_xor_distrib, hout]

/-- A register that is fed its own bits loses them one by one. -/
theorem feedAll_own (p r : BitVec w) {k : Nat} (hk : k ≤ w) :
    feedAll p r ((List.range k).map r.getMsbD) = r <<< k := by
  induction k with
  | zero => simp
  | succ k ih =>
      have hmsb : r.getMsbD k = (r <<< k).msb := by
        rw [BitVec.msb, BitVec.getMsbD_shiftLeft, Nat.zero_add]
      rw [List.range_succ, List.map_append, feedAll_append, ih (by omega), List.map_singleton,
        feedAll_cons, feedAll_nil, hmsb, feed_msb p _ (by omega), ← BitVec.shiftLeft_add]

theorem feedAll_msbs (p r : BitVec w) : feedAll p r (msbs r) = 0 := by
  rw [msbs, feedAll_own p r (Nat.le_refl w)]
  simp

/-- **Bits can also be put on top of the register all at once.** -/
theorem iterate_shift_own (p r x : BitVec w) {k : Nat} (hk : k ≤ w) (hx : x <<< k = 0) :
    (shift p)^[k] (r ^^^ x) = feedAll p r ((List.range k).map x.getMsbD) := by
  have hown := feedAll_own p x hk
  rw [hx, feedAll_split, List.length_map, List.length_range] at hown
  rw [feedAll_split p r, iterate_shift_xor, List.length_map, List.length_range,
    BitVec.xor_eq_zero_iff.mp hown]

theorem msbs_append {m n : Nat} (x : BitVec m) (y : BitVec n) : msbs (x ++ y) = msbs x ++ msbs y := by
  unfold msbs
  rw [List.range_add, List.map_append, List.map_map]
  congr 1
  · refine List.map_congr_left ?_
    intro i hi
    have hi : i < m := List.mem_range.mp hi
    rw [BitVec.getMsbD_append]
    simp [Nat.not_le.mpr hi]
  · refine List.map_congr_left ?_
    intro i _
    rw [Function.comp_apply, BitVec.getMsbD_append]
    simp

theorem msbs_xor {n : Nat} (x y : BitVec n) :
    msbs (x ^^^ y) = List.zipWith xor (msbs x) (msbs y) := by
  unfold msbs
  rw [List.zipWith_map, List.zipWith_self]
  refine List.map_congr_left ?_
  intro i _
  rw [BitVec.getMsbD_xor]

end Lfsr
