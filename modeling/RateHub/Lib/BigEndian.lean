import Mathlib.Algebra.Order.Ring.Nat
import Mathlib.Data.Nat.Bitwise
import Mathlib.Tactic.Ring

/-!
# Big-endian numbers

A number as a fixed count of bytes, highest first, and back. `ofBytes` is the sum, not the
shifts a decoder uses; `mul_or` is what turns one into the other.
-/

namespace BigEndian

/-- The low `n` bytes of a number, highest first. -/
def toBytes : Nat → Nat → List UInt8
  | 0, _ => []
  | n + 1, x => UInt8.ofNat (x / 256 ^ n) :: toBytes n x

/-- The number with these bytes. -/
def ofBytes : List UInt8 → Nat
  | [] => 0
  | b :: bs => b.toNat * 256 ^ bs.length + ofBytes bs

@[simp] theorem length_toBytes (n x : Nat) : (toBytes n x).length = n := by
  induction n with
  | zero => rfl
  | succ n ih => rw [toBytes, List.length_cons, ih]

theorem ofBytes_lt (bs : List UInt8) : ofBytes bs < 256 ^ bs.length := by
  induction bs with
  | nil => simp [ofBytes]
  | cons b bs ih =>
      have hb : b.toNat < 256 := b.toNat_lt
      have hle : b.toNat * 256 ^ bs.length ≤ 255 * 256 ^ bs.length :=
        Nat.mul_le_mul_right _ (by omega)
      rw [ofBytes, List.length_cons, pow_succ]
      omega

/-- One more byte, at the low end. -/
theorem ofBytes_concat (bs : List UInt8) (b : UInt8) :
    ofBytes (bs ++ [b]) = ofBytes bs * 256 + b.toNat := by
  induction bs with
  | nil => simp [ofBytes]
  | cons c bs ih =>
      rw [List.cons_append, ofBytes, ofBytes, ih, List.length_append, List.length_singleton,
        pow_succ]
      ring

/-- Encoding and decoding: the low bytes are what is left. -/
theorem ofBytes_toBytes (n x : Nat) : ofBytes (toBytes n x) = x % 256 ^ n := by
  induction n with
  | zero => simp [toBytes, ofBytes, Nat.mod_one]
  | succ n ih =>
      have hsplit : x % 256 ^ (n + 1) = x % 256 ^ n + 256 ^ n * (x / 256 ^ n % 256) := by
        rw [pow_succ]
        exact Nat.mod_mul
      rw [toBytes, ofBytes, ih, length_toBytes, UInt8.toNat_ofNat', hsplit, Nat.mul_comm]
      exact Nat.add_comm _ _

theorem toBytes_add_mul (n x k : Nat) : toBytes n (x + k * 256 ^ n) = toBytes n x := by
  induction n generalizing x k with
  | zero => rfl
  | succ n ih =>
      have hpos : 0 < 256 ^ n := Nat.pow_pos (by decide)
      have hsplit : x + k * 256 ^ (n + 1) = x + k * 256 * 256 ^ n := by ring
      rw [toBytes, toBytes, hsplit, ih, Nat.add_mul_div_right _ _ hpos]
      congr 1
      apply UInt8.toNat_inj.mp
      rw [UInt8.toNat_ofNat', UInt8.toNat_ofNat']
      exact Nat.add_mul_mod_self_right _ _ _

/-- Decoding and encoding. -/
theorem toBytes_ofBytes (bs : List UInt8) : toBytes bs.length (ofBytes bs) = bs := by
  induction bs with
  | nil => rfl
  | cons b bs ih =>
      have hpos : 0 < 256 ^ bs.length := Nat.pow_pos (by decide)
      have hlt := ofBytes_lt bs
      rw [List.length_cons, toBytes, ofBytes]
      congr 1
      · rw [Nat.add_comm, Nat.add_mul_div_right _ _ hpos, Nat.div_eq_of_lt hlt, Nat.zero_add]
        exact UInt8.ofNat_toNat
      · rw [Nat.add_comm, toBytes_add_mul, ih]

/-- `(a << k) | b`, where `b` fits below. -/
theorem mul_or {a b k : Nat} (h : b < 2 ^ k) : a * 2 ^ k ||| b = a * 2 ^ k + b := by
  rw [← Nat.shiftLeft_eq, ← Nat.shiftLeft_add_eq_or_of_lt h]

end BigEndian
