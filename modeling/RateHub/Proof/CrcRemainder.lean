import RateHub.Lib.Remainder
import RateHub.Proof.Corruption

/-!
# The checksum as a remainder

`frame_crc` is CRC-16/CCITT-FALSE: the remainder of the message, shifted up by 16 places
and with ones added to its first 16 bits, modulo `x^16 + x^12 + x^5 + 1`. A message that is
followed by its own checksum has the checksum zero, and the checksums of two messages of
one length differ by what their difference decides.
-/

namespace RateHub

open Lfsr Polynomial

theorem toPoly_crcPoly : toPoly crcPoly = X ^ 12 + X ^ 5 + 1 := by
  have hbits : ∀ i : Fin 16, bit (crcPoly.getLsbD i.val)
      = (if i.val = 12 then 1 else 0) + (if i.val = 5 then 1 else 0)
        + (if i.val = 0 then 1 else 0) := by
    decide
  ext k
  rw [coeff_toPoly, coeff_add, coeff_add, coeff_X_pow, coeff_X_pow, coeff_one]
  by_cases hk : k < 16
  · exact hbits ⟨k, hk⟩
  · rw [BitVec.getLsbD_of_ge _ k (by omega), if_neg (by omega), if_neg (by omega),
      if_neg (by omega)]
    rfl

/-- The polynomial of the frame format. -/
theorem divisor_crcPoly : divisor crcPoly = X ^ 16 + X ^ 12 + X ^ 5 + 1 := by
  rw [divisor, toPoly_crcPoly]
  ring

/-- The register starts full. -/
theorem toPoly_ones : toPoly (0xFFFF : BitVec 16) = ∑ i ∈ Finset.range 16, X ^ i := by
  have hbits : ∀ i : Fin 16, bit ((0xFFFF : BitVec 16).getLsbD i.val) = 1 := by decide
  refine Finset.sum_congr rfl ?_
  intro i hi
  rw [hbits ⟨i, Finset.mem_range.mp hi⟩, C_1, one_mul]

/-- The two bytes that `store_u16` writes. -/
def bigEndian (v : UInt16) : List UInt8 := [(v >>> 8).toUInt8, v.toUInt8]

theorem bitsOf_bigEndian (v : UInt16) : bitsOf (bigEndian v) = msbs v.toBitVec := by
  refine bitsOf_pair ?_
  rw [UInt16.toNat_toUInt8, UInt16.toNat_toUInt8, UInt16.toNat_shiftRight]
  have hv := v.toNat_lt
  have hshift : v.toNat >>> 8 = v.toNat / 256 := Nat.shiftRight_eq_div_pow _ 8
  show v.toNat >>> 8 % 256 * 256 + v.toNat % 256 = v.toNat
  rw [hshift]
  omega

theorem bitsOf_append (a b : List UInt8) : bitsOf (a ++ b) = bitsOf a ++ bitsOf b :=
  List.flatMap_append

/-- What two messages of one length make of the checksum is what their difference makes of
an empty register. -/
theorem frameCrc_xor {a b : List UInt8} (h : a.length = b.length) :
    (frameCrc a ^^^ frameCrc b).toBitVec
      = feedAll crcPoly 0 (bitsOf (List.zipWith (· ^^^ ·) a b)) := by
  rw [UInt16.toBitVec_xor, frameCrc_toBitVec, frameCrc_toBitVec, bitsOf_zipWith,
    ← feedAll_xor crcPoly _ _ _ _ (by rw [bitsOf_length, bitsOf_length, h]), BitVec.xor_self]
  rfl

/--
**`frame_crc` is CRC-16/CCITT-FALSE.**

For every string of bytes it is the remainder of the message polynomial times `x^16`, plus
the initial ones times the power of `x` that the message is long. So a message followed by
its checksum has the checksum zero, and the checksums of two messages of one length differ
by a function of the difference of the messages.
-/
theorem frameCrc_remainder :
    (∀ d : List UInt8, toPoly (frameCrc d).toBitVec
        = (messagePoly (bitsOf d) * X ^ 16
            + (∑ i ∈ Finset.range 16, X ^ i) * X ^ (8 * d.length))
          %ₘ (X ^ 16 + X ^ 12 + X ^ 5 + 1))
      ∧ (∀ d : List UInt8, frameCrc (d ++ bigEndian (frameCrc d)) = 0)
      ∧ ∃ residue : List UInt8 → UInt16, ∀ a b : List UInt8, a.length = b.length →
          frameCrc a ^^^ frameCrc b = residue (List.zipWith (· ^^^ ·) a b) := by
  refine ⟨?_, ?_, ?_⟩
  · intro d
    rw [frameCrc_toBitVec, feedAll_eq_modByMonic _ _ (by decide), divisor_crcPoly, toPoly_ones,
      bitsOf_length]
  · intro d
    apply UInt16.toBitVec_inj.mp
    rw [frameCrc_toBitVec, bitsOf_append, feedAll_append, ← frameCrc_toBitVec, bitsOf_bigEndian,
      feedAll_msbs]
    rfl
  · refine ⟨fun e => UInt16.ofBitVec (feedAll crcPoly 0 (bitsOf e)), ?_⟩
    intro a b hlen
    apply UInt16.toBitVec_inj.mp
    rw [frameCrc_xor hlen]

/-- The check value: the nine digits from `1` on. -/
example : frameCrc [0x31, 0x32, 0x33, 0x34, 0x35, 0x36, 0x37, 0x38, 0x39] = 0x29B1 := by
  decide +kernel

end RateHub
