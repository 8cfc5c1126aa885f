import RateHub.Lib.Lfsr
import RateHub.Proof.FrameCodec

/-!
# What the checksum notices

`frame_crc` is a shift register over the polynomial `x^16 + x^12 + x^5 + 1`, and a frame is
a message followed by its remainder, so the register runs empty over a whole good frame. By
linearity it then also runs empty over the difference of two good frames, started at
zero. No pattern with an odd number of ones, with two ones, or with ones within 16 places
does that to it.
-/

namespace RateHub

open Lfsr

/-- The feedback of `frame_crc`. -/
def crcPoly : BitVec 16 := 0x1021

/-- The bits of a string of bytes, the most significant bit of each byte first. -/
def bitsOf (bytes : List UInt8) : List Bool := bytes.flatMap fun b => msbs b.toBitVec

/-! ## The register -/

theorem crcBit_toBitVec (crc : UInt16) : (crcBit crc).toBitVec = shift crcPoly crc.toBitVec := by
  have htest : crc &&& 0x8000 ≠ 0 ↔ crc.toBitVec.msb = true := by
    have hand : (crc &&& 0x8000).toBitVec = crc.toBitVec &&& BitVec.twoPow 16 15 := rfl
    rw [ne_eq, ← UInt16.toBitVec_inj, hand, BitVec.and_twoPow, BitVec.msb_eq_getLsbD_last]
    split
    · rename_i h
      exact iff_of_true (by decide) h
    · rename_i h
      exact iff_of_false (fun hne => hne rfl) h
  unfold crcBit shift
  by_cases h : crc.toBitVec.msb = true
  · rw [if_pos (htest.mpr h), if_pos h]
    rfl
  · rw [if_neg fun hx => h (htest.mp hx), if_neg h]
    rfl

/-- Eight bits of the register over one byte. -/
theorem crcByte_toBitVec (crc : UInt16) (b : UInt8) :
    (crcByte crc b).toBitVec = feedAll crcPoly crc.toBitVec (msbs b.toBitVec) := by
  have hbits : (List.range 8).map (b.toUInt16 <<< 8).toBitVec.getMsbD = msbs b.toBitVec := by
    refine List.map_congr_left ?_
    intro i hi
    have hi : i < 8 := List.mem_range.mp hi
    have hword : (b.toUInt16 <<< 8).toBitVec = (b.toBitVec.setWidth 16) <<< 8 := rfl
    rw [hword, BitVec.getMsbD_shiftLeft, BitVec.getMsbD_setWidth]
    simp [show 8 ≤ i + 8 by omega]
  have hout : (b.toUInt16 <<< 8).toBitVec <<< 8 = 0 := by
    have hword : (b.toUInt16 <<< 8).toBitVec = (b.toBitVec.setWidth 16) <<< 8 := rfl
    rw [hword, ← BitVec.shiftLeft_add]
    simp
  rw [← hbits, ← iterate_shift_own _ _ _ (by decide) hout]
  simp only [crcByte, List.range, List.range.loop, List.foldl_cons, List.foldl_nil,
    crcBit_toBitVec]
  rfl

theorem frameCrc_toBitVec (data : List UInt8) :
    (frameCrc data).toBitVec = feedAll crcPoly 0xFFFF (bitsOf data) := by
  have hall : ∀ (crc : UInt16), (data.foldl crcByte crc).toBitVec
      = feedAll crcPoly crc.toBitVec (bitsOf data) := by
    induction data with
    | nil => exact fun _ => rfl
    | cons b data ih =>
        intro crc
        rw [List.foldl_cons, ih, crcByte_toBitVec, bitsOf, bitsOf, List.flatMap_cons,
          feedAll_append]
  exact hall 0xFFFF

/-- Two bytes and the word they make. -/
theorem bitsOf_pair {hi lo : UInt8} {v : UInt16} (h : hi.toNat * 256 + lo.toNat = v.toNat) :
    bitsOf [hi, lo] = msbs v.toBitVec := by
  have hv : v.toBitVec = hi.toBitVec ++ lo.toBitVec := by
    apply BitVec.eq_of_toNat_eq
    rw [BitVec.toNat_append, Nat.shiftLeft_eq, BigEndian.mul_or lo.toBitVec.isLt]
    exact h.symm
  rw [hv, msbs_append]
  rfl

/-- **The register runs empty over a good frame.** -/
theorem feedAll_goodFrame {bytes : List UInt8} (hlen : bytes.length = kFrameBytes)
    (h : GoodFrame bytes) : feedAll crcPoly 0xFFFF (bitsOf bytes) = 0 := by
  have hsplit : bytes = bytes.take 36 ++ [byteAt bytes 36, byteAt bytes 37] := by
    have hall : bytes.take 38 = (List.range 38).map (byteAt bytes) :=
      take_eq_range (Nat.le_of_eq hlen.symm)
    rw [List.take_of_length_le (Nat.le_of_eq hlen)] at hall
    have hhead : bytes.take 36 = (List.range 36).map (byteAt bytes) :=
      take_eq_range (by rw [hlen]; decide)
    conv_lhs => rw [hall, List.range_succ, List.range_succ]
    rw [hhead]
    simp
  have hbits : bitsOf bytes
      = bitsOf (bytes.take 36) ++ bitsOf [byteAt bytes 36, byteAt bytes 37] := by
    conv_lhs => rw [hsplit]
    exact List.flatMap_append
  rw [hbits, feedAll_append, ← frameCrc_toBitVec, bitsOf_pair h.checksum, feedAll_msbs]

/-! ## Error patterns -/

/-- `f xor e`, byte by byte. -/
def corrupt (f e : Vector UInt8 kFrameBytes) : Vector UInt8 kFrameBytes := Vector.zipWith (· ^^^ ·) f e

/-- The number of bits an error pattern flips. -/
def weight (e : Vector UInt8 kFrameBytes) : Nat := (bitsOf e.toList).count true

/-- The bits an error pattern flips are among 16 consecutive ones. -/
def IsBurst (e : Vector UInt8 kFrameBytes) : Prop :=
  ∃ k, ∀ i, (bitsOf e.toList)[i]? = some true → k ≤ i ∧ i < k + 16

theorem bitsOf_length (bytes : List UInt8) : (bitsOf bytes).length = 8 * bytes.length := by
  induction bytes with
  | nil => rfl
  | cons b bytes ih =>
      rw [bitsOf, List.flatMap_cons, List.length_append]
      have hb : (msbs b.toBitVec).length = 8 := by simp [msbs]
      rw [hb, ← bitsOf, ih, List.length_cons]
      omega

theorem bitsOf_zipWith : ∀ bs cs : List UInt8,
    bitsOf (List.zipWith (· ^^^ ·) bs cs) = List.zipWith xor (bitsOf bs) (bitsOf cs)
  | [], cs => by simp [bitsOf]
  | b :: bs, [] => by simp [bitsOf]
  | b :: bs, c :: cs => by
      have ih := bitsOf_zipWith bs cs
      unfold bitsOf at ih ⊢
      rw [List.zipWith_cons_cons, List.flatMap_cons, List.flatMap_cons, List.flatMap_cons, ih,
        List.zipWith_append (by simp [msbs]), ← msbs_xor]
      rfl

/-- No distance within a frame brings the feedback back to the highest bit alone. -/
theorem crcPoly_avoids : avoids crcPoly (top 16) 303 crcPoly = true := by decide +kernel

/-- **The patterns that leave a remainder.** -/
theorem feedAll_pattern {e : Vector UInt8 kFrameBytes} (hne : weight e ≠ 0)
    (hkind : weight e % 2 = 1 ∨ weight e = 2 ∨ IsBurst e) :
    feedAll crcPoly 0 (bitsOf e.toList) ≠ 0 := by
  rcases hkind with hodd | htwo | ⟨k, hwin⟩
  · exact feedAll_odd (by decide) (by decide) hodd
  · refine feedAll_pair (by decide) (by decide) htwo ?_
    intro d hd
    rw [bitsOf_length, Vector.length_toList] at hd
    have hbits : 8 * kFrameBytes = 304 := rfl
    exact ne_of_avoids crcPoly_avoids (by omega)
  · refine feedAll_window (by decide) ?_ hwin
    by_contra hno
    exact hne (List.count_eq_zero.mpr hno)

/--
**The checksum notices the errors it is meant for.**

For every record of a source of the fleet, whatever was in the encoder's buffer, and every
error pattern that flips an odd number of bits, two bits, or bits within 16 consecutive
ones: the corrupted frame is not accepted, and the output is left as it was.
-/
theorem corruption_detected (record : Record) (h : record.sourceId.toNat < kMaxSources)
    (buf e : Vector UInt8 kFrameBytes) (hne : weight e ≠ 0)
    (hkind : weight e % 2 = 1 ∨ weight e = 2 ∨ IsBurst e) (out : Record) :
    (decodeFrame (corrupt (encodeFrame record buf).2 e).toList out).1 ≠ .ok
      ∧ (decodeFrame (corrupt (encodeFrame record buf).2 e).toList out).2 = out := by
  have hbad : (decodeFrame (corrupt (encodeFrame record buf).2 e).toList out).1 ≠ .ok := by
    intro hok
    have hf : (encodeFrame record buf).2.toList = frameBytes record := (encodeFrame_bytes record buf h).2
    have hgood : GoodFrame (frameBytes record) := by
      simpa using goodFrame_frameBytes record h []
    have hgood' := ((decodeFrame_ok_iff out (by simp)).1).mp hok
    -- the register runs empty over both frames, so it does over their difference
    have hempty := feedAll_goodFrame (frameBytes_length record) hgood
    have hempty' := feedAll_goodFrame (by simp) hgood'
    have hlin := feedAll_xor crcPoly (bitsOf (frameBytes record)) (bitsOf e.toList) 0xFFFF 0#16
      (by rw [bitsOf_length, bitsOf_length, frameBytes_length, Vector.length_toList])
    rw [corrupt, Vector.toList_zipWith, hf, bitsOf_zipWith] at hempty'
    rw [BitVec.xor_zero, hempty, hempty'] at hlin
    refine feedAll_pattern hne hkind ?_
    exact (by simpa using hlin.symm)
  exact ⟨hbad, decodeFrame_unchanged hbad⟩

/-- One bit in each of the two reserved bytes, 15 places apart. -/
theorem corruption_detected_reserved :
    (decodeFrame (corrupt (encodeFrame { sourceId := 3 } (Vector.replicate 38 0)).2
      (((Vector.replicate 38 0).set 6 0x80).set 7 0x01)).toList {}).1 ≠ .ok :=
  (corruption_detected { sourceId := 3 } (by decide) _ _ (by decide +kernel)
    (Or.inr (Or.inl (by decide +kernel))) {}).1

end RateHub
