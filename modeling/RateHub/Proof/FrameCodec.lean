import RateHub.Frame
import RateHub.Lib.BigEndian

/-!
# The frame codec, both ways

The loads and stores of `frame.cpp` are big-endian numbers of two, four and eight bytes. The
encoder stores its fields in ascending order and without gaps, so after each store it has
written a prefix of the frame, and the last one completes it; `frameHead` is what the 36
bytes before the checksum are. The decoder reads the same offsets back.
-/

namespace RateHub

open BigEndian

/-! ## Loads -/

theorem loadU16_toNat (p : List UInt8) (offset : Nat) :
    (loadU16 p offset).toNat = ofBytes [byteAt p offset, byteAt p (offset + 1)] := by
  have h0 : (byteAt p offset).toNat < 256 := (byteAt p offset).toNat_lt
  have h1 : (byteAt p (offset + 1)).toNat < 2 ^ 8 := (byteAt p (offset + 1)).toNat_lt
  unfold loadU16
  rw [UInt16.toNat_or, UInt16.toNat_shiftLeft, UInt8.toNat_toUInt16, UInt8.toNat_toUInt16]
  have h8 : (8 : UInt16).toNat % 16 = 8 := rfl
  rw [h8, Nat.shiftLeft_eq, Nat.mod_eq_of_lt (by omega), mul_or h1]
  simp [ofBytes]

/-- Four bytes, shifted into place and joined. -/
theorem join_four {a b c d : Nat} (ha : a < 256) (hb : b < 256) (hc : c < 256) (hd : d < 256) :
    (a <<< 24 % 2 ^ 32 ||| b <<< 16 % 2 ^ 32 ||| c <<< 8 % 2 ^ 32 ||| d)
      = ((a * 256 + b) * 256 + c) * 256 + d := by
  have hA : a <<< 24 % 2 ^ 32 = a * 2 ^ 24 := by
    rw [Nat.shiftLeft_eq]
    exact Nat.mod_eq_of_lt (by omega)
  have hB : b <<< 16 % 2 ^ 32 = b * 2 ^ 16 := by
    rw [Nat.shiftLeft_eq]
    exact Nat.mod_eq_of_lt (by omega)
  have hC : c <<< 8 % 2 ^ 32 = c * 2 ^ 8 := by
    rw [Nat.shiftLeft_eq]
    exact Nat.mod_eq_of_lt (by omega)
  -- from the high byte down, each part fits below the ones before it
  have hAB : a * 2 ^ 24 ||| b * 2 ^ 16 = (a * 256 + b) * 2 ^ 16 := by
    rw [mul_or (by omega)]
    ring
  have hABC : (a * 256 + b) * 2 ^ 16 ||| c * 2 ^ 8 = ((a * 256 + b) * 256 + c) * 2 ^ 8 := by
    rw [mul_or (by omega)]
    ring
  rw [hA, hB, hC, hAB, hABC, mul_or hd]
  rfl

theorem loadU32_toNat (p : List UInt8) (offset : Nat) :
    (loadU32 p offset).toNat
      = ofBytes [byteAt p offset, byteAt p (offset + 1), byteAt p (offset + 2),
          byteAt p (offset + 3)] := by
  unfold loadU32
  simp only [UInt32.toNat_or, UInt32.toNat_shiftLeft, UInt8.toNat_toUInt32]
  have hjoin := join_four (byteAt p offset).toNat_lt (byteAt p (offset + 1)).toNat_lt
    (byteAt p (offset + 2)).toNat_lt (byteAt p (offset + 3)).toNat_lt
  refine Eq.trans hjoin ?_
  simp only [ofBytes, List.length_cons, List.length_nil]
  ring

/-- The rounds of `load_u64`. -/
theorem loadU64_rounds (p : List UInt8) (offset : Nat) {k : Nat} (hk : k ≤ 8) :
    ((List.range k).foldl (fun (v : UInt64) i => (v <<< 8) ||| (byteAt p (offset + i)).toUInt64)
        0).toNat
      = ofBytes ((List.range k).map fun i => byteAt p (offset + i)) := by
  induction k with
  | zero => rfl
  | succ k ih =>
      have hb : (byteAt p (offset + k)).toNat < 2 ^ 8 := (byteAt p (offset + k)).toNat_lt
      have hlt := ofBytes_lt ((List.range k).map fun i => byteAt p (offset + i))
      rw [List.length_map, List.length_range] at hlt
      have hpow : 256 ^ k ≤ 256 ^ 7 := Nat.pow_le_pow_right (by decide) (by omega)
      rw [List.range_succ, List.foldl_append, List.map_append, List.map_singleton, ofBytes_concat,
        List.foldl_cons, List.foldl_nil, UInt64.toNat_or, UInt64.toNat_shiftLeft, ih (by omega),
        UInt8.toNat_toUInt64]
      have h8 : (8 : UInt64).toNat % 64 = 8 := rfl
      rw [h8, Nat.shiftLeft_eq, Nat.mod_eq_of_lt (by omega), mul_or hb]
      rfl

theorem loadU64_toNat (p : List UInt8) (offset : Nat) :
    (loadU64 p offset).toNat = ofBytes ((List.range 8).map fun i => byteAt p (offset + i)) :=
  loadU64_rounds p offset (Nat.le_refl 8)

/-! ## Stores -/

theorem concat_prefix_set {pre l : List UInt8} (b : UInt8) (h : pre <+: l)
    (hlt : pre.length < l.length) : pre ++ [b] <+: l.set pre.length b := by
  obtain ⟨rest, rfl⟩ := h
  cases rest with
  | nil => simp at hlt
  | cons c rest =>
      refine ⟨rest, ?_⟩
      simp [List.set_append_right]

variable {n : Nat}

/-- One byte more of the frame. -/
theorem concat_prefix {pre : List UInt8} {p : Vector UInt8 n} (offset : Nat) (b : UInt8)
    (h : pre <+: p.toList) (hlen : pre.length = offset) (hlt : offset < n) :
    pre ++ [b] <+: (p.setIfInBounds offset b).toList := by
  subst hlen
  rw [Vector.toList_setIfInBounds]
  exact concat_prefix_set b h (by rw [Vector.length_toList]; exact hlt)

theorem storeU16_prefix {pre : List UInt8} {p : Vector UInt8 n} (offset : Nat) (v : UInt16)
    (h : pre <+: p.toList) (hlen : pre.length = offset) (hn : offset + 2 ≤ n) :
    pre ++ toBytes 2 v.toNat <+: (storeU16 p offset v).toList := by
  have h1 := concat_prefix offset (v >>> 8).toUInt8 h hlen (by omega)
  have h2 := concat_prefix (offset + 1) v.toUInt8 h1 (by simp [hlen]) (by omega)
  have hbytes : toBytes 2 v.toNat = [(v >>> 8).toUInt8, v.toUInt8] := by
    simp only [toBytes, List.cons.injEq, and_true]
    refine ⟨?_, ?_⟩ <;> apply UInt8.toNat_inj.mp <;> simp [Nat.shiftRight_eq_div_pow]
  rw [hbytes]
  simpa [storeU16] using h2

theorem storeU32_prefix {pre : List UInt8} {p : Vector UInt8 n} (offset : Nat) (v : UInt32)
    (h : pre <+: p.toList) (hlen : pre.length = offset) (hn : offset + 4 ≤ n) :
    pre ++ toBytes 4 v.toNat <+: (storeU32 p offset v).toList := by
  have h1 := concat_prefix offset (v >>> 24).toUInt8 h hlen (by omega)
  have h2 := concat_prefix (offset + 1) (v >>> 16).toUInt8 h1 (by simp [hlen]) (by omega)
  have h3 := concat_prefix (offset + 2) (v >>> 8).toUInt8 h2 (by simp [hlen]) (by omega)
  have h4 := concat_prefix (offset + 3) v.toUInt8 h3 (by simp [hlen]) (by omega)
  have hbytes : toBytes 4 v.toNat
      = [(v >>> 24).toUInt8, (v >>> 16).toUInt8, (v >>> 8).toUInt8, v.toUInt8] := by
    simp only [toBytes, List.cons.injEq, and_true]
    refine ⟨?_, ?_, ?_, ?_⟩ <;> apply UInt8.toNat_inj.mp <;> simp [Nat.shiftRight_eq_div_pow]
  rw [hbytes]
  simpa [storeU32] using h4

/-- The rounds of `store_u64`. -/
theorem storeU64_rounds {pre : List UInt8} {p : Vector UInt8 n} {offset : Nat} (v : UInt64)
    (h : pre <+: p.toList) (hlen : pre.length = offset) (hn : offset + 8 ≤ n) {k : Nat}
    (hk : k ≤ 8) :
    pre ++ (List.range k).map (fun i => (v >>> UInt64.ofNat (56 - 8 * i)).toUInt8)
      <+: ((List.range k).foldl (fun p i => p.setIfInBounds (offset + i)
          (v >>> UInt64.ofNat (56 - 8 * i)).toUInt8) p).toList := by
  induction k with
  | zero => simpa using h
  | succ k ih =>
      rw [List.range_succ, List.map_append, List.map_singleton, List.foldl_append,
        List.foldl_cons, List.foldl_nil, ← List.append_assoc]
      exact concat_prefix (offset + k) _ (ih (by omega)) (by simp [hlen]) (by omega)

theorem storeU64_prefix {pre : List UInt8} {p : Vector UInt8 n} (offset : Nat) (v : UInt64)
    (h : pre <+: p.toList) (hlen : pre.length = offset) (hn : offset + 8 ≤ n) :
    pre ++ toBytes 8 v.toNat <+: (storeU64 p offset v).toList := by
  have h8 := storeU64_rounds v h hlen hn (Nat.le_refl 8)
  have hbytes : toBytes 8 v.toNat
      = (List.range 8).map (fun i => (v >>> UInt64.ofNat (56 - 8 * i)).toUInt8) := by
    simp only [toBytes, List.range, List.range.loop, List.map_cons, List.map_nil, List.cons.injEq,
      and_true]
    refine ⟨?_, ?_, ?_, ?_, ?_, ?_, ?_, ?_⟩ <;> apply UInt8.toNat_inj.mp <;>
      simp [Nat.shiftRight_eq_div_pow]
  rw [hbytes]
  exact h8

/-! ## Fields -/

section Fields

variable {p : List UInt8} {offset : Nat}

/-- The bytes a field is loaded from are the ones it would be stored as. -/
theorem toBytes_loadU16 :
    toBytes 2 (loadU16 p offset).toNat = [byteAt p offset, byteAt p (offset + 1)] := by
  rw [loadU16_toNat]
  exact toBytes_ofBytes [byteAt p offset, byteAt p (offset + 1)]

theorem toBytes_loadU32 :
    toBytes 4 (loadU32 p offset).toNat
      = [byteAt p offset, byteAt p (offset + 1), byteAt p (offset + 2), byteAt p (offset + 3)] := by
  rw [loadU32_toNat]
  exact toBytes_ofBytes
    [byteAt p offset, byteAt p (offset + 1), byteAt p (offset + 2), byteAt p (offset + 3)]

theorem toBytes_loadU64 :
    toBytes 8 (loadU64 p offset).toNat = (List.range 8).map fun i => byteAt p (offset + i) := by
  rw [loadU64_toNat]
  exact toBytes_ofBytes ((List.range 8).map fun i => byteAt p (offset + i))

/-- And a field that was stored is loaded again. -/
theorem loadU16_of_bytes {v : UInt16}
    (h : [byteAt p offset, byteAt p (offset + 1)] = toBytes 2 v.toNat) : loadU16 p offset = v := by
  apply UInt16.toNat_inj.mp
  rw [loadU16_toNat, h, ofBytes_toBytes]
  exact Nat.mod_eq_of_lt v.toNat_lt

theorem loadU32_of_bytes {v : UInt32}
    (h : [byteAt p offset, byteAt p (offset + 1), byteAt p (offset + 2), byteAt p (offset + 3)]
      = toBytes 4 v.toNat) : loadU32 p offset = v := by
  apply UInt32.toNat_inj.mp
  rw [loadU32_toNat, h, ofBytes_toBytes]
  exact Nat.mod_eq_of_lt v.toNat_lt

theorem loadU64_of_bytes {v : UInt64}
    (h : ((List.range 8).map fun i => byteAt p (offset + i)) = toBytes 8 v.toNat) :
    loadU64 p offset = v := by
  apply UInt64.toNat_inj.mp
  rw [loadU64_toNat, h, ofBytes_toBytes]
  exact Nat.mod_eq_of_lt v.toNat_lt

end Fields

/-! ## The frame of a record -/

/-- The 36 bytes before the checksum. -/
def frameHead (record : Record) : List UInt8 :=
  toBytes 2 kFrameMagic.toNat ++ toBytes 2 kSchemaVersion.toNat
    ++ toBytes 2 record.sourceId.toUInt16.toNat ++ toBytes 2 (0 : UInt16).toNat
    ++ toBytes 4 record.sequence.toNat ++ toBytes 8 record.timeNs.toUInt64.toNat
    ++ toBytes 4 record.posX.toUInt32.toNat ++ toBytes 4 record.posY.toUInt32.toNat
    ++ toBytes 4 record.velX.toUInt32.toNat ++ toBytes 4 record.velY.toUInt32.toNat

/-- All 38. -/
def frameBytes (record : Record) : List UInt8 :=
  frameHead record ++ toBytes 2 (frameCrc (frameHead record)).toNat

theorem frameHead_length (record : Record) : (frameHead record).length = 36 := by
  simp [frameHead]

theorem frameBytes_length (record : Record) : (frameBytes record).length = kFrameBytes := by
  simp [frameBytes, frameHead_length]

/-- **What the encoder writes**, whatever was in the buffer. -/
theorem encodeFrame_bytes (record : Record) (out : Vector UInt8 kFrameBytes)
    (h : record.sourceId.toNat < kMaxSources) :
    (encodeFrame record out).1 = true
      ∧ (encodeFrame record out).2.toList = frameBytes record := by
  unfold encodeFrame
  rw [if_neg (not_le.mpr h)]
  refine ⟨rfl, ?_⟩
  -- each store extends the prefix
  have h0 : [] ++ toBytes 2 kFrameMagic.toNat <+: (storeU16 out 0 kFrameMagic).toList :=
    storeU16_prefix 0 kFrameMagic List.nil_prefix rfl (by decide)
  have h1 := storeU16_prefix 2 kSchemaVersion h0 rfl (by decide)
  have h2 := storeU16_prefix 4 record.sourceId.toUInt16 h1 rfl (by decide)
  have h3 := storeU16_prefix 6 0 h2 rfl (by decide)
  have h4 := storeU32_prefix 8 record.sequence h3 rfl (by decide)
  have h5 := storeU64_prefix 12 record.timeNs.toUInt64 h4 rfl (by decide)
  have h6 := storeU32_prefix 20 record.posX.toUInt32 h5 rfl (by decide)
  have h7 := storeU32_prefix 24 record.posY.toUInt32 h6 rfl (by decide)
  have h8 := storeU32_prefix 28 record.velX.toUInt32 h7 rfl (by decide)
  have h9 : frameHead record <+: _ := storeU32_prefix 32 record.velY.toUInt32 h8 rfl (by decide)
  -- so the checksum is taken over the head
  have hhead := List.prefix_iff_eq_take.mp h9
  rw [frameHead_length] at hhead
  have h10 := storeU16_prefix 36 (frameCrc (frameHead record)) h9 (frameHead_length record)
    (by decide)
  have hall := h10.eq_of_length (by simp [frameHead_length])
  simp only
  rw [← hhead]
  exact hall.symm

theorem encodeFrame_refused (record : Record) (out : Vector UInt8 kFrameBytes)
    (h : kMaxSources ≤ record.sourceId.toNat) : encodeFrame record out = (false, out) := by
  rw [encodeFrame, if_pos h]

/-! ## Decoding -/

/-- Magic, schema, source id and checksum are right. -/
structure GoodFrame (bytes : List UInt8) : Prop where
  magic : byteAt bytes 0 = 0xA1 ∧ byteAt bytes 1 = 0x5C
  schema : byteAt bytes 2 = 0 ∧ byteAt bytes 3 = 3
  source : (byteAt bytes 4).toNat * 256 + (byteAt bytes 5).toNat < kMaxSources
  checksum : (byteAt bytes 36).toNat * 256 + (byteAt bytes 37).toNat
    = (frameCrc (bytes.take 36)).toNat

/-- The record in a frame's fields. -/
def frameRecord (bytes : List UInt8) : Record :=
  { sourceId := (loadU16 bytes 4).toUInt32
    sequence := loadU32 bytes 8
    timeNs := (loadU64 bytes 12).toInt64
    posX := (loadU32 bytes 20).toInt32
    posY := (loadU32 bytes 24).toInt32
    velX := (loadU32 bytes 28).toInt32
    velY := (loadU32 bytes 32).toInt32 }

theorem loadU16_eq_iff {p : List UInt8} {offset : Nat} {v : UInt16} {hi lo : UInt8}
    (hv : toBytes 2 v.toNat = [hi, lo]) :
    loadU16 p offset = v ↔ byteAt p offset = hi ∧ byteAt p (offset + 1) = lo := by
  constructor
  · rintro rfl
    rw [toBytes_loadU16] at hv
    simpa using hv
  · rintro ⟨h0, h1⟩
    exact loadU16_of_bytes (by rw [h0, h1, hv])

theorem loadU16_sum (p : List UInt8) (offset : Nat) :
    (loadU16 p offset).toNat = (byteAt p offset).toNat * 256 + (byteAt p (offset + 1)).toNat := by
  rw [loadU16_toNat]
  simp [ofBytes]

/-- **What the decoder accepts, and what it then returns.** -/
theorem decodeFrame_ok_iff {bytes : List UInt8} (out : Record) (hlen : kFrameBytes ≤ bytes.length) :
    ((decodeFrame bytes out).1 = .ok ↔ GoodFrame bytes)
      ∧ (GoodFrame bytes → decodeFrame bytes out = (.ok, frameRecord bytes)) := by
  have hmagic : loadU16 bytes 0 = kFrameMagic ↔ byteAt bytes 0 = 0xA1 ∧ byteAt bytes 1 = 0x5C :=
    loadU16_eq_iff (by decide)
  have hschema : loadU16 bytes 2 = kSchemaVersion ↔ byteAt bytes 2 = 0 ∧ byteAt bytes 3 = 3 :=
    loadU16_eq_iff (by decide)
  have hcrc : loadU16 bytes 36 = frameCrc (bytes.take 36)
      ↔ (byteAt bytes 36).toNat * 256 + (byteAt bytes 37).toNat
        = (frameCrc (bytes.take 36)).toNat := by
    rw [← UInt16.toNat_inj, loadU16_sum]
  have refused : ∀ {st : ParseStatus}, st ≠ .ok → ¬GoodFrame bytes →
      ((st, out).1 = .ok ↔ GoodFrame bytes)
        ∧ (GoodFrame bytes → (st, out) = (.ok, frameRecord bytes)) := by
    intro st hst hbad
    exact ⟨iff_of_false hst hbad, fun h => absurd h hbad⟩
  unfold decodeFrame
  rw [if_neg (not_lt.mpr hlen)]
  split
  · rename_i hbad
    exact refused (by simp) fun h => hbad (hmagic.mpr h.magic)
  split
  · rename_i hbad
    exact refused (by simp) fun h => hbad (hschema.mpr h.schema)
  split
  · rename_i hbad
    rw [loadU16_sum] at hbad
    exact refused (by simp) fun h => absurd h.source (not_lt.mpr hbad)
  split
  · rename_i hbad
    exact refused (by simp) fun h => hbad (hcrc.mpr h.checksum)
  · rename_i h0 h2 h4 h36
    rw [not_not] at h0 h2 h36
    rw [loadU16_sum] at h4
    exact ⟨⟨fun _ => ⟨hmagic.mp h0, hschema.mp h2, not_le.mp h4, hcrc.mp h36⟩, fun _ => rfl⟩,
      fun _ => rfl⟩

/-- Whatever the status, an output that is not accepted is left alone. -/
theorem decodeFrame_unchanged {bytes : List UInt8} {out : Record}
    (h : (decodeFrame bytes out).1 ≠ .ok) : (decodeFrame bytes out).2 = out := by
  unfold decodeFrame at h ⊢
  repeat' split
  all_goals first
    | rfl
    | simp_all

/-! ## There and back -/

theorem byteAt_append_left {l m : List UInt8} {i : Nat} (h : i < l.length) :
    byteAt (l ++ m) i = byteAt l i := by
  simp [byteAt, List.getD_eq_getElem?_getD, List.getElem?_append_left h]

/-- A field of the head, loaded from the whole. -/
theorem loadU16_append {l m : List UInt8} {offset : Nat} (h : offset + 2 ≤ l.length) :
    loadU16 (l ++ m) offset = loadU16 l offset := by
  unfold loadU16
  rw [byteAt_append_left (by omega), byteAt_append_left (by omega)]

theorem loadU32_append {l m : List UInt8} {offset : Nat} (h : offset + 4 ≤ l.length) :
    loadU32 (l ++ m) offset = loadU32 l offset := by
  unfold loadU32
  rw [byteAt_append_left (by omega), byteAt_append_left (by omega), byteAt_append_left (by omega),
    byteAt_append_left (by omega)]

theorem loadU64_append {l m : List UInt8} {offset : Nat} (h : offset + 8 ≤ l.length) :
    loadU64 (l ++ m) offset = loadU64 l offset := by
  apply UInt64.toNat_inj.mp
  rw [loadU64_toNat, loadU64_toNat]
  congr 1
  refine List.map_congr_left fun i hi => byteAt_append_left ?_
  have := List.mem_range.mp hi
  omega

/-- The bytes behind a part that is skipped. -/
theorem byteAt_append_right {l m : List UInt8} {i : Nat} :
    byteAt (l ++ m) (l.length + i) = byteAt m i := by
  simp only [byteAt, List.getD_eq_getElem?_getD]
  rw [List.getElem?_append_right (Nat.le_add_right _ _), Nat.add_sub_cancel_left]

theorem byteAt_append_length {l m : List UInt8} : byteAt (l ++ m) l.length = byteAt m 0 :=
  byteAt_append_right (i := 0)

section LastField

variable {pre : List UInt8} {offset : Nat}

/-- The field at the end of what was stored so far. -/
theorem loadU16_last {v : UInt16} (h : pre.length = offset) :
    loadU16 (pre ++ toBytes 2 v.toNat) offset = v := by
  subst h
  apply loadU16_of_bytes
  rw [byteAt_append_length, byteAt_append_right]
  rfl

theorem loadU32_last {v : UInt32} (h : pre.length = offset) :
    loadU32 (pre ++ toBytes 4 v.toNat) offset = v := by
  subst h
  apply loadU32_of_bytes
  rw [byteAt_append_length, byteAt_append_right, byteAt_append_right, byteAt_append_right]
  rfl

theorem loadU64_last {v : UInt64} (h : pre.length = offset) :
    loadU64 (pre ++ toBytes 8 v.toNat) offset = v := by
  subst h
  apply loadU64_of_bytes
  simp only [byteAt_append_right]
  rfl

end LastField

/-- The fields of a record's head are the record's. -/
theorem frameRecord_head (record : Record) (h : record.sourceId.toNat < kMaxSources)
    (more : List UInt8) : frameRecord (frameHead record ++ more) = record := by
  have hid : record.sourceId.toUInt16.toUInt32 = record.sourceId := by
    apply UInt32.toNat_inj.mp
    rw [UInt16.toNat_toUInt32, UInt32.toNat_toUInt16]
    exact Nat.mod_eq_of_lt (Nat.lt_trans h (by decide))
  -- what was stored behind a field is dropped until the field is the last one
  unfold frameRecord frameHead
  simp (disch := simp) only [loadU16_append, loadU32_append, loadU64_append, loadU16_last,
    loadU32_last, loadU64_last, hid]
  simp

/-- A record's frame is a good one, whatever follows it. -/
theorem goodFrame_frameBytes (record : Record) (h : record.sourceId.toNat < kMaxSources)
    (more : List UInt8) : GoodFrame (frameBytes record ++ more) := by
  have hlen := frameHead_length record
  have happ : frameBytes record ++ more
      = frameHead record ++ (toBytes 2 (frameCrc (frameHead record)).toNat ++ more) := by
    rw [frameBytes, List.append_assoc]
  have hbyte : ∀ i < 36, byteAt (frameBytes record ++ more) i = byteAt (frameHead record) i := by
    intro i hi
    rw [happ, byteAt_append_left (by omega)]
  have hsum : (loadU16 (frameHead record) 4).toNat = record.sourceId.toNat := by
    have hsource : loadU16 (frameHead record) 4 = record.sourceId.toUInt16 := by
      unfold frameHead
      simp (disch := simp) only [loadU16_append, loadU16_last]
    rw [hsource, UInt32.toNat_toUInt16]
    exact Nat.mod_eq_of_lt (Nat.lt_trans h (by decide))
  have hcrc : ∀ i, byteAt (frameBytes record ++ more) (36 + i)
      = byteAt (toBytes 2 (frameCrc (frameHead record)).toNat ++ more) i := by
    intro i
    rw [happ, ← hlen, byteAt_append_right]
  refine ⟨?_, ?_, ?_, ?_⟩
  · rw [hbyte 0 (by decide), hbyte 1 (by decide)]
    exact ⟨rfl, rfl⟩
  · rw [hbyte 2 (by decide), hbyte 3 (by decide)]
    exact ⟨rfl, rfl⟩
  · rw [hbyte 4 (by decide), hbyte 5 (by decide), ← loadU16_sum, hsum]
    exact h
  · have htake : (frameBytes record ++ more).take 36 = frameHead record := by
      rw [happ]
      exact List.take_left' hlen
    rw [hcrc 0, hcrc 1, htake, ← loadU16_sum, loadU16_append (by simp)]
    generalize frameCrc (frameHead record) = crc
    exact congrArg UInt16.toNat (loadU16_of_bytes rfl)

/-- **A record's frame decodes to the record**, whatever follows it. -/
theorem decodeFrame_frameBytes (record : Record) (more : List UInt8) (out : Record)
    (h : record.sourceId.toNat < kMaxSources) :
    decodeFrame (frameBytes record ++ more) out = (.ok, record) := by
  have hlen : kFrameBytes ≤ (frameBytes record ++ more).length := by
    rw [List.length_append, frameBytes_length]
    omega
  rw [(decodeFrame_ok_iff out hlen).2 (goodFrame_frameBytes record h more), frameBytes,
    List.append_assoc, frameRecord_head record h]

/-- The first bytes of a frame, one by one. -/
theorem take_eq_range {bytes : List UInt8} {k : Nat} (h : k ≤ bytes.length) :
    bytes.take k = (List.range k).map (byteAt bytes) := by
  apply List.ext_getElem
  · simp [h]
  · intro i h1 h2
    simp only [List.length_take, List.length_map, List.length_range] at h1 h2
    simp [byteAt, List.getD_eq_getElem?_getD, List.getElem?_eq_getElem (show i < bytes.length by omega)]

/-- The head of a decoded frame's own frame: the bytes it came from, but for the reserved
ones. -/
theorem frameHead_frameRecord {bytes : List UInt8} (h : GoodFrame bytes) :
    frameHead (frameRecord bytes)
      = (List.range 6).map (byteAt bytes) ++ [0, 0]
        ++ (List.range 28).map (fun i => byteAt bytes (8 + i)) := by
  have hm : toBytes 2 kFrameMagic.toNat = [byteAt bytes 0, byteAt bytes 1] := by
    rw [h.magic.1, h.magic.2]
    decide
  have hs : toBytes 2 kSchemaVersion.toNat = [byteAt bytes 2, byteAt bytes 3] := by
    rw [h.schema.1, h.schema.2]
    decide
  have hid : (frameRecord bytes).sourceId.toUInt16 = loadU16 bytes 4 := by simp [frameRecord]
  have ht : (frameRecord bytes).timeNs.toUInt64 = loadU64 bytes 12 := by simp [frameRecord]
  have hpx : (frameRecord bytes).posX.toUInt32 = loadU32 bytes 20 := by simp [frameRecord]
  have hpy : (frameRecord bytes).posY.toUInt32 = loadU32 bytes 24 := by simp [frameRecord]
  have hvx : (frameRecord bytes).velX.toUInt32 = loadU32 bytes 28 := by simp [frameRecord]
  have hvy : (frameRecord bytes).velY.toUInt32 = loadU32 bytes 32 := by simp [frameRecord]
  have hseq : (frameRecord bytes).sequence = loadU32 bytes 8 := rfl
  rw [frameHead, hm, hs, hid, ht, hpx, hpy, hvx, hvy, hseq, toBytes_loadU16, toBytes_loadU32,
    toBytes_loadU64, toBytes_loadU32, toBytes_loadU32, toBytes_loadU32, toBytes_loadU32]
  rfl

/-- **Encoding what was decoded** gives the frame back when the reserved bytes are zero. -/
theorem frameBytes_frameRecord {bytes : List UInt8} (hlen : kFrameBytes ≤ bytes.length)
    (h : GoodFrame bytes) :
    frameBytes (frameRecord bytes) = bytes.take kFrameBytes
      ↔ byteAt bytes 6 = 0 ∧ byteAt bytes 7 = 0 := by
  have h36 : bytes.take 36 = (List.range 36).map (byteAt bytes) :=
    take_eq_range (Nat.le_trans (by decide) hlen)
  have hsplit : bytes.take kFrameBytes
      = (List.range 6).map (byteAt bytes) ++ [byteAt bytes 6, byteAt bytes 7]
        ++ (List.range 28).map (fun i => byteAt bytes (8 + i))
        ++ [byteAt bytes 36, byteAt bytes 37] := by
    rw [take_eq_range hlen]
    rfl
  constructor
  · intro heq
    rw [hsplit, frameBytes, frameHead_frameRecord h] at heq
    have h6 := congrArg (fun l => List.getD l 6 0) heq
    have h7 := congrArg (fun l => List.getD l 7 0) heq
    exact ⟨h6.symm, h7.symm⟩
  · rintro ⟨h6, h7⟩
    have hhead : frameHead (frameRecord bytes) = bytes.take 36 := by
      have hzero : [(0 : UInt8), 0] = [byteAt bytes 6, byteAt bytes 7] := by rw [h6, h7]
      rw [frameHead_frameRecord h, h36, hzero]
      rfl
    have hcrc : toBytes 2 (frameCrc (bytes.take 36)).toNat
        = [byteAt bytes 36, byteAt bytes 37] := by
      rw [← h.checksum, ← loadU16_sum, toBytes_loadU16]
    rw [frameBytes, hhead, hcrc, h36, hsplit]
    rfl

theorem frameRecord_source {bytes : List UInt8} (h : GoodFrame bytes) :
    (frameRecord bytes).sourceId.toNat < kMaxSources := by
  have hid : (frameRecord bytes).sourceId.toNat = (loadU16 bytes 4).toNat := by
    simp [frameRecord]
  rw [hid, loadU16_sum]
  exact h.source

/--
**The codec over the whole format.**

Every record with a source id below 64 is encoded, and its 38 bytes decode to it, alone or with
anything after them. A string of at least 38 bytes is accepted exactly when magic, schema,
source id and checksum are right, and the record then decoded encodes to the same 38 bytes
exactly when the two reserved ones are zero. A call that fails leaves its output alone.
-/
theorem frame_round_trip :
    (∀ (record : Record) (buf : Vector UInt8 kFrameBytes), record.sourceId.toNat < kMaxSources →
        (encodeFrame record buf).1 = true
          ∧ ∀ (more : List UInt8) (out : Record),
              decodeFrame ((encodeFrame record buf).2.toList ++ more) out = (.ok, record))
      ∧ (∀ (bytes : List UInt8) (out : Record), kFrameBytes ≤ bytes.length →
          ((decodeFrame bytes out).1 = .ok ↔ GoodFrame bytes)
            ∧ ((decodeFrame bytes out).1 = .ok → ∀ buf : Vector UInt8 kFrameBytes,
                (encodeFrame (decodeFrame bytes out).2 buf).1 = true
                  ∧ ((encodeFrame (decodeFrame bytes out).2 buf).2.toList = bytes.take kFrameBytes
                      ↔ byteAt bytes 6 = 0 ∧ byteAt bytes 7 = 0)))
      ∧ (∀ (bytes : List UInt8) (out : Record), (decodeFrame bytes out).1 ≠ .ok →
          (decodeFrame bytes out).2 = out)
      ∧ ∀ (record : Record) (buf : Vector UInt8 kFrameBytes), (encodeFrame record buf).1 = false →
          (encodeFrame record buf).2 = buf := by
  refine ⟨?_, ?_, fun bytes out => decodeFrame_unchanged, ?_⟩
  · intro record buf h
    obtain ⟨hok, hbytes⟩ := encodeFrame_bytes record buf h
    refine ⟨hok, fun more out => ?_⟩
    rw [hbytes]
    exact decodeFrame_frameBytes record more out h
  · intro bytes out hlen
    obtain ⟨hiff, hrec⟩ := decodeFrame_ok_iff out hlen
    refine ⟨hiff, fun hok buf => ?_⟩
    have hgood := hiff.mp hok
    obtain ⟨henc, hbytes⟩ := encodeFrame_bytes (frameRecord bytes) buf (frameRecord_source hgood)
    rw [hrec hgood]
    refine ⟨henc, ?_⟩
    rw [hbytes]
    exact frameBytes_frameRecord hlen hgood
  · intro record buf hfalse
    rcases lt_or_ge record.sourceId.toNat kMaxSources with h | h
    · rw [(encodeFrame_bytes record buf h).1] at hfalse
      cases hfalse
    · rw [encodeFrame_refused record buf h]

/-- A record with a negative position, in a buffer that was not cleared. -/
theorem frame_round_trip_negative :
    decodeFrame ((encodeFrame { sourceId := 63, posX := -5 } (Vector.replicate kFrameBytes 7)).2.toList
      ++ [1]) {} = (.ok, { sourceId := 63, posX := -5 }) :=
  (frame_round_trip.1 { sourceId := 63, posX := -5 } (Vector.replicate kFrameBytes 7)
    (by decide)).2 [1] {}

end RateHub
