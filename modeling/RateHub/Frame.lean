import RateHub.Types

/-!
# The wire frame

`src/frame.cpp`: big-endian, 38 bytes, CRC-16/CCITT-FALSE over the first 36. The
encoder stores into the caller's array of 38 bytes. The decoder copies the bytes into a
local array and shifts them into integers; bytes here are a list, and reading past its
end (which the length check excludes) gives zero.
-/

namespace RateHub

/-- `p[offset]`. -/
def byteAt (p : List UInt8) (offset : Nat) : UInt8 := p.getD offset 0

/-- `load_u16(p + offset)`. -/
def loadU16 (p : List UInt8) (offset : Nat) : UInt16 :=
  ((byteAt p offset).toUInt16 <<< 8) ||| (byteAt p (offset + 1)).toUInt16

/-- `load_u32(p + offset)`. -/
def loadU32 (p : List UInt8) (offset : Nat) : UInt32 :=
  ((byteAt p offset).toUInt32 <<< 24) ||| ((byteAt p (offset + 1)).toUInt32 <<< 16)
    ||| ((byteAt p (offset + 2)).toUInt32 <<< 8) ||| (byteAt p (offset + 3)).toUInt32

/-- `load_u64(p + offset)`: eight rounds of `v = (v << 8) | p[i]`. -/
def loadU64 (p : List UInt8) (offset : Nat) : UInt64 :=
  (List.range 8).foldl (fun v i => (v <<< 8) ||| (byteAt p (offset + i)).toUInt64) 0

/-- `store_u16(p + offset, v)`. -/
def storeU16 {n : Nat} (p : Vector UInt8 n) (offset : Nat) (v : UInt16) : Vector UInt8 n :=
  (p.setIfInBounds offset (v >>> 8).toUInt8).setIfInBounds (offset + 1) v.toUInt8

/-- `store_u32(p + offset, v)`. -/
def storeU32 {n : Nat} (p : Vector UInt8 n) (offset : Nat) (v : UInt32) : Vector UInt8 n :=
  (((p.setIfInBounds offset (v >>> 24).toUInt8).setIfInBounds (offset + 1)
    (v >>> 16).toUInt8).setIfInBounds (offset + 2) (v >>> 8).toUInt8).setIfInBounds (offset + 3)
    v.toUInt8

/-- `store_u64(p + offset, v)`: the shifts 56, 48, .., 0 at ascending addresses. -/
def storeU64 {n : Nat} (p : Vector UInt8 n) (offset : Nat) (v : UInt64) : Vector UInt8 n :=
  (List.range 8).foldl
    (fun p i => p.setIfInBounds (offset + i) (v >>> UInt64.ofNat (56 - 8 * i)).toUInt8) p

/-- One bit of the CRC register. -/
def crcBit (crc : UInt16) : UInt16 :=
  if crc &&& 0x8000 ≠ 0 then (crc <<< 1) ^^^ 0x1021 else crc <<< 1

/-- One byte of the CRC loop: xor into the high half, then eight bits. -/
def crcByte (crc : UInt16) (b : UInt8) : UInt16 :=
  (List.range 8).foldl (fun crc _ => crcBit crc) (crc ^^^ (b.toUInt16 <<< 8))

/-- `frame_crc`. -/
def frameCrc (data : List UInt8) : UInt16 := data.foldl crcByte 0xFFFF

/-- `encode_frame(record, out)`: the result, and `out` after the call. -/
def encodeFrame (record : Record) (out : Vector UInt8 kFrameBytes) :
    Bool × Vector UInt8 kFrameBytes :=
  if kMaxSources ≤ record.sourceId.toNat then (false, out)
  else
    let out := storeU16 out 0 kFrameMagic
    let out := storeU16 out 2 kSchemaVersion
    let out := storeU16 out 4 record.sourceId.toUInt16
    let out := storeU16 out 6 0
    let out := storeU32 out 8 record.sequence
    let out := storeU64 out 12 record.timeNs.toUInt64
    let out := storeU32 out 20 record.posX.toUInt32
    let out := storeU32 out 24 record.posY.toUInt32
    let out := storeU32 out 28 record.velX.toUInt32
    let out := storeU32 out 32 record.velY.toUInt32
    (true, storeU16 out 36 (frameCrc (out.toList.take 36)))

/-- `decode_frame(bytes, length, out)`: the status, and `out` after the call. -/
def decodeFrame (bytes : List UInt8) (out : Record) : ParseStatus × Record :=
  if bytes.length < kFrameBytes then (.truncated, out)
  else if loadU16 bytes 0 ≠ kFrameMagic then (.badMagic, out)
  else if loadU16 bytes 2 ≠ kSchemaVersion then (.badVersion, out)
  else if kMaxSources ≤ (loadU16 bytes 4).toNat then (.badSource, out)
  else if loadU16 bytes 36 ≠ frameCrc (bytes.take 36) then (.badChecksum, out)
  else
    (.ok,
      { sourceId := (loadU16 bytes 4).toUInt32
        sequence := loadU32 bytes 8
        timeNs := (loadU64 bytes 12).toInt64
        posX := (loadU32 bytes 20).toInt32
        posY := (loadU32 bytes 24).toInt32
        velX := (loadU32 bytes 28).toInt32
        velY := (loadU32 bytes 32).toInt32 })

end RateHub
