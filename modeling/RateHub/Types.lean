/-!
# Shared bounds and records

`include/ratehub/types.hpp`. Fixed-width C++ integers are Lean's fixed-width
integers of the same width and sign.
-/

namespace RateHub

/-- `kMaxSources`: the id on the wire is the array index. -/
abbrev kMaxSources : Nat := 64

def kSchemaVersion : UInt16 := 3

def kFrameMagic : UInt16 := 0xA15C

/-- Wire size of one record. -/
abbrev kFrameBytes : Nat := 38

def kFastPeriodNs : Int64 := 5000000
def kWindowPeriodNs : Int64 := 25000000
def kSnapshotPeriodNs : Int64 := 100000000

/-- Native record after a successful decode. -/
structure Record where
  sourceId : UInt32 := 0
  sequence : UInt32 := 0
  timeNs : Int64 := 0
  posX : Int32 := 0
  posY : Int32 := 0
  velX : Int32 := 0
  velY : Int32 := 0
  deriving DecidableEq, Repr, Inhabited

/-- `decode_frame`'s result. -/
inductive ParseStatus where
  | ok
  | truncated
  | badMagic
  | badVersion
  | badSource
  | badChecksum
  deriving DecidableEq, Repr

/-- `integrate`'s result. -/
inductive IntegrateStatus where
  | ok
  | badSource
  | badDt
  | outOfRange
  deriving DecidableEq, Repr

/-- An id as an index into the per-source arrays. Used for ids below `kMaxSources` only. -/
def sourceIndex (id : UInt32) : Fin kMaxSources := Fin.ofNat kMaxSources id.toNat

end RateHub
