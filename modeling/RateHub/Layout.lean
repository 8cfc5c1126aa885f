import RateHub.Sync.Seqlock
import RateHub.Sync.SpscRing
import RateHub.Sync.TripleBuffer
import RateHub.Types

/-!
# The shared mapping

`include/ratehub/layout.hpp`, `shm_control.hpp` and `supervisor_state.hpp`. The magic and
schema words are left out: the supervisor's constructor writes them before any
child exists and nothing changes them, so whether a child attaches is decided
by the operating system alone.
-/

namespace RateHub

/-! ## Published rows -/

/-- One source's state, as the fast thread publishes it. -/
structure SourceState where
  posX : Int32 := 0
  posY : Int32 := 0
  velX : Int32 := 0
  velY : Int32 := 0
  sequence : UInt32 := 0
  publishes : UInt32 := 0
  timeNs : Int64 := 0
  valid : UInt32 := 0
  deriving DecidableEq, Repr

/-- One source's window sample. -/
structure WindowState where
  posX : Int32 := 0
  posY : Int32 := 0
  sequence : UInt32 := 0
  publishes : UInt32 := 0
  deriving DecidableEq, Repr

/-- The fleet snapshot. -/
structure Snapshot where
  generation : UInt32 := 0
  rows : Fin kMaxSources → WindowState := fun _ => {}

/-- A `Snapshot` is copied field by field: part 0 is the generation, part `k + 1` row `k`. -/
def Snapshot.copyPart (src dst : Snapshot) (k : Nat) : Snapshot :=
  match k with
  | 0 => { dst with generation := src.generation }
  | k + 1 =>
      { dst with rows := fun id => if id.val = k then src.rows id else dst.rows id }

/-- The number of parts of a `Snapshot`. -/
def Snapshot.parts : Nat := kMaxSources + 1

/-! ## Object representations -/

/-- The bytes of a 32-bit integer in memory, lowest first. -/
def leBytes32 (x : UInt32) : List UInt8 :=
  [UInt8.ofNat x.toNat, UInt8.ofNat (x.toNat / 2 ^ 8), UInt8.ofNat (x.toNat / 2 ^ 16),
    UInt8.ofNat (x.toNat / 2 ^ 24)]

/-- The 32-bit integer at an offset. -/
def leLoad32 (bytes : Nat → UInt8) (offset : Nat) : UInt32 :=
  UInt32.ofNat ((bytes offset).toNat + 2 ^ 8 * (bytes (offset + 1)).toNat
    + 2 ^ 16 * (bytes (offset + 2)).toNat + 2 ^ 24 * (bytes (offset + 3)).toNat)

theorem leLoad32_bytes (x : UInt32) (bytes : Nat → UInt8) (offset : Nat)
    (h : ∀ j b, (leBytes32 x)[j]? = some b → bytes (offset + j) = b) :
    leLoad32 bytes offset = x := by
  have h0 := h 0 _ rfl
  have h1 := h 1 _ rfl
  have h2 := h 2 _ rfl
  have h3 := h 3 _ rfl
  have hx := x.toNat_lt
  apply UInt32.toNat_inj.mp
  simp only [leLoad32, Nat.add_zero] at h0 ⊢
  rw [h0, h1, h2, h3, UInt32.toNat_ofNat']
  simp only [UInt8.toNat_ofNat']
  omega

/-- The words a 64-bit integer occupies, low half first. -/
def leBytes64 (x : UInt64) : List UInt8 :=
  leBytes32 x.toUInt32 ++ leBytes32 (x >>> 32).toUInt32

/-- The 64-bit integer at an offset. -/
def leLoad64 (bytes : Nat → UInt8) (offset : Nat) : UInt64 :=
  UInt64.ofNat ((leLoad32 bytes offset).toNat + 2 ^ 32 * (leLoad32 bytes (offset + 4)).toNat)

theorem leLoad64_bytes (x : UInt64) (bytes : Nat → UInt8) (offset : Nat)
    (hlo : leLoad32 bytes offset = x.toUInt32)
    (hhi : leLoad32 bytes (offset + 4) = (x >>> 32).toUInt32) : leLoad64 bytes offset = x := by
  have hx := x.toNat_lt
  apply UInt64.toNat_inj.mp
  rw [leLoad64, hlo, hhi, UInt64.toNat_ofNat', UInt64.toNat_toUInt32, UInt64.toNat_toUInt32,
    UInt64.toNat_shiftRight, Nat.shiftRight_eq_div_pow]
  have h32 : (32 : UInt64).toNat % 64 = 32 := rfl
  rw [h32]
  omega

/-- Read bytes of an array by number; none is read past its end. -/
def bytesOf {n : Nat} (bytes : Fin n → UInt8) (i : Nat) : UInt8 :=
  if h : i < n then bytes ⟨i, h⟩ else 0

/-- `SourceState` in memory: 36 bytes of fields and 4 of padding. -/
def SourceState.bytes (v : SourceState) : List UInt8 :=
  leBytes32 v.posX.toUInt32 ++ leBytes32 v.posY.toUInt32 ++ leBytes32 v.velX.toUInt32
    ++ leBytes32 v.velY.toUInt32 ++ leBytes32 v.sequence ++ leBytes32 v.publishes
    ++ leBytes64 v.timeNs.toUInt64 ++ leBytes32 v.valid ++ [0, 0, 0, 0]

/-- A 32-bit field, read back from the bytes around it. -/
theorem leLoad32_field {n : Nat} (l : List UInt8) (offset : Nat) (x : UInt32)
    (hx : (l.drop offset).take 4 = leBytes32 x) (hn : l.length = n) :
    leLoad32 (bytesOf fun i : Fin n => l.getD i.val 0) offset = x := by
  refine leLoad32_bytes x _ _ ?_
  intro j b hj
  rw [← hx, List.getElem?_take] at hj
  split at hj
  · rw [List.getElem?_drop] at hj
    have hin : offset + j < n := hn ▸ (List.getElem?_eq_some_iff.mp hj).1
    simp [bytesOf, hin, hj]
  · exact absurd hj (by simp)

instance : TriviallyCopyable SourceState where
  size := 40
  toBytes v i := v.bytes.getD i.val 0
  ofBytes bytes :=
    { posX := (leLoad32 (bytesOf bytes) 0).toInt32
      posY := (leLoad32 (bytesOf bytes) 4).toInt32
      velX := (leLoad32 (bytesOf bytes) 8).toInt32
      velY := (leLoad32 (bytesOf bytes) 12).toInt32
      sequence := leLoad32 (bytesOf bytes) 16
      publishes := leLoad32 (bytesOf bytes) 20
      timeNs := (leLoad64 (bytesOf bytes) 24).toInt64
      valid := leLoad32 (bytesOf bytes) 32 }
  ofBytes_toBytes v := by
    have hlen : v.bytes.length = 40 := rfl
    rw [leLoad32_field v.bytes 0 v.posX.toUInt32 rfl hlen,
      leLoad32_field v.bytes 4 v.posY.toUInt32 rfl hlen,
      leLoad32_field v.bytes 8 v.velX.toUInt32 rfl hlen,
      leLoad32_field v.bytes 12 v.velY.toUInt32 rfl hlen,
      leLoad32_field v.bytes 16 v.sequence rfl hlen,
      leLoad32_field v.bytes 20 v.publishes rfl hlen,
      leLoad64_bytes v.timeNs.toUInt64 _ 24 (leLoad32_field v.bytes 24 _ rfl hlen)
        (leLoad32_field v.bytes 28 _ rfl hlen),
      leLoad32_field v.bytes 32 v.valid rfl hlen]
    simp

/-- `WindowState` in memory: 16 bytes, no padding. -/
def WindowState.bytes (v : WindowState) : List UInt8 :=
  leBytes32 v.posX.toUInt32 ++ leBytes32 v.posY.toUInt32 ++ leBytes32 v.sequence
    ++ leBytes32 v.publishes

instance : TriviallyCopyable WindowState where
  size := 16
  toBytes v i := v.bytes.getD i.val 0
  ofBytes bytes :=
    { posX := (leLoad32 (bytesOf bytes) 0).toInt32
      posY := (leLoad32 (bytesOf bytes) 4).toInt32
      sequence := leLoad32 (bytesOf bytes) 8
      publishes := leLoad32 (bytesOf bytes) 12 }
  ofBytes_toBytes v := by
    have hlen : v.bytes.length = 16 := rfl
    rw [leLoad32_field v.bytes 0 v.posX.toUInt32 rfl hlen,
      leLoad32_field v.bytes 4 v.posY.toUInt32 rfl hlen,
      leLoad32_field v.bytes 8 v.sequence rfl hlen,
      leLoad32_field v.bytes 12 v.publishes rfl hlen]
    simp

/-! ## The mapping -/

/-- `ShmControl`. -/
structure ShmControl where
  shutdown : UInt32 := 0
  generation : UInt32 := 1
  ingestDone : UInt32 := 0
  fastDone : UInt32 := 0
  windowDone : UInt32 := 0
  computeDone : UInt32 := 0
  fault : UInt32 := 0
  snapshotDone : UInt32 := 0
  overrunFast : UInt32 := 0
  overrunWindow : UInt32 := 0
  overrunSnapshot : UInt32 := 0
  heartbeatIngest : UInt64 := 0
  heartbeatCompute : UInt64 := 0
  heartbeatPublish : UInt64 := 0
  heartbeatFast : UInt64 := 0
  heartbeatWindow : UInt64 := 0
  heartbeatSnapshot : UInt64 := 0
  deriving DecidableEq, Repr

/-- `SupervisorState`. -/
structure SupervisorState where
  ingestPid : UInt32 := 0
  computePid : UInt32 := 0
  publishPid : UInt32 := 0
  observePid : UInt32 := 0
  ingestExit : UInt32 := 0
  computeExit : UInt32 := 0
  publishExit : UInt32 := 0
  observeRelease : UInt32 := 0
  rerunRequest : UInt32 := 0
  deriving DecidableEq, Repr

/-- `kRingCapacity`. -/
def kRingCapacity : Capacity := ⟨1024, by decide, by decide⟩

/-- `Layout`: the one object all processes share. -/
structure Layout where
  control : ShmControl
  supervisor : SupervisorState
  ring : SpscRing Record kRingCapacity
  latest : Fin kMaxSources → Seqlock SourceState
  window : Fin kMaxSources → Seqlock WindowState
  snapshots : TripleBuffer Snapshot

/-- `new (layout) Layout`. -/
def Layout.init : Layout :=
  { control := {}, supervisor := {}, ring := SpscRing.init {}
    latest := fun _ => Seqlock.init, window := fun _ => Seqlock.init
    snapshots := TripleBuffer.init {} }

end RateHub
