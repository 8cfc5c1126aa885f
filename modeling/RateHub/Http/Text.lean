import Mathlib.Data.List.Infix
import RateHub.Process.Observe

/-!
# Characters, C strings and the telemetry text

A buffer is the list of its bytes, with what follows it in memory where a length may go
past its end. `snprintf` stores at most one byte less than it is allowed and ends with a
NUL, but returns the length of the whole text. The string functions read up to the first
NUL.

`formatTelemetryJson` is `format_telemetry_json` of `src/telemetry.cpp`.
-/

namespace RateHub.Http

/-! ## Text -/

/-- The byte of an ASCII character. -/
def byte (c : Char) : UInt8 := UInt8.ofNat c.toNat

/-- The bytes of an ASCII text, without the NUL that ends a literal. -/
def text (s : String) : List UInt8 := s.toList.map byte

/-- `%u`, `%llu`. -/
def decimal (n : Nat) : List UInt8 := (Nat.toDigits 10 n).map byte

/-- `%d`, `%lld`. -/
def signed : Int → List UInt8
  | .ofNat n => decimal n
  | .negSucc n => byte '-' :: decimal (n + 1)

/-- `snprintf(mem, cap, ..)` of a conversion that gives `s`. The result does not fit `int`
from `2^31` on, and the call fails. -/
def snprintf (mem : List UInt8) (cap : Nat) (s : List UInt8) : List UInt8 × Int :=
  (if cap = 0 then mem else s.take (cap - 1) ++ 0 :: mem.drop (min s.length (cap - 1) + 1),
    if s.length < 2 ^ 31 then (s.length : Int) else -1)

/-! ## C strings -/

/-- The string at the start of `mem`. -/
def cstr (mem : List UInt8) : List UInt8 := mem.takeWhile (· != 0)

/-- `strchr`, as an offset. -/
def strchr (mem : List UInt8) (c : Char) : Option Nat := (cstr mem).idxOf? (byte c)

/-- `strstr(mem, s) != nullptr`. -/
def strstr (mem : List UInt8) (s : String) : Bool := decide (text s <:+: cstr mem)

/-- `strcmp(mem, s) == 0`. -/
def strcmp (mem : List UInt8) (s : String) : Bool := decide (cstr mem = text s)

/-- `strncmp(mem, s, n) == 0`. -/
def strncmp (mem : List UInt8) (s : String) (n : Nat) : Bool :=
  decide ((cstr mem).take n = (text s).take n)

/-- `%.*s` with the precision `len`. -/
def precise (len : Nat) (mem : List UInt8) : List UInt8 := cstr (mem.take len)

/-! ## `format_telemetry_json` -/

/-- A format: each number with the characters in front of it, then the characters after
the last one. -/
def printed (parts : List (String × Int)) (rest : String) : List UInt8 :=
  (parts.flatMap fun part => text part.1 ++ signed part.2) ++ text rest

/-- The object up to the first source. -/
def jsonHead (snap : TelemetrySnapshot) : List UInt8 :=
  printed
    [("\x7b\"ts_ns\":", snap.tsNs.toNat), (",\"generation\":", snap.generation.toNat),
      (",\"shutdown\":", snap.shutdown.toNat), (",\"fault\":", snap.fault.toNat),
      (",\"idle\":", snap.idle.toNat),
      (",\"ring\":\x7b\"occupied\":", snap.ringOccupied.toNat),
      (",\"capacity\":", snap.ringCapacity.toNat),
      ("\x7d,\"overrun\":\x7b\"fast\":", snap.overrunFast.toNat),
      (",\"window\":", snap.overrunWindow.toNat), (",\"snapshot\":", snap.overrunSnapshot.toNat),
      ("\x7d,\"done\":\x7b\"ingest\":", snap.ingestDone.toNat), (",\"fast\":", snap.fastDone.toNat),
      (",\"window\":", snap.windowDone.toNat), (",\"snapshot\":", snap.snapshotDone.toNat),
      (",\"compute\":", snap.computeDone.toNat),
      ("\x7d,\"hb\":\x7b\"ingest\":", snap.hbIngest.toNat), (",\"compute\":", snap.hbCompute.toNat),
      (",\"publish\":", snap.hbPublish.toNat), (",\"fast\":", snap.hbFast.toNat),
      (",\"window\":", snap.hbWindow.toNat), (",\"snapshot\":", snap.hbSnapshot.toNat),
      ("\x7d,\"pids\":\x7b\"ingest\":", snap.ingestPid.toNat),
      (",\"compute\":", snap.computePid.toNat), (",\"publish\":", snap.publishPid.toNat),
      (",\"observe\":", snap.observePid.toNat),
      ("\x7d,\"exits\":\x7b\"ingest\":", snap.ingestExit.toNat),
      (",\"compute\":", snap.computeExit.toNat), (",\"publish\":", snap.publishExit.toNat)]
    "\x7d,\"sources\":["

/-- The text of a source, without the comma in front of all but the first. -/
def pointJson (src : SourcePoint) : List UInt8 :=
  printed
    [("\x7b\"id\":", src.id.toNat), (",\"x\":", src.x.toInt), (",\"y\":", src.y.toInt),
      (",\"p\":", src.publishes.toNat), (",\"seq\":", src.sequence.toNat)]
    "\x7d"

/-- `snap.sources[0 .. snap.source_count)`; there are never more than `kMaxPoints`. -/
def points (snap : TelemetrySnapshot) : List SourcePoint :=
  ((List.finRange kMaxPoints).take snap.sourceCount).map snap.sources

/-- What each call of `put` is given, in order. -/
def jsonPieces (snap : TelemetrySnapshot) : List (List UInt8) :=
  jsonHead snap
    :: ((points snap).mapIdx fun i src =>
        (if i = 0 then text "" else text ",") ++ pointJson src)
    ++ [text "]\x7d"]

/-- `put(p, end, ..)` into the buffer `out[0 .. cap)`, with `p` as an offset. The result is
the new `p`, or nothing for false. -/
def put (out : List UInt8) (cap p : Nat) (s : List UInt8) : List UInt8 × Option Nat :=
  if cap ≤ p then (out, none)
  else
    let (tail, n) := snprintf (out.drop p) (cap - p) s
    if n < 0 ∨ (cap : Int) ≤ p + n then (out.take p ++ tail, none)
    else (out.take p ++ tail, some (p + n.toNat))

/-- The calls of `put` one after the other, up to the first that returns false. -/
def putAll (cap : Nat) : List (List UInt8) → List UInt8 → Nat → List UInt8 × Option Nat
  | [], out, p => (out, some p)
  | s :: rest, out, p =>
      match put out cap p s with
      | (out', some p') => putAll cap rest out' p'
      | (out', none) => (out', none)

/-- `format_telemetry_json(snap, out, cap)`: the buffer and the length, 0 when it does
not fit. -/
def formatTelemetryJson (snap : TelemetrySnapshot) (out : List UInt8) (cap : Nat) :
    List UInt8 × Nat :=
  if cap < 2 then (out, 0)
  else
    let (out', p) := putAll cap (jsonPieces snap) out 0
    (out', p.getD 0)

end RateHub.Http
