import RateHub.Frame

/-!
# The replay writer

`tools/make_replay.cpp`. Each frame is encoded into a local array that is not initialised,
so what the array held before is a parameter. A frame that cannot be encoded ends the
program with what has been written so far in the file.
-/

namespace RateHub

/-- The command line: the file's name, and whether `--demo` was given. -/
def replayArgs (args : List String) : String × Bool :=
  args.foldl (fun r arg => if arg = "--demo" then (r.1, true) else (arg, r.2))
    ("replay.bin", false)

/-- The body of the writing loops, over the records in the order of the loops: whether every
frame was encoded, and the file. `junk` is the array before the encoder, by the position
the frame gets. -/
def writeFrames (junk : Nat → Vector UInt8 kFrameBytes) :
    List Record → List UInt8 → Bool × List UInt8
  | [], out => (true, out)
  | record :: records, out =>
      match encodeFrame record (junk out.length) with
      | (true, frame) => writeFrames junk records (out ++ frame.toList)
      | (false, _) => (false, out)

/-- The two records written without `--demo`. -/
def plainRecords : List Record :=
  [1, 2].map fun seq => { sourceId := 1, sequence := seq, posX := 1000, velX := 2000 }

/-- `kSources`. -/
def kDemoSources : Nat := 8

/-- `kTicks`. -/
def kDemoTicks : Nat := 500

/-- One record of the demo. -/
def demoRecord (seq id : UInt32) : Record :=
  { sourceId := id
    sequence := seq
    posX := id.toInt32 * 800 - 2800
    posY := (id % 2).toInt32 * 1500 - 750
    velX := (400 + id * 80).toInt32
    velY := (if id &&& 1 ≠ 0 then 280 + id * 30 else -(280 + id * 30)).toInt32 }

/-- The records of `--demo`, tick by tick. -/
def demoRecords : List Record :=
  (List.range kDemoTicks).flatMap fun k =>
    (List.range kDemoSources).map fun id => demoRecord (UInt32.ofNat (k + 1)) (UInt32.ofNat id)

/-- What a run of the tool leaves. -/
structure MakeReplay where
  path : String
  code : UInt32
  bytes : List UInt8
  /-- What it prints, to the error stream where `code` is not 0. -/
  message : String

/-- The tool's `main`. `refusal` is the system's reason for not opening a file, if it has one. -/
def makeReplay (refusal : String → Option String) (junk : Nat → Vector UInt8 kFrameBytes)
    (args : List String) : MakeReplay :=
  let (path, demo) := replayArgs args
  match refusal path with
  | some reason =>
      { path := path, code := 1, bytes := [], message := path ++ ": " ++ reason ++ "\n" }
  | none =>
      match writeFrames junk (if demo then demoRecords else plainRecords) [] with
      | (false, bytes) =>
          { path := path, code := 1, bytes := bytes, message := "encode failed\n" }
      | (true, bytes) =>
          if demo then
            { path := path, code := 0, bytes := bytes
              message := "wrote " ++ path ++ " (" ++ toString (kDemoTicks * kDemoSources)
                ++ " frames, " ++ toString kDemoSources ++ " sources, " ++ toString kDemoTicks
                ++ " ticks)\n" }
          else
            { path := path, code := 0, bytes := bytes
              message := "wrote " ++ path ++ " (2 frames, source 1, vel 2000 mm/s)\n" }

end RateHub
