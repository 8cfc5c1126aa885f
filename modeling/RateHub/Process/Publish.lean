import RateHub.Layout

/-!
# The publish process

`src/publish.cpp`. It polls the shutdown flag, the triple buffer and `compute_done` in
one loop, keeps a copy of the snapshot it consumed last, and writes that copy out
after the loop. The copy out of the read slot is not atomic and goes part by part,
like the writer's copy into its slot.

The output file is opened, which empties it, and closed, and in between its text is in the
stream's buffer, which has room for all of it, so that the close puts it out in one write. That
this write succeeds is taken for granted, as it is by the code, which does not test the stream
again.
-/

namespace RateHub

/-- Where `run_publish` stands. -/
inductive PublishPc where
  | attach
  | test
  | consume (call : TripleBuffer.ConsumePc)
  /-- The parts of the read slot below `k` are in `last`. -/
  | copy (k : Nat)
  | beat
  | testDone
  /-- About to open the output file. -/
  | openFile
  /-- The file is open and empty. The next step closes it, which writes the text out. -/
  | write
  | exit (code : UInt32)
  deriving DecidableEq, Repr

/-- The publish process. -/
structure Publish where
  pc : PublishPc
  last : Snapshot
  have_ : Bool
  beats : UInt64

/-- `ratehub publish <shm> <out>`. -/
def Publish.init : Publish := { pc := .attach, last := {}, have_ := false, beats := 0 }

/-- Past the loop: the file is written only when a snapshot was consumed. -/
def Publish.leave (p : Publish) : Publish :=
  if p.have_ then { p with pc := .openFile } else { p with pc := .exit 0 }

/-- Past the loop, with the output file to be opened or closed. -/
def PublishPc.filing : PublishPc → Bool
  | .openFile => true
  | .write => true
  | _ => false

/-- One step of `run_publish`, past the attach; what it does to the output file aside. -/
def Publish.step (l : Layout) (p : Publish) : Option (Layout × Publish) :=
  match p.pc with
  | .attach => some (l, { p with pc := .test })
  | .test =>
      if l.control.shutdown = 0 then some (l, { p with pc := .consume .loadFresh })
      else some (l, p.leave)
  | .consume call =>
      match TripleBuffer.consumeStep l.snapshots call with
      | (buf, call', none) => some ({ l with snapshots := buf }, { p with pc := .consume call' })
      | (buf, _, some true) => some ({ l with snapshots := buf }, { p with pc := .copy 0 })
      | (buf, _, some false) => some ({ l with snapshots := buf }, { p with pc := .beat })
  | .copy k =>
      if k + 1 < Snapshot.parts then
        some (l, { p with pc := .copy (k + 1)
                          last := (l.snapshots.slots l.snapshots.read).copyPart p.last k })
      else
        some (l, { p with pc := .beat, have_ := true
                          last := (l.snapshots.slots l.snapshots.read).copyPart p.last k })
  | .beat =>
      some ({ l with control := { l.control with heartbeatPublish := p.beats + 1 } },
        { p with pc := .testDone, beats := p.beats + 1 })
  | .testDone =>
      if l.control.computeDone ≠ 0 ∧ p.have_ = true then some (l, p.leave)
      else some (l, { p with pc := .test })
  | .openFile => some (l, { p with pc := .write })
  | .write => some (l, { p with pc := .exit 0 })
  | .exit _ => none

/-- A row of the output file; rows never published are left out. -/
def WindowState.line (id : Fin kMaxSources) (row : WindowState) : String :=
  if row.publishes = 0 then ""
  else
    toString id.val ++ " " ++ toString row.posX ++ " " ++ toString row.posY ++ " "
      ++ toString row.publishes ++ "\n"

/-- The text of the output file. -/
def Snapshot.render (snap : Snapshot) : String :=
  "generation " ++ toString snap.generation ++ "\n"
    ++ String.join ((List.finRange kMaxSources).map fun id => (snap.rows id).line id)

end RateHub
