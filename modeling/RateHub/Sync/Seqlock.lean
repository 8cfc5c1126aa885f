import Mathlib.Algebra.Group.Nat.Defs
import RateHub.Lib.Transition

/-!
# The seqlock, one atomic step at a time

`include/ratehub/seqlock.hpp`. `publish` is a load of the sequence, the odd store,
one store per payload word and the even store; a `load` attempt is a load of the
sequence, one load per word and a second load of the sequence. Each of these is
one step, so a reader and a writer can meet between any two words.

The payload is the object representation of `T`: `memcpy` in and out of the
union is `Raw.pack` and `Raw.unpack`, and a 64-bit word is its eight bytes, since
no code does arithmetic on a word.
-/

namespace RateHub

/-- A trivially copyable type: its values are determined by `size` bytes. -/
class TriviallyCopyable (T : Type) where
  size : Nat
  toBytes : T → Fin size → UInt8
  ofBytes : (Fin size → UInt8) → T
  ofBytes_toBytes : ∀ v, ofBytes (toBytes v) = v

/-- An array of bytes is its own object representation. -/
instance (n : Nat) : TriviallyCopyable (Fin n → UInt8) where
  size := n
  toBytes := id
  ofBytes := id
  ofBytes_toBytes := fun _ => rfl

namespace Seqlock

/-- One `std::uint64_t`, as the eight bytes it occupies. -/
abbrev Word := Fin 8 → UInt8

/-- `(sizeof(T) + sizeof(std::uint64_t) - 1) / sizeof(std::uint64_t)`. -/
def kWords (T : Type) [TriviallyCopyable T] : Nat := (TriviallyCopyable.size T + 8 - 1) / 8

/-- The union `Raw`, seen through its `words` member. -/
abbrev Raw (T : Type) [TriviallyCopyable T] := Fin (kWords T) → Word

variable {T : Type} [TriviallyCopyable T]

/-- `Raw raw{}`: every byte zero. -/
def Raw.zero : Raw T := fun _ _ => 0

/-- `Raw raw{}` followed by the `memcpy` from a value. -/
def Raw.pack (v : T) : Raw T := fun i j =>
  if h : 8 * i.val + j.val < TriviallyCopyable.size T then
    TriviallyCopyable.toBytes v ⟨8 * i.val + j.val, h⟩
  else 0

/-- The `memcpy` into `out`. -/
def Raw.unpack (raw : Raw T) : T :=
  TriviallyCopyable.ofBytes fun b =>
    raw ⟨b.val / 8, by have := b.isLt; unfold kWords; omega⟩
      ⟨b.val % 8, Nat.mod_lt _ (by decide)⟩

@[simp] theorem Raw.unpack_pack (v : T) : Raw.unpack (Raw.pack v) = v := by
  refine Eq.trans ?_ (TriviallyCopyable.ofBytes_toBytes v)
  unfold Raw.unpack Raw.pack
  congr 1
  funext b
  have hb : 8 * (b.val / 8) + b.val % 8 = b.val := Nat.div_add_mod b.val 8
  simp [hb]

end Seqlock

/-- `Seqlock<T>`. -/
structure Seqlock (T : Type) [TriviallyCopyable T] where
  seq : UInt32
  words : Seqlock.Raw T
  /-- History: the values whose even store happened, oldest first. -/
  versions : List T

namespace Seqlock

variable {T : Type} [TriviallyCopyable T]

/-- A freshly constructed slot: sequence 0, every word zero. -/
def init : Seqlock T := { seq := 0, words := Raw.zero, versions := [] }

/-- Where a `publish(value)` call stands. -/
inductive PubPc (T : Type) where
  | idle
  | loadSeq (value : T)
  | storeOdd (value : T) (seq : UInt32)
  /-- The odd store is done; words below `i` are stored. -/
  | words (value : T) (seq : UInt32) (i : Nat)

/-- One access of `publish`. Past the last word the access is the even store. -/
def publishStep (l : Seqlock T) : PubPc T → Seqlock T × PubPc T
  | .idle => (l, .idle)
  | .loadSeq value => (l, .storeOdd value l.seq)
  | .storeOdd value seq => ({ l with seq := seq + 1 }, .words value seq 0)
  | .words value seq i =>
      if h : i < kWords T then
        ({ l with words := Function.update l.words ⟨i, h⟩ (Raw.pack value ⟨i, h⟩) },
          .words value seq (i + 1))
      else ({ l with seq := seq + 2, versions := l.versions ++ [value] }, .idle)

/-- Where a `load(out)` call stands. -/
inductive LoadPc (T : Type) [TriviallyCopyable T] where
  | idle
  | loadBegin (attempt : Nat)
  /-- `begin` was even; words below `i` are in `raw`. -/
  | words (attempt : Nat) («begin» : UInt32) (i : Nat) (raw : Raw T)

/-- `continue`: the next of the 64 attempts, or the final `return false`. -/
def retry (attempt : Nat) : LoadPc T × Option Bool :=
  if attempt + 1 < 64 then (.loadBegin (attempt + 1), none) else (.idle, some false)

/-- One access of `load`, with the caller's `out`. The last component is the
result when the call returns. Past the last word the access is the load of `end`. -/
def loadStep (l : Seqlock T) (out : T) : LoadPc T → T × LoadPc T × Option Bool
  | .idle => (out, .idle, none)
  | .loadBegin attempt =>
      if l.seq &&& 1 ≠ 0 then (out, retry attempt)
      else (out, .words attempt l.seq 0 Raw.zero, none)
  | .words attempt beg i raw =>
      if h : i < kWords T then
        (out, .words attempt beg (i + 1) (Function.update raw ⟨i, h⟩ (l.words ⟨i, h⟩)), none)
      else if beg = l.seq then (raw.unpack, .idle, some true)
      else (out, retry attempt)

/-- The values a load may yield: the initial zero value, then every publish. -/
def history (l : Seqlock T) : List T := Raw.unpack Raw.zero :: l.versions

/-! ## One writer at a time, any number of readers -/

/-- A load that has returned, with what is needed to judge it. -/
structure Returned (T : Type) where
  ok : Bool
  /-- `out` after the call, and before it. -/
  out : T
  before : T
  /-- The publishes completed when the call began, and when it returned. -/
  called : Nat
  returned : Nat
  /-- The publishes completed at the `begin` load of the last attempt. -/
  version : Nat
  /-- No publish was in progress at any moment of the call. -/
  quiet : Bool

/-- A reader: the caller's `out`, the call in progress, and the history of its calls. -/
structure Reader (T : Type) [TriviallyCopyable T] where
  out : T
  pc : LoadPc T
  before : T
  called : Nat
  version : Nat
  quiet : Bool
  log : List (Returned T)

/-- The slot, its writer and its readers, named by `R`. -/
structure State (T : Type) [TriviallyCopyable T] (R : Type) where
  lock : Seqlock T
  writer : PubPc T
  readers : R → Reader T

/-- Who moves. -/
inductive Act (T R : Type) where
  | callPublish (value : T)
  | writer
  | callLoad (r : R)
  | reader (r : R)
  | killWriter

/-- A reader outside any call. -/
def Reader.init (out : T) : Reader T :=
  { out := out, pc := .idle, before := out, called := 0, version := 0, quiet := false, log := [] }

/-- The reader calls `load(out)`; `busy` says whether a publish is in progress. -/
def Reader.call (rd : Reader T) (l : Seqlock T) (busy : Bool) : Reader T :=
  { rd with pc := .loadBegin 0, before := rd.out, called := l.versions.length, quiet := !busy }

/-- The reader takes one access of its call. -/
def Reader.step (rd : Reader T) (l : Seqlock T) : Reader T :=
  let out := (loadStep l rd.out rd.pc).1
  let pc := (loadStep l rd.out rd.pc).2.1
  let version := match rd.pc with
    | .loadBegin _ => l.versions.length
    | _ => rd.version
  match (loadStep l rd.out rd.pc).2.2 with
  | none => { rd with out := out, pc := pc, version := version }
  | some ok =>
      { rd with
        out := out, pc := pc, version := version
        log := rd.log ++ [{ ok := ok, out := out, before := rd.before, called := rd.called,
                            returned := l.versions.length, version := version,
                            quiet := rd.quiet }] }

/-- A publish is in progress. -/
def PubPc.busy : PubPc T → Bool
  | .idle => false
  | _ => true

/-- The writer is past its odd store and before its even store. -/
def PubPc.inWords : PubPc T → Bool
  | .words _ _ _ => true
  | _ => false

/-- One step of the writer or of a reader. A killed writer leaves the slot as it
is, and the process that replaces it starts outside any call. -/
def State.step {R : Type} [DecidableEq R] (s : State T R) : Act T R → Option (State T R)
  | .callPublish value =>
      match s.writer with
      | .idle =>
          some { s with
            writer := .loadSeq value
            readers := fun r => { s.readers r with quiet := false } }
      | _ => none
  | .writer =>
      if s.writer.busy then
        some { s with lock := (publishStep s.lock s.writer).1
                      writer := (publishStep s.lock s.writer).2 }
      else none
  | .callLoad r =>
      match (s.readers r).pc with
      | .idle =>
          some { s with
            readers := Function.update s.readers r ((s.readers r).call s.lock s.writer.busy) }
      | _ => none
  | .reader r =>
      match (s.readers r).pc with
      | .idle => none
      | _ => some { s with readers := Function.update s.readers r ((s.readers r).step s.lock) }
  | .killWriter => some { s with writer := .idle }

/-- A fresh slot, nobody inside a call, the readers' variables holding anything. -/
def State.Start {R : Type} (s : State T R) : Prop :=
  s.lock = init ∧ s.writer = .idle ∧ ∀ r, ∃ out, s.readers r = Reader.init out

/-- The contract's bound: when an attempt makes its `end` load, fewer than `2^31`
publishes have completed since its `begin` load. -/
def prompt {R : Type} (s : State T R) : Act T R → Bool
  | .reader r =>
      match (s.readers r).pc with
      | .words _ _ i _ =>
          decide (i < kWords T)
            || decide (s.lock.versions.length < (s.readers r).version + 2 ^ 31)
      | _ => true
  | _ => true

/-- No writer dies. -/
def noKill {R : Type} : Act T R → Bool
  | .killWriter => false
  | _ => true

/-- A writer dies only outside the span from its odd store to its even store. -/
def cleanKill {R : Type} (s : State T R) : Act T R → Bool
  | .killWriter => !s.writer.inWords
  | _ => true

end Seqlock

end RateHub
