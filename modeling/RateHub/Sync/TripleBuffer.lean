import RateHub.Lib.Transition

/-!
# The snapshot triple buffer, one step at a time

`include/ratehub/triple_buffer.hpp`. `publish` is an exchange on `middle_` followed
by a plain store to `write_`; `consume` is a load of the fresh bit, an exchange
and a plain store to `read_`. The exchange and the index store are separate
steps here, because they are separate in memory: a process can stop for good
between the two.

The slot itself is not atomic. `fill` is any part of a store to the write slot,
given as the change it makes to the slot's contents.
-/

namespace RateHub

/-- `TripleBuffer<T>`. Slots are addressed by the index the code uses. -/
structure TripleBuffer (T : Type) where
  slots : UInt64 → T
  write : UInt64
  read : UInt64
  middle : UInt32
  /-- History: the write slot at each publish's exchange, oldest first. -/
  published : List T
  /-- History: how many publishes there were at each successful consume's exchange. -/
  consumed : List Nat

namespace TripleBuffer

variable {T : Type}

/-- `kIndexMask`. -/
def kIndexMask : UInt32 := 0x3

/-- `kFresh`. -/
def kFresh : UInt32 := 0x4

/-- A freshly constructed buffer; every slot holds `T{}`. -/
def init (zero : T) : TripleBuffer T :=
  { slots := fun _ => zero, write := 0, read := 1, middle := 2, published := [], consumed := [] }

/-- A part of a store through `write_slot()`. -/
def fill (b : TripleBuffer T) (part : T → T) : TripleBuffer T :=
  { b with slots := Function.update b.slots b.write (part (b.slots b.write)) }

/-- Where a `publish()` call stands. -/
inductive PubPc where
  | idle
  | exchange
  | update (old : UInt32)
  deriving DecidableEq, Repr

/-- Where a `consume()` call stands. -/
inductive ConsumePc where
  | idle
  | loadFresh
  | exchange
  | update (old : UInt32)
  deriving DecidableEq, Repr

/-- One step of `publish`. -/
def publishStep (b : TripleBuffer T) : PubPc → TripleBuffer T × PubPc
  | .idle => (b, .idle)
  | .exchange =>
      ({ b with middle := b.write.toUInt32 ||| kFresh
                published := b.published ++ [b.slots b.write] }, .update b.middle)
  | .update old => ({ b with write := (old &&& kIndexMask).toUInt64 }, .idle)

/-- One step of `consume`. The last component is the result when the call returns. -/
def consumeStep (b : TripleBuffer T) : ConsumePc → TripleBuffer T × ConsumePc × Option Bool
  | .idle => (b, .idle, none)
  | .loadFresh => if b.middle &&& kFresh = 0 then (b, .idle, some false) else (b, .exchange, none)
  | .exchange =>
      ({ b with middle := b.read.toUInt32, consumed := b.consumed ++ [b.published.length] },
        .update b.middle, none)
  | .update old => ({ b with read := (old &&& kIndexMask).toUInt64 }, .idle, some true)

/-- The publishes seen so far: those before the last successful consume's exchange. -/
def seen (b : TripleBuffer T) : Nat := b.consumed.getLast?.getD 0

/-! ## One writer and one reader, either of which may be killed and replaced -/

/-- The buffer with the calls in progress on either side. Outside `publish` the
writer may fill; outside `consume` the reader may read. -/
structure State (T : Type) where
  buf : TripleBuffer T
  writer : PubPc
  reader : ConsumePc

/-- Who moves. Reading a part of `read_slot()` changes nothing and is not a step. -/
inductive Act (T : Type) where
  | fill (part : T → T)
  | callPublish
  | writer
  | callConsume
  | reader
  | killWriter
  | killReader

/-- One step of the two sides. A killed process leaves the buffer as it is, and
the process that replaces it starts outside any call. -/
def State.step (s : State T) : Act T → Option (State T)
  | .fill part => if s.writer = .idle then some { s with buf := s.buf.fill part } else none
  | .callPublish => if s.writer = .idle then some { s with writer := .exchange } else none
  | .writer =>
      if s.writer = .idle then none
      else some { s with buf := (publishStep s.buf s.writer).1
                         writer := (publishStep s.buf s.writer).2 }
  | .callConsume => if s.reader = .idle then some { s with reader := .loadFresh } else none
  | .reader =>
      if s.reader = .idle then none
      else some { s with buf := (consumeStep s.buf s.reader).1
                         reader := (consumeStep s.buf s.reader).2.1 }
  | .killWriter => some { s with writer := .idle }
  | .killReader => some { s with reader := .idle }

/-- A fresh buffer, nobody inside a call. -/
def State.start (zero : T) : State T := { buf := init zero, writer := .idle, reader := .idle }

/-- The slot the writer owns: `write_`, or the index its exchange got back. -/
def writerSlot (b : TripleBuffer T) : PubPc → UInt64
  | .update old => (old &&& kIndexMask).toUInt64
  | _ => b.write

/-- The slot the reader owns: `read_`, or the index its exchange got back. -/
def readerSlot (b : TripleBuffer T) : ConsumePc → UInt64
  | .update old => (old &&& kIndexMask).toUInt64
  | _ => b.read

/-- No process dies. -/
def noKill : Act T → Bool
  | .killWriter => false
  | .killReader => false
  | _ => true

/-- A process dies only outside the span from its exchange to its index store. -/
def cleanKill (s : State T) : Act T → Bool
  | .killWriter => match s.writer with
    | .update _ => false
    | _ => true
  | .killReader => match s.reader with
    | .update _ => false
    | _ => true
  | _ => true

end TripleBuffer

end RateHub
