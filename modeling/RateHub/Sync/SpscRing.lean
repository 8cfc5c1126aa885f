import RateHub.Lib.Transition

/-!
# The record ring, one atomic step at a time

`include/ratehub/spsc_ring.hpp`. A call of `try_push` or `try_pop` is a small
program over the shared object; its program counter says which access comes
next and carries the locals read so far. `pushStep` and `popStep` run one access
each. Nothing else in this module touches a ring, so whoever embeds a call (the
frames thread of ingest, the fast thread of compute) steps the same code.

The two lists at the end of the object are history, not memory: `pushed` grows
with each `write_` store, `popped` with each `read_` store, and no step reads
either.
-/

namespace RateHub

/-- The template argument, with the `static_assert` that guards it. -/
structure Capacity where
  val : UInt32
  two_le : 2 ≤ val
  pow_two : val &&& (val - 1) = 0

/-- `kMask`. -/
def Capacity.mask (C : Capacity) : UInt32 := C.val - 1

/-- The capacity as a number of slots. -/
def Capacity.size (C : Capacity) : Nat := C.val.toNat

/-- `SpscRing<T, Capacity>`. Slots are addressed by the index the code uses. -/
structure SpscRing (α : Type) (C : Capacity) where
  slots : UInt32 → α
  write : UInt32
  read : UInt32
  /-- History: the values whose `write_` store happened, oldest first. -/
  pushed : List α
  /-- History: the values whose `read_` store happened, oldest first. -/
  popped : List α

namespace SpscRing

variable {α : Type} {C : Capacity}

/-- A freshly constructed ring; every slot holds `T{}`. -/
def init (zero : α) : SpscRing α C :=
  { slots := fun _ => zero, write := 0, read := 0, pushed := [], popped := [] }

/-- `slots_[index] = value`. -/
def setSlot (r : SpscRing α C) (index : UInt32) (value : α) : SpscRing α C :=
  { r with slots := Function.update r.slots index value }

/-- Where a `try_push(value)` call stands; each state names the access that comes next. -/
inductive PushPc (α : Type) where
  | idle
  | loadWrite (value : α)
  | loadRead (value : α) (write : UInt32)
  | copy (value : α) (write : UInt32)
  | storeWrite (value : α) (write : UInt32)
  deriving DecidableEq, Repr

/-- Where a `try_pop(out)` call stands. -/
inductive PopPc (α : Type) where
  | idle
  | loadRead
  | loadWrite (read : UInt32)
  | copy (read : UInt32)
  | storeRead (read : UInt32) (out : α)
  deriving DecidableEq, Repr

/-- `(index + 1) & kMask`. -/
def next (C : Capacity) (index : UInt32) : UInt32 := (index + 1) &&& C.mask

/-- One access of `try_push`. The last component is the result when the call returns. -/
def pushStep (r : SpscRing α C) : PushPc α → SpscRing α C × PushPc α × Option Bool
  | .idle => (r, .idle, none)
  | .loadWrite value => (r, .loadRead value r.write, none)
  | .loadRead value write =>
      if next C write = r.read then (r, .idle, some false) else (r, .copy value write, none)
  | .copy value write => (r.setSlot write value, .storeWrite value write, none)
  | .storeWrite value write =>
      ({ r with write := next C write, pushed := r.pushed ++ [value] }, .idle, some true)

/-- One access of `try_pop`. The result is `some (some out)` for true, `some none` for false. -/
def popStep (r : SpscRing α C) : PopPc α → SpscRing α C × PopPc α × Option (Option α)
  | .idle => (r, .idle, none)
  | .loadRead => (r, .loadWrite r.read, none)
  | .loadWrite read => if read = r.write then (r, .idle, some none) else (r, .copy read, none)
  | .copy read => (r, .storeRead read (r.slots read), none)
  | .storeRead read out =>
      ({ r with read := next C read, popped := r.popped ++ [out] }, .idle, some (some out))

/-- `occupied()` when nothing moves between its two loads. -/
def occupied (r : SpscRing α C) : UInt32 := (r.write - r.read) &&& C.mask

/-- The records waiting for the consumer, read off the slots and the two indexes. -/
def waiting (r : SpscRing α C) : List α :=
  (List.range r.occupied.toNat).map fun i => r.slots ((r.read + UInt32.ofNat i) &&& C.mask)

/-! ## One producer and one consumer, either of which may be killed and replaced -/

/-- The ring with the calls in progress on either side. -/
structure State (α : Type) (C : Capacity) where
  ring : SpscRing α C
  producer : PushPc α
  consumer : PopPc α

/-- Who moves. `tear` is a part of the slot copy: `T` is not atomic, so between
the first and the last byte the slot holds anything. -/
inductive Act (α : Type) where
  | callPush (value : α)
  | producer
  | tear (junk : α)
  | callPop
  | consumer
  | killProducer
  | killConsumer

/-- One step of the two sides. A killed process leaves the ring as it is, and
the process that replaces it starts outside any call. -/
def State.step (s : State α C) : Act α → Option (State α C)
  | .callPush value =>
      match s.producer with
      | .idle => some { s with producer := .loadWrite value }
      | _ => none
  | .producer =>
      match s.producer with
      | .idle => none
      | pc => some { s with ring := (pushStep s.ring pc).1, producer := (pushStep s.ring pc).2.1 }
  | .tear junk =>
      match s.producer with
      | .copy _ write => some { s with ring := s.ring.setSlot write junk }
      | _ => none
  | .callPop =>
      match s.consumer with
      | .idle => some { s with consumer := .loadRead }
      | _ => none
  | .consumer =>
      match s.consumer with
      | .idle => none
      | pc => some { s with ring := (popStep s.ring pc).1, consumer := (popStep s.ring pc).2.1 }
  | .killProducer => some { s with producer := .idle }
  | .killConsumer => some { s with consumer := .idle }

/-- A fresh ring, nobody inside a call. -/
def State.start (zero : α) : State α C := { ring := init zero, producer := .idle, consumer := .idle }

/-- Every interleaving, with any number of kills. -/
def Reachable (zero : α) : State α C → Prop :=
  Transition.Reachable State.step (fun _ _ => True) (· = State.start zero)

end SpscRing

end RateHub
