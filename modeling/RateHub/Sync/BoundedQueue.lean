import Mathlib.Logic.Function.Basic

/-!
# The ingest queue

`include/ratehub/bounded_queue.hpp`. Each operation is its critical section: `none`
means the wait predicate is false and the caller stays blocked in `wait`.
-/

namespace RateHub

/-- `BoundedQueue<T, Capacity>`, without its mutex and condition variable. -/
structure BoundedQueue (α : Type) where
  slots : Nat → α
  head : Nat
  size : Nat
  closed : Bool
  /-- History: the values whose push returned true, oldest first. -/
  accepted : List α
  /-- History: the values pop returned, oldest first. -/
  taken : List α

namespace BoundedQueue

variable {α : Type}

/-- A freshly constructed queue. -/
def init (zero : α) : BoundedQueue α :=
  { slots := fun _ => zero, head := 0, size := 0, closed := false, accepted := [], taken := [] }

/-- `push(value)`: the result and the queue after it, or `none` while it waits. -/
def push (capacity : Nat) (q : BoundedQueue α) (value : α) : Option (Bool × BoundedQueue α) :=
  if q.closed then some (false, q)
  else if q.size < capacity then
    some (true,
      { q with
        slots := Function.update q.slots ((q.head + q.size) % capacity) value
        size := q.size + 1
        accepted := q.accepted ++ [value] })
  else none

/-- `pop()`: the result and the queue after it, or `none` while it waits. -/
def pop (capacity : Nat) (q : BoundedQueue α) : Option (Option α × BoundedQueue α) :=
  if q.size = 0 then
    if q.closed then some (none, q) else none
  else
    some (some (q.slots q.head),
      { q with
        head := (q.head + 1) % capacity
        size := q.size - 1
        taken := q.taken ++ [q.slots q.head] })

/-- `close()`. -/
def close (q : BoundedQueue α) : BoundedQueue α := { q with closed := true }

end BoundedQueue

end RateHub
