import Mathlib.Data.List.Basic
import RateHub.Lib.Cyclic
import RateHub.Sync.BoundedQueue

/-!
# The queue's contents

The waiting values lie in `size` slots from `head` on, around the end of the array. A
push writes the first slot past them and a pop takes the first of them, so what was
accepted is always what was taken followed by what waits. Each lemma here is about one
critical section.
-/

namespace RateHub

namespace BoundedQueue

variable {α : Type} {c : Nat} {q q' : BoundedQueue α}

/-- The values waiting in the queue, oldest first. -/
def contents (c : Nat) (q : BoundedQueue α) : List α :=
  (List.range q.size).map fun i => q.slots ((q.head + i) % c)

/-- The queue is a first-in first-out list of at most `c` values. -/
structure Fifo (c : Nat) (q : BoundedQueue α) : Prop where
  head_lt : q.head < c
  size_le : q.size ≤ c
  accepted : q.accepted = q.taken ++ q.contents c

theorem fifo_init (zero : α) (hc : 0 < c) : Fifo c (init zero) :=
  ⟨hc, Nat.zero_le c, rfl⟩

/-- Closing moves nothing. -/
theorem Fifo.close (h : Fifo c q) : Fifo c q.close :=
  ⟨h.head_lt, h.size_le, h.accepted⟩

/-- A push that is accepted puts its value behind the others. -/
theorem contents_push (hc : q.size < c) (value : α) (acc : List α) :
    contents c { q with slots := Function.update q.slots ((q.head + q.size) % c) value
                        size := q.size + 1, accepted := acc }
      = q.contents c ++ [value] := by
  simp only [contents, List.range_succ, List.map_append, List.map_singleton,
    Function.update_self]
  congr 1
  refine List.map_congr_left ?_
  intro i hi
  have hi : i < q.size := List.mem_range.mp hi
  refine Function.update_of_ne ?_ _ _
  -- less than a lap apart
  intro heq
  have := Cyclic.eq_of_mod_eq (n := c) (by omega) (by omega) heq
  omega

theorem Fifo.push (h : Fifo c q) {value : α} {ok : Bool} (hp : q.push c value = some (ok, q')) :
    Fifo c q' ∧ q'.taken = q.taken
      ∧ q'.accepted = q.accepted ++ (if ok then [value] else []) := by
  unfold BoundedQueue.push at hp
  split at hp
  · simp only [Option.some.injEq, Prod.mk.injEq] at hp
    obtain ⟨rfl, rfl⟩ := hp
    exact ⟨h, rfl, by simp⟩
  · split at hp
    · rename_i hroom
      simp only [Option.some.injEq, Prod.mk.injEq] at hp
      obtain ⟨rfl, rfl⟩ := hp
      refine ⟨⟨h.head_lt, hroom, ?_⟩, rfl, by simp⟩
      rw [contents_push hroom, ← List.append_assoc, ← h.accepted]
    · exact absurd hp (by simp)

/-- A pop takes the first of the waiting values. -/
theorem contents_pop (h : Fifo c q) (hsize : q.size ≠ 0) :
    q.contents c = q.slots q.head
      :: contents c { q with head := (q.head + 1) % c, size := q.size - 1
                             taken := q.taken ++ [q.slots q.head] } := by
  obtain ⟨n, hn⟩ := Nat.exists_eq_succ_of_ne_zero hsize
  simp only [contents, hn, List.range_succ_eq_map, List.map_cons, List.map_map, Nat.add_zero,
    Nat.mod_eq_of_lt h.head_lt, Nat.succ_sub_one]
  congr 1
  refine List.map_congr_left ?_
  intro i _
  simp only [Function.comp_apply]
  rw [Nat.mod_add_mod, Nat.succ_eq_add_one, Nat.add_right_comm, Nat.add_assoc]

theorem Fifo.pop (h : Fifo c q) {v : Option α} (hp : q.pop c = some (v, q')) :
    Fifo c q' ∧ q'.accepted = q.accepted ∧ q'.taken = q.taken ++ v.toList := by
  unfold BoundedQueue.pop at hp
  split at hp
  · split at hp
    · simp only [Option.some.injEq, Prod.mk.injEq] at hp
      obtain ⟨rfl, rfl⟩ := hp
      exact ⟨h, rfl, by simp⟩
    · exact absurd hp (by simp)
  · rename_i hsize
    simp only [Option.some.injEq, Prod.mk.injEq] at hp
    obtain ⟨rfl, rfl⟩ := hp
    have hlt := h.head_lt
    have hle := h.size_le
    refine ⟨⟨Nat.mod_lt _ (by omega), by simp only; omega, ?_⟩, rfl, by simp⟩
    rw [h.accepted, contents_pop h hsize, List.append_assoc]
    rfl

/-- An empty queue has handed everything over. -/
theorem Fifo.taken_of_empty (h : Fifo c q) (hsize : q.size = 0) : q.taken = q.accepted := by
  rw [h.accepted, contents, hsize]
  simp

end BoundedQueue

end RateHub
