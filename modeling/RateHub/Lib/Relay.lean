import Mathlib.Data.List.Basic
import Mathlib.Order.Monotone.Basic

/-!
# Samples of a growing list

A writer appends to a list and a reader takes what is at its end, from time to time: it
may take an entry twice and it may miss entries, but it never takes an older one after a
newer one. `Sampled f src seen` says that `seen` came about in this way, each entry
through `f`.

`Before l x y` is the order of a list as a relation on its entries. It is kept when the
list grows, and samples reflect it. So what is sampled from samples has the order of
the first list, however many readers stand in between.
-/

namespace Relay

variable {α β : Type}

/-! ## The order of a list -/

/-- `x` is in the list, and `y` is there at the same place or behind. -/
def Before (l : List α) (x y : α) : Prop :=
  ∃ i j : Nat, i ≤ j ∧ l[i]? = some x ∧ l[j]? = some y

theorem Before.append {l : List α} {x y : α} (h : Before l x y) (m : List α) :
    Before (l ++ m) x y := by
  obtain ⟨i, j, hij, hx, hy⟩ := h
  refine ⟨i, j, hij, ?_, ?_⟩
  · rw [List.getElem?_append_left (List.getElem?_eq_some_iff.mp hx).1, hx]
  · rw [List.getElem?_append_left (List.getElem?_eq_some_iff.mp hy).1, hy]

/-- Nothing is behind the last entry. -/
theorem before_getLast {l : List α} {x y : α} (hx : x ∈ l) (hy : l.getLast? = some y) :
    Before l x y := by
  obtain ⟨i, hi, hget⟩ := List.mem_iff_getElem.mp hx
  refine ⟨i, l.length - 1, by omega, ?_, ?_⟩
  · rw [List.getElem?_eq_getElem hi, hget]
  · rw [← List.getLast?_eq_getElem?, hy]

/-! ## Samples -/

/-- The entries of `seen` are entries of `src` through `f`, at places that never go back. -/
def Sampled (f : α → β) (src : List α) (seen : List β) : Prop :=
  ∃ place : Nat → Nat, Monotone place
    ∧ ∀ i v, seen[i]? = some v → ∃ x, src[place i]? = some x ∧ f x = v

namespace Sampled

variable {f : α → β} {src : List α} {seen : List β}

theorem nil (f : α → β) (src : List α) : Sampled f src [] :=
  ⟨id, monotone_id, fun i v hv => by cases hv⟩

/-- The writer appends. -/
theorem append (h : Sampled f src seen) (more : List α) : Sampled f (src ++ more) seen := by
  obtain ⟨place, hmono, hall⟩ := h
  refine ⟨place, hmono, ?_⟩
  intro i v hv
  obtain ⟨x, hx, rfl⟩ := hall i v hv
  refine ⟨x, ?_, rfl⟩
  rw [List.getElem?_append_left (List.getElem?_eq_some_iff.mp hx).1, hx]

/-- The reader takes what is at the end. -/
theorem take (h : Sampled f src seen) {x : α} (hx : src.getLast? = some x) :
    Sampled f src (seen ++ [f x]) := by
  obtain ⟨place, hmono, hall⟩ := h
  -- past what was taken before, the place is the last one
  have hlast : ∀ i < seen.length, place i ≤ src.length - 1 := by
    intro i hi
    obtain ⟨y, hy, -⟩ := hall i seen[i] (List.getElem?_eq_getElem hi)
    have hlt := (List.getElem?_eq_some_iff.mp hy).1
    omega
  refine ⟨fun i => if i < seen.length then place i else src.length - 1, ?_, ?_⟩
  · intro i j hij
    dsimp only
    by_cases hj : j < seen.length
    · rw [if_pos hj, if_pos (by omega)]
      exact hmono hij
    · rw [if_neg hj]
      by_cases hi : i < seen.length
      · rw [if_pos hi]
        exact hlast i hi
      · rw [if_neg hi]
  · intro i v hv
    dsimp only
    by_cases hi : i < seen.length
    · rw [List.getElem?_append_left hi] at hv
      rw [if_pos hi]
      exact hall i v hv
    · rw [List.getElem?_append_right (by omega), List.getElem?_singleton] at hv
      split at hv
      · obtain rfl := Option.some.inj hv
        refine ⟨x, ?_, rfl⟩
        rw [if_neg hi, ← List.getLast?_eq_getElem?, hx]
      · cases hv

/-- What is taken is there. -/
theorem mem (h : Sampled f src seen) {v : β} (hv : v ∈ seen) : ∃ x ∈ src, f x = v := by
  obtain ⟨place, -, hall⟩ := h
  obtain ⟨i, hi, rfl⟩ := List.mem_iff_getElem.mp hv
  obtain ⟨x, hx, heq⟩ := hall i _ (List.getElem?_eq_getElem hi)
  exact ⟨x, List.mem_of_getElem? hx, heq⟩

/-- **What is taken later was behind.** -/
theorem before (h : Sampled f src seen) {v v' : β} (hv : Before seen v v') :
    ∃ x x', Before src x x' ∧ f x = v ∧ f x' = v' := by
  obtain ⟨place, hmono, hall⟩ := h
  obtain ⟨i, j, hij, hi, hj⟩ := hv
  obtain ⟨x, hx, rfl⟩ := hall i v hi
  obtain ⟨x', hx', rfl⟩ := hall j v' hj
  exact ⟨x, x', ⟨place i, place j, hmono hij, hx, hx'⟩, rfl, rfl⟩

end Sampled

end Relay
