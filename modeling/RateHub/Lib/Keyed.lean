import Mathlib.Data.List.Basic
import Mathlib.Logic.Function.Basic

/-!
# Independent rows

A table with one row per key, and a stream of items each of which moves the row of its
key and no other. A row may refuse an item; a refused item leaves no trace.

The two facts that make such a table easy to reason about: a row sees only the items of
its own key, and only those it accepts. So the table does not change when items of
different keys change places, or when the refused ones are left out.
-/

namespace Keyed

variable {κ α ρ : Type*} [DecidableEq κ]

/-! ## One row -/

section Row

variable (step : ρ → α → Option ρ)

/-- Offer an item to a row. -/
def offer (r : ρ) (a : α) : ρ := (step r a).getD r

/-- The items the row accepts, in order. -/
def accepted : ρ → List α → List α
  | _, [] => []
  | r, a :: as => if (step r a).isSome then a :: accepted (offer step r a) as
      else accepted (offer step r a) as

variable {step}

theorem offer_of_none {r : ρ} {a : α} (h : step r a = none) : offer step r a = r := by
  simp [offer, h]

theorem offer_of_some {r r' : ρ} {a : α} (h : step r a = some r') : offer step r a = r' := by
  simp [offer, h]

theorem accepted_cons_of_none {r : ρ} {a : α} (as : List α) (h : step r a = none) :
    accepted step r (a :: as) = accepted step r as := by
  simp [accepted, h, offer_of_none h]

theorem accepted_cons_of_some {r r' : ρ} {a : α} (as : List α) (h : step r a = some r') :
    accepted step r (a :: as) = a :: accepted step r' as := by
  simp [accepted, h, offer_of_some h]

/-- Leaving the refused items out changes nothing. -/
theorem foldl_accepted (as : List α) (r : ρ) :
    (accepted step r as).foldl (offer step) r = as.foldl (offer step) r := by
  induction as generalizing r with
  | nil => rfl
  | cons a as ih =>
      cases h : step r a with
      | none => rw [accepted_cons_of_none as h, List.foldl_cons, offer_of_none h, ih]
      | some r' =>
          rw [accepted_cons_of_some as h, List.foldl_cons, List.foldl_cons, offer_of_some h, ih]

/--
**Induction over what a row accepts.** What holds of the first row with nothing accepted,
and is kept by each accepted item, holds at the end.
-/
theorem accepted_induction {P : ρ → List α → Prop} {r : ρ} (h0 : P r [])
    (hstep : ∀ r' r'' a before, P r' before → step r' a = some r'' → P r'' (before ++ [a]))
    (as : List α) : P (as.foldl (offer step) r) (accepted step r as) := by
  suffices h : ∀ (as : List α) (r : ρ) (before : List α), P r before →
      P (as.foldl (offer step) r) (before ++ accepted step r as) by
    simpa using h as r [] h0
  intro as
  induction as with
  | nil =>
      intro r before h
      simpa [accepted] using h
  | cons a as ih =>
      intro r before h
      cases hs : step r a with
      | none =>
          rw [List.foldl_cons, accepted_cons_of_none as hs, offer_of_none hs]
          exact ih r before h
      | some r' =>
          have h' := ih r' (before ++ [a]) (hstep r r' a before h hs)
          rw [List.foldl_cons, accepted_cons_of_some as hs, offer_of_some hs]
          rwa [List.append_assoc, List.singleton_append] at h'

end Row

/-! ## The table -/

section Table

variable (key : α → κ) (step : ρ → α → Option ρ)

/-- An item moves the row of its key. -/
def move (rows : κ → ρ) (a : α) : κ → ρ :=
  Function.update rows (key a) (offer step (rows (key a)) a)

/-- The items the table accepts, in order. -/
def tableAccepted : (κ → ρ) → List α → List α
  | _, [] => []
  | rows, a :: as =>
      if (step (rows (key a)) a).isSome then a :: tableAccepted (move key step rows a) as
      else tableAccepted (move key step rows a) as

variable {key step}

theorem move_of_ne {rows : κ → ρ} {a : α} {k : κ} (h : key a ≠ k) :
    move key step rows a k = rows k := by
  rw [move, Function.update_of_ne (Ne.symm h)]

theorem move_self {rows : κ → ρ} {a : α} :
    move key step rows a (key a) = offer step (rows (key a)) a := by
  rw [move, Function.update_self]

/-- **A row sees only the items of its own key.** -/
theorem foldl_move (as : List α) (rows : κ → ρ) (k : κ) :
    as.foldl (move key step) rows k
      = (as.filter fun a => decide (key a = k)).foldl (offer step) (rows k) := by
  induction as generalizing rows with
  | nil => rfl
  | cons a as ih =>
      rw [List.foldl_cons, ih]
      by_cases h : key a = k
      · subst h
        rw [List.filter_cons_of_pos (by simp), List.foldl_cons, move_self]
      · rw [List.filter_cons_of_neg (by simpa using h), move_of_ne h]

/-- What the table accepts of one key is what the row accepts of its own items. -/
theorem filter_tableAccepted (as : List α) (rows : κ → ρ) (k : κ) :
    (tableAccepted key step rows as).filter (fun a => decide (key a = k))
      = accepted step (rows k) (as.filter fun a => decide (key a = k)) := by
  induction as generalizing rows with
  | nil => rfl
  | cons a as ih =>
      by_cases h : key a = k
      · subst h
        have ih' := ih (move key step rows a)
        rw [move_self] at ih'
        rw [tableAccepted, List.filter_cons_of_pos (by simp), accepted, ← ih']
        split
        · rw [List.filter_cons_of_pos (by simp)]
        · rfl
      · have ih' := ih (move key step rows a)
        rw [move_of_ne h] at ih'
        rw [tableAccepted, List.filter_cons_of_neg (by simpa using h), ← ih']
        split
        · rw [List.filter_cons_of_neg (by simpa using h)]
        · rfl

/-- **Only each key's own order matters.** -/
theorem foldl_move_congr {as bs : List α} (rows : κ → ρ)
    (h : ∀ k, (as.filter fun a => decide (key a = k)) = bs.filter fun a => decide (key a = k)) :
    as.foldl (move key step) rows = bs.foldl (move key step) rows := by
  funext k
  rw [foldl_move, foldl_move, h k]

/-- **Refused items leave no trace.** -/
theorem foldl_move_tableAccepted (as : List α) (rows : κ → ρ) :
    (tableAccepted key step rows as).foldl (move key step) rows = as.foldl (move key step) rows := by
  funext k
  rw [foldl_move, foldl_move, filter_tableAccepted, foldl_accepted]

end Table

end Keyed
