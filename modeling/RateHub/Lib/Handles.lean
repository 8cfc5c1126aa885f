import Mathlib.Data.List.Nodup
import Mathlib.Data.Set.Insert

/-!
# Handles over a trace

Events obtain, use and release handles. `Clean base t` says that the trace `t` treats them
properly, step by step: a handle that an event uses or releases is one of those held from
the start (`base`) or obtained before, and not released yet; a handle obtained is new.

What follows for whole traces: no event mentions a handle after its release
(`Clean.after_release`), and a trace that ends with nothing live has released every handle
exactly once (`Clean.release_once`).
-/

namespace Handles

variable {E H : Type}

/-- What an event does with handles. -/
structure Treatment (E H : Type) where
  gets : E → Option H
  uses : E → List H
  frees : E → Option H

namespace Treatment

variable (T : Treatment E H)

/-- The handles obtained along a trace. -/
def obtained (t : List E) : List H := t.filterMap T.gets

/-- The handles released along a trace. -/
def released (t : List E) : List H := t.filterMap T.frees

/-- The handle is held and not released yet. -/
def Live (base : Set H) (t : List E) (x : H) : Prop :=
  (x ∈ base ∨ x ∈ T.obtained t) ∧ x ∉ T.released t

/-- The next event treats its handles properly. -/
structure Fits (base : Set H) (t : List E) (e : E) : Prop where
  uses : ∀ x ∈ T.uses e, T.Live base t x
  frees : ∀ x, T.frees e = some x → T.Live base t x
  gets : ∀ x, T.gets e = some x → x ∉ base ∧ x ∉ T.obtained t

/-- Every event of the trace treats its handles properly. -/
inductive Clean (base : Set H) : List E → Prop
  | nil : Clean base []
  | snoc {t : List E} {e : E} : Clean base t → T.Fits base t e → Clean base (t ++ [e])

end Treatment

variable {T : Treatment E H} {base : Set H} {t : List E} {e : E} {x : H}

open Treatment

@[simp] theorem obtained_append (t u : List E) :
    T.obtained (t ++ u) = T.obtained t ++ T.obtained u := List.filterMap_append

@[simp] theorem released_append (t u : List E) :
    T.released (t ++ u) = T.released t ++ T.released u := List.filterMap_append

theorem mem_obtained_singleton : x ∈ T.obtained [e] ↔ T.gets e = some x := by
  simp [obtained]

theorem mem_released_singleton : x ∈ T.released [e] ↔ T.frees e = some x := by
  simp [released]

/-- What is live after one more event. -/
theorem live_snoc :
    T.Live base (t ++ [e]) x ↔
      (x ∈ base ∨ x ∈ T.obtained t ∨ T.gets e = some x)
        ∧ x ∉ T.released t ∧ T.frees e ≠ some x := by
  rw [Live, obtained_append, released_append, List.mem_append, List.mem_append, not_or,
    mem_obtained_singleton, mem_released_singleton]

/-- Only what was held at some time is released. -/
theorem Clean.released_sub (h : T.Clean base t) :
    ∀ x ∈ T.released t, x ∈ base ∨ x ∈ T.obtained t := by
  induction h with
  | nil => simp [released]
  | @snoc t e _ hfits ih =>
      intro x hx
      rw [released_append, List.mem_append, mem_released_singleton] at hx
      rw [obtained_append, List.mem_append, ← or_assoc]
      rcases hx with hold | hnew
      · exact .inl (ih x hold)
      · exact .inl (hfits.frees x hnew).1

/-- A handle obtained was not held from the start. -/
theorem Clean.obtained_new (h : T.Clean base t) : ∀ x ∈ T.obtained t, x ∉ base := by
  induction h with
  | nil => simp [obtained]
  | @snoc t e _ hfits ih =>
      intro x hx
      rw [obtained_append, List.mem_append, mem_obtained_singleton] at hx
      rcases hx with hold | hnew
      · exact ih x hold
      · exact (hfits.gets x hnew).1

/-- A proper event does not mention a handle released before it. -/
theorem Fits.of_released (h : T.Clean base t) (hfits : T.Fits base t e)
    (hx : x ∈ T.released t) : x ∉ T.uses e ∧ T.frees e ≠ some x ∧ T.gets e ≠ some x := by
  refine ⟨fun hu => (hfits.uses x hu).2 hx, fun hf => (hfits.frees x hf).2 hx, fun hg => ?_⟩
  obtain ⟨hbase, hobtained⟩ := hfits.gets x hg
  rcases Clean.released_sub h x hx with hb | ho
  · exact hbase hb
  · exact hobtained ho

/-- Each event fits the trace before it. -/
theorem Clean.split (h : T.Clean base t) {before after : List E} (ht : t = before ++ e :: after) :
    T.Clean base before ∧ T.Fits base before e := by
  induction h generalizing after with
  | nil => simp at ht
  | @snoc t last hclean hfits ih =>
      rcases List.eq_nil_or_concat after with rfl | ⟨rest, last', rfl⟩
      · obtain ⟨rfl, hlast⟩ := List.append_inj' ht rfl
        obtain rfl := List.singleton_inj.mp hlast
        exact ⟨hclean, hfits⟩
      · rw [List.concat_eq_append, ← List.cons_append, ← List.append_assoc] at ht
        obtain ⟨hinit, -⟩ := List.append_inj' ht rfl
        exact ih hinit

/-- **After its release a handle is not mentioned again.** -/
theorem Clean.after_release (h : T.Clean base t) {before after : List E}
    (ht : t = before ++ e :: after) (hx : x ∈ T.released before) :
    x ∉ T.uses e ∧ T.frees e ≠ some x ∧ T.gets e ≠ some x := by
  obtain ⟨hclean, hfits⟩ := Clean.split h ht
  exact Fits.of_released hclean hfits hx

/-- What is used was held from the start or obtained. -/
theorem Clean.uses_sub (h : T.Clean base t) (he : e ∈ t) (hx : x ∈ T.uses e) :
    x ∈ base ∨ x ∈ T.obtained t := by
  obtain ⟨before, after, ht⟩ := List.append_of_mem he
  obtain ⟨-, hfits⟩ := Clean.split h ht
  rcases (hfits.uses x hx).1 with hb | ho
  · exact .inl hb
  · right
    rw [ht, obtained_append]
    exact List.mem_append_left _ ho

/-- No handle is released twice. -/
theorem Clean.released_nodup (h : T.Clean base t) : (T.released t).Nodup := by
  induction h with
  | nil => exact List.nodup_nil
  | @snoc t e hclean hfits ih =>
      rw [released_append, List.nodup_append]
      refine ⟨ih, ?_, ?_⟩
      · cases hf : T.frees e <;> simp [released, hf]
      · intro x hx y hy hxy
        rw [mem_released_singleton] at hy
        subst hxy
        exact (hfits.frees x hy).2 hx

/-- **A handle obtained and no longer live was released exactly once.** -/
theorem Clean.release_once [DecidableEq H] (h : T.Clean base t) (hx : x ∈ T.obtained t)
    (hlive : ¬ T.Live base t x) : (T.released t).count x = 1 := by
  have hin : x ∈ T.released t := by
    by_contra hout
    exact hlive ⟨.inr hx, hout⟩
  exact List.count_eq_one_of_mem (Clean.released_nodup h) hin

/-! ## Ownership, for reasoning forward -/

/-- The trace is clean and the live handles are those of `S`. -/
structure Owned (T : Treatment E H) (base S : Set H) (t : List E) : Prop where
  clean : T.Clean base t
  live : ∀ x, T.Live base t x ↔ x ∈ S

variable {S : Set H}

theorem Owned.start (T : Treatment E H) (base : Set H) : Owned T base base [] where
  clean := .nil
  live := by simp [Live, obtained, released]

/-- An event that only uses handles. -/
theorem Owned.use (h : Owned T base S t) (hgets : T.gets e = none) (hfrees : T.frees e = none)
    (huses : ∀ x ∈ T.uses e, x ∈ S) : Owned T base S (t ++ [e]) where
  clean :=
    h.clean.snoc
      { uses := fun x hx => (h.live x).mpr (huses x hx)
        frees := by simp [hfrees]
        gets := by simp [hgets] }
  live := by
    intro x
    rw [live_snoc, hgets, hfrees, ← h.live x, Live]
    simp

/-- An event that obtains a new handle. -/
theorem Owned.get (h : Owned T base S t) (hgets : T.gets e = some x) (hfrees : T.frees e = none)
    (huses : ∀ y ∈ T.uses e, y ∈ S) (hnew : x ∉ base ∧ x ∉ T.obtained t) :
    Owned T base (insert x S) (t ++ [e]) where
  clean :=
    h.clean.snoc
      { uses := fun y hy => (h.live y).mpr (huses y hy)
        frees := by simp [hfrees]
        gets := by
          intro y hy
          rw [hgets] at hy
          obtain rfl := Option.some.inj hy
          exact hnew }
  live := by
    intro y
    rw [live_snoc, hgets, hfrees, Set.mem_insert_iff, ← h.live y, Live, Option.some.injEq]
    by_cases hxy : x = y
    · subst hxy
      have hout : x ∉ T.released t := by
        intro hin
        rcases Clean.released_sub h.clean x hin with hb | ho
        · exact hnew.1 hb
        · exact hnew.2 ho
      simp [hout]
    · simp [hxy, Ne.symm hxy]

/-- An event that releases a handle. -/
theorem Owned.free (h : Owned T base (insert x S) t) (hgets : T.gets e = none)
    (hfrees : T.frees e = some x) (huses : ∀ y ∈ T.uses e, y ∈ insert x S) (hx : x ∉ S) :
    Owned T base S (t ++ [e]) where
  clean :=
    h.clean.snoc
      { uses := fun y hy => (h.live y).mpr (huses y hy)
        frees := by
          intro y hy
          rw [hfrees] at hy
          obtain rfl := Option.some.inj hy
          exact (h.live x).mpr (Set.mem_insert x S)
        gets := by simp [hgets] }
  live := by
    intro y
    have hlive := h.live y
    rw [Set.mem_insert_iff, Live] at hlive
    rw [live_snoc, hgets, hfrees]
    by_cases hxy : y = x
    · subst hxy
      simp [hx]
    · simpa [hxy, Ne.symm hxy] using hlive

end Handles
