import Mathlib.Logic.Relation
import Mathlib.Logic.Function.Basic

/-!
# Labelled transition systems given by a step function

A system is a partial step function `σ → α → Option σ`: the label says who moves
and carries the nondeterministic inputs of the move, and `none` means the mover
is blocked or has nothing left to do.

Three notions, and the rules that go with them:

* `Reachable step ok init`: the states of the runs all of whose steps meet `ok`.
  A condition on runs is a predicate on the state *before* a step and the label,
  so "every run in which no step does such and such" is one choice of `ok`.
* `CanReach step may s Q`: some continuation from `s`, using only the labels
  `may` allows, ends in a `Q`-state. This is the possibility that "nothing is
  stuck for good" asks for.
* `exec`: the run along a given list of labels, for concrete traces.
-/

namespace Transition

variable {σ α : Type*} {step : σ → α → Option σ} {ok : σ → α → Prop} {init : σ → Prop}

/-- The run along a list of labels; `none` when some step is not enabled. -/
def exec (step : σ → α → Option σ) : σ → List α → Option σ
  | s, [] => some s
  | s, a :: as => (step s a).bind fun s' => exec step s' as

/-- The states of the runs from `init` all of whose steps meet `ok`. -/
inductive Reachable (step : σ → α → Option σ) (ok : σ → α → Prop) (init : σ → Prop) : σ → Prop
  | init {s : σ} : init s → Reachable step ok init s
  | tail {s t : σ} {a : α} :
      Reachable step ok init s → ok s a → step s a = some t → Reachable step ok init t

/-- **The invariant rule.** -/
theorem Reachable.invariant {I : σ → Prop} (hinit : ∀ s, init s → I s)
    (hstep : ∀ s a s', I s → ok s a → step s a = some s' → I s') {s : σ}
    (h : Reachable step ok init s) : I s := by
  induction h with
  | init h => exact hinit _ h
  | tail _ hok hs ih => exact hstep _ _ _ ih hok hs

/-- A stricter condition on the steps leaves fewer reachable states. -/
theorem Reachable.mono {ok' : σ → α → Prop} (hok : ∀ s a, ok s a → ok' s a) {s : σ}
    (h : Reachable step ok init s) : Reachable step ok' init s := by
  induction h with
  | init h => exact .init h
  | tail _ h hs ih => exact .tail ih (hok _ _ h) hs

/-- Running along a list of labels stays reachable when every step may be taken. -/
theorem Reachable.exec (hok : ∀ s a, ok s a) : ∀ (as : List α) {s s' : σ},
    Reachable step ok init s → exec step s as = some s' → Reachable step ok init s'
  | [], s, s', h, he => by
      simp only [Transition.exec, Option.some.injEq] at he
      subst he; exact h
  | a :: as, s, s', h, he => by
      simp only [Transition.exec, Option.bind_eq_some_iff] at he
      obtain ⟨s₁, h₁, h₂⟩ := he
      exact Reachable.exec hok as (h.tail (hok s a) h₁) h₂

/-- A run of a guarded list of labels: each step is checked against `ok` first. -/
def execWhen (step : σ → α → Option σ) (ok : σ → α → Bool) : σ → List α → Option σ
  | s, [] => some s
  | s, a :: as => if ok s a then (step s a).bind fun s' => execWhen step ok s' as else none

theorem Reachable.execWhen {g : σ → α → Bool} (hok : ∀ s a, g s a = true → ok s a) :
    ∀ (as : List α) {s s' : σ}, Reachable step ok init s →
      execWhen step g s as = some s' → Reachable step ok init s'
  | [], s, s', h, he => by
      simp only [Transition.execWhen, Option.some.injEq] at he
      subst he; exact h
  | a :: as, s, s', h, he => by
      simp only [Transition.execWhen] at he
      split at he
      · rename_i hb
        simp only [Option.bind_eq_some_iff] at he
        obtain ⟨s₁, h₁, h₂⟩ := he
        exact Reachable.execWhen hok as (h.tail (hok s a hb) h₁) h₂
      · exact absurd he (by simp)

/-! ## Possible continuations -/

/-- Some continuation from `s` along labels that `may` allows ends in a `Q`-state. -/
inductive CanReach (step : σ → α → Option σ) (may : α → Prop) (Q : σ → Prop) : σ → Prop
  | here {s : σ} : Q s → CanReach step may Q s
  | step {s s' : σ} {a : α} :
      may a → step s a = some s' → CanReach step may Q s' → CanReach step may Q s

variable {may : α → Prop} {P Q : σ → Prop}

/-- Continuations compose. -/
theorem CanReach.trans {s : σ} (h : CanReach step may P s)
    (hPQ : ∀ s', P s' → CanReach step may Q s') : CanReach step may Q s := by
  induction h with
  | here h => exact hPQ _ h
  | step hm hs _ ih => exact .step hm hs ih

theorem CanReach.imp {s : σ} (h : CanReach step may P s) (hPQ : ∀ s', P s' → Q s') :
    CanReach step may Q s :=
  h.trans fun s' hs' => .here (hPQ s' hs')

theorem CanReach.mono {may' : α → Prop} {s : σ} (h : CanReach step may Q s)
    (hm : ∀ a, may a → may' a) : CanReach step may' Q s := by
  induction h with
  | here h => exact .here h
  | step ha hs _ ih => exact .step (hm _ ha) hs ih

/--
**The ranking rule.** If every `P`-state is a `Q`-state or can reach a `P`-state of
smaller rank, then every `P`-state can reach a `Q`-state.
-/
theorem CanReach.of_rank (rank : σ → Nat)
    (hreach : ∀ s, P s → Q s ∨ CanReach step may (fun s' => P s' ∧ rank s' < rank s) s)
    {s : σ} (h : P s) : CanReach step may Q s := by
  generalize hn : rank s = n
  induction n using Nat.strongRecOn generalizing s with
  | ind n ih =>
    rcases hreach s h with hq | hc
    · exact .here hq
    · refine hc.trans ?_
      rintro s' ⟨hP, hlt⟩
      exact ih (rank s') (by omega) hP rfl

/-- The rule for ranks that single steps lower. -/
theorem CanReach.of_rank_step (rank : σ → Nat)
    (hstep : ∀ s, P s → Q s ∨ ∃ a s', may a ∧ step s a = some s' ∧ P s' ∧ rank s' < rank s)
    {s : σ} (h : P s) : CanReach step may Q s := by
  refine CanReach.of_rank rank ?_ h
  intro s hs
  refine (hstep s hs).imp_right ?_
  rintro ⟨a, s', hm, hst, hP, hlt⟩
  exact .step hm hst (.here ⟨hP, hlt⟩)

/--
**The trap rule.** A set of states that the allowed labels cannot leave, and that
holds no `Q`-state, has no continuation to `Q`.
-/
theorem CanReach.not_of_trap (hstep : ∀ s a s', P s → may a → step s a = some s' → P s')
    (hQ : ∀ s, P s → ¬ Q s) {s : σ} (h : P s) : ¬ CanReach step may Q s := by
  intro hc
  induction hc with
  | here hq => exact hQ _ h hq
  | step hm hs _ ih => exact ih (hstep _ _ _ h hm hs)

/-- What the allowed labels preserve still holds at the end of a continuation. -/
theorem CanReach.preserve (hstep : ∀ s a s', P s → may a → step s a = some s' → P s')
    {s : σ} (h : P s) (hc : CanReach step may Q s) :
    CanReach step may (fun s' => P s' ∧ Q s') s := by
  induction hc with
  | here hq => exact .here ⟨h, hq⟩
  | step hm hs _ ih => exact .step hm hs (ih (hstep _ _ _ h hm hs))

end Transition
