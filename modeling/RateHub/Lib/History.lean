import RateHub.Lib.Transition

/-!
# History variables

Some properties of a run are not properties of its last state: who stored a value, what
was the case when a loop began. A history variable keeps what is needed beside the
state. It is updated by a total function of the step and no step reads it, so it makes
no run impossible; `ReachableNoted.now` forgets it again.
-/

namespace Transition

variable {σ α γ : Type*}

/-- A state with what is remembered of the run that led to it. -/
structure Noted (σ γ : Type*) where
  now : σ
  past : γ

/-- The system with the variable: `note` sees the state before the step, the label and
the state after it. -/
def notedStep (step : σ → α → Option σ) (note : γ → σ → α → σ → γ) (x : Noted σ γ) (a : α) :
    Option (Noted σ γ) :=
  (step x.now a).map fun s' => ⟨s', note x.past x.now a s'⟩

variable {step : σ → α → Option σ} {note : γ → σ → α → σ → γ}

theorem notedStep_some {x x' : Noted σ γ} {a : α} (h : notedStep step note x a = some x') :
    step x.now a = some x'.now ∧ x'.past = note x.past x.now a x'.now := by
  simp only [notedStep, Option.map_eq_some_iff] at h
  obtain ⟨s', hs, rfl⟩ := h
  exact ⟨hs, rfl⟩

/-- The runs of the system with the variable, from `init` with an empty history. -/
def ReachableNoted (step : σ → α → Option σ) (note : γ → σ → α → σ → γ)
    (ok : Noted σ γ → α → Prop) (init : σ → Prop) (empty : γ) : Noted σ γ → Prop :=
  Reachable (notedStep step note) ok fun x => init x.now ∧ x.past = empty

variable {ok : Noted σ γ → α → Prop} {init : σ → Prop} {empty : γ}

/-- Forgetting the history leaves a run of the system. -/
theorem ReachableNoted.now {x : Noted σ γ} (h : ReachableNoted step note ok init empty x) :
    Reachable step (fun _ _ => True) init x.now := by
  induction h with
  | init h => exact .init h.1
  | tail _ _ hs ih => exact .tail ih trivial (notedStep_some hs).1

/-- The same for a condition on the steps that does not ask for the history. -/
theorem ReachableNoted.now_of {ok' : σ → α → Prop} (hok : ∀ x a, ok x a → ok' x.now a)
    {x : Noted σ γ} (h : ReachableNoted step note ok init empty x) :
    Reachable step ok' init x.now := by
  induction h with
  | init h => exact .init h.1
  | tail _ h hs ih => exact .tail ih (hok _ _ h) (notedStep_some hs).1

variable (note) in
/-- Every run has a history. -/
theorem ReachableNoted.of_reachable {ok' : σ → α → Prop} (empty : γ) {s : σ}
    (h : Reachable step ok' init s) :
    ∃ past, ReachableNoted step note (fun x a => ok' x.now a) init empty ⟨s, past⟩ := by
  induction h with
  | init h => exact ⟨empty, .init ⟨h, rfl⟩⟩
  | @tail s t a _ ha hs ih =>
      obtain ⟨past, hr⟩ := ih
      refine ⟨note past s a t, hr.tail (a := a) ha ?_⟩
      simp [notedStep, hs]

/-- **The invariant rule**, with the two components apart. -/
theorem ReachableNoted.invariant {I : σ → γ → Prop} (hinit : ∀ s, init s → I s empty)
    (hstep : ∀ x a s', Reachable step (fun _ _ => True) init x.now → I x.now x.past → ok x a →
      step x.now a = some s' → I s' (note x.past x.now a s')) {x : Noted σ γ}
    (h : ReachableNoted step note ok init empty x) : I x.now x.past := by
  induction h with
  | init h =>
      rw [h.2]
      exact hinit _ h.1
  | tail hr hok hs ih =>
      obtain ⟨hs', hpast⟩ := notedStep_some hs
      rw [hpast]
      exact hstep _ _ _ (ReachableNoted.now hr) ih hok hs'

/-- A run of guarded labels, from a start with the empty history. -/
theorem ReachableNoted.execWhen {g : Noted σ γ → α → Bool} (hok : ∀ x a, g x a = true → ok x a)
    {as : List α} {s : σ} (hs : init s) {x : Noted σ γ}
    (h : Transition.execWhen (notedStep step note) g ⟨s, empty⟩ as = some x) :
    ReachableNoted step note ok init empty x :=
  Reachable.execWhen (g := g) hok as (.init ⟨hs, rfl⟩) h

end Transition
