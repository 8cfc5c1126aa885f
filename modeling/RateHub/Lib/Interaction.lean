import Mathlib.Data.List.Basic

/-!
# Programs that wait for answers

A sequential program that talks to an environment it does not control: it notes events
of type `E` as it goes, keeps a state `σ`, and every choice that is not its own is the
next answer of type `R`. A run is given by the answers in the order they are asked for.
When they run out the program is left waiting, so the runs on all lists of answers are
the finite prefixes of all executions, those that never end included.

`loop` repeats a body until it says stop. The rounds are counted down from the number of
answers left, which is no restriction for a body that asks before it goes round again
(`loop_eq`).

`Triple P p Q B` is the Hoare triple over the events so far and the state: from `P`, the
program `p` either ends in `Q` of its result or waits in `B`. Every prefix of an execution
is such a waiting point, so a `B` that says enough is an invariant of the whole run.

`Does D p` is the frame that goes with it: a relation `D` between what was before and what is
after, for every run of `p` that ends, whatever it started from.
-/

namespace Interaction

variable {E R σ α β γ : Type}

/-- What a run leaves: the events, and the result with the state and the answers not used.
No result means that the program waits. -/
structure Outcome (E R σ α : Type) where
  trace : List E
  result : Option (α × σ × List R)

/-- A program, run from a state on a list of answers. -/
def Proc (E R σ α : Type) : Type := σ → List R → Outcome E R σ α

namespace Proc

/-- The next part of a run, from where the first one ended. -/
def andThen (o : Outcome E R σ α) (f : α → Proc E R σ β) : Outcome E R σ β :=
  match o.result with
  | none => ⟨o.trace, none⟩
  | some (a, w, rs) => ⟨o.trace ++ (f a w rs).trace, (f a w rs).result⟩

instance : Monad (Proc E R σ) where
  pure a := fun w rs => ⟨[], some (a, w, rs)⟩
  bind p f := fun w rs => andThen (p w rs) f

/-- Take the next answer. -/
def ask : Proc E R σ R := fun w rs =>
  match rs with
  | [] => ⟨[], none⟩
  | r :: rest => ⟨[], some (r, w, rest)⟩

/-- Note an event. -/
def emit (e : E) : Proc E R σ Unit := fun w rs => ⟨[e], some ((), w, rs)⟩

/-- The state. -/
def get : Proc E R σ σ := fun w rs => ⟨[], some (w, w, rs)⟩

/-- Replace the state. -/
def set (w : σ) : Proc E R σ Unit := fun _ rs => ⟨[], some ((), w, rs)⟩

/-- At most `n` rounds of `body`; `inl` goes round again. -/
def rounds (body : β → Proc E R σ (β ⊕ α)) : Nat → β → Proc E R σ α
  | 0, _ => fun _ _ => ⟨[], none⟩
  | n + 1, b => body b >>= Sum.elim (rounds body n) pure

/-- Rounds of `body` for as long as there are answers. -/
def loop (body : β → Proc E R σ (β ⊕ α)) (b : β) : Proc E R σ α :=
  fun w rs => rounds body (rs.length + 1) b w rs

/-! ## Running -/

@[simp] theorem run_pure (a : α) (w : σ) (rs : List R) :
    (pure a : Proc E R σ α) w rs = ⟨[], some (a, w, rs)⟩ := rfl

theorem run_ask (r : R) (w : σ) (rs : List R) :
    (ask : Proc E R σ R) w (r :: rs) = ⟨[], some (r, w, rs)⟩ := rfl

theorem run_emit (e : E) (w : σ) (rs : List R) :
    (emit e : Proc E R σ Unit) w rs = ⟨[e], some ((), w, rs)⟩ := rfl

theorem run_bind (p : Proc E R σ α) (f : α → Proc E R σ β) (w : σ) (rs : List R) :
    (p >>= f) w rs = andThen (p w rs) f := rfl

theorem pure_bind (a : α) (f : α → Proc E R σ β) : pure a >>= f = f a := rfl

theorem bind_assoc (p : Proc E R σ α) (f : α → Proc E R σ β) (g : β → Proc E R σ γ) :
    p >>= f >>= g = p >>= fun a => f a >>= g := by
  funext w rs
  show andThen (andThen (p w rs) f) g = andThen (p w rs) fun a => f a >>= g
  simp only [andThen]
  cases hres : (p w rs).result with
  | none => rfl
  | some x =>
      obtain ⟨a, w', rs'⟩ := x
      simp only [run_bind, andThen]
      cases hsecond : (f a w' rs').result with
      | none => rfl
      | some y => simp only [List.append_assoc]

/-- A body that takes an answer in every round that is not the last. -/
def Asks (body : β → Proc E R σ (β ⊕ α)) : Prop :=
  ∀ b w rs b' w' rs', (body b w rs).result = some (.inl b', w', rs') → rs'.length < rs.length

/-- More rounds than answers are enough. -/
theorem rounds_eq {body : β → Proc E R σ (β ⊕ α)} (hasks : Asks body) :
    ∀ (n m : Nat) (b : β) (w : σ) (rs : List R), rs.length < n → rs.length < m →
      rounds body n b w rs = rounds body m b w rs := by
  intro n
  induction n with
  | zero =>
      intro m b w rs hn
      exact absurd hn (Nat.not_lt_zero _)
  | succ n ih =>
      intro m b w rs hn hm
      obtain ⟨m, rfl⟩ : ∃ k, m = k + 1 := ⟨m - 1, by omega⟩
      simp only [rounds, run_bind, andThen]
      cases hres : (body b w rs).result with
      | none => rfl
      | some x =>
          obtain ⟨x, w', rs'⟩ := x
          cases x with
          | inr a => rfl
          | inl b' =>
              have hlt := hasks b w rs b' w' rs' hres
              have heq := ih m b' w' rs' (by omega) (by omega)
              simp only [Sum.elim_inl, heq]

/-- **A loop is its body, followed by the loop unless the body says stop.** -/
theorem loop_eq {body : β → Proc E R σ (β ⊕ α)} (hasks : Asks body) (b : β) :
    loop body b = body b >>= Sum.elim (loop body) pure := by
  funext w rs
  show rounds body (rs.length + 1) b w rs = _
  simp only [rounds, run_bind, andThen]
  cases hres : (body b w rs).result with
  | none => rfl
  | some x =>
      obtain ⟨x, w', rs'⟩ := x
      cases x with
      | inr a => rfl
      | inl b' =>
          have hlt := hasks b w rs b' w' rs' hres
          have heq := rounds_eq hasks rs.length (rs'.length + 1) b' w' rs' hlt (by omega)
          simp only [Sum.elim_inl, loop, heq]

end Proc

/-! ## Triples -/

/-- The outcome of a run with the events `h` behind it. -/
structure Outcome.Meets (o : Outcome E R σ α) (h : List E) (Q : α → List E → σ → Prop)
    (B : List E → Prop) : Prop where
  ends : ∀ a w rs, o.result = some (a, w, rs) → Q a (h ++ o.trace) w
  waits : o.result = none → B (h ++ o.trace)

/-- From `P`, the program ends in `Q` of its result or waits in `B`. -/
def Triple (P : List E → σ → Prop) (p : Proc E R σ α) (Q : α → List E → σ → Prop)
    (B : List E → Prop) : Prop :=
  ∀ h w rs, P h w → (p w rs).Meets h Q B

/-- A run that has ended. -/
theorem Outcome.meets_some {h t : List E} {a : α} {w : σ} {rs : List R}
    {Q : α → List E → σ → Prop} {B : List E → Prop} (hQ : Q a (h ++ t) w) :
    (⟨t, some (a, w, rs)⟩ : Outcome E R σ α).Meets h Q B := by
  refine ⟨?_, by simp⟩
  intro a' w' rs' heq
  simp only [Option.some.injEq, Prod.mk.injEq] at heq
  obtain ⟨rfl, rfl, -⟩ := heq
  exact hQ

/-- A run that waits. -/
theorem Outcome.meets_none {h t : List E} {Q : α → List E → σ → Prop} {B : List E → Prop}
    (hB : B (h ++ t)) : (⟨t, none⟩ : Outcome E R σ α).Meets h Q B :=
  ⟨by simp, fun _ => hB⟩

namespace Triple

open Proc

variable {P P' : List E → σ → Prop} {p : Proc E R σ α} {f : α → Proc E R σ β}
  {Q Q' : α → List E → σ → Prop} {S : β → List E → σ → Prop} {B B' : List E → Prop}

theorem pure {a : α} (h : ∀ h w, P h w → Q a h w) :
    Triple P (Pure.pure a : Proc E R σ α) Q B := by
  intro t w rs hP
  rw [run_pure]
  exact Outcome.meets_some (by simpa using h t w hP)

theorem bind (hp : Triple P p Q B) (hf : ∀ a, Triple (Q a) (f a) S B) :
    Triple P (p >>= f) S B := by
  intro h w rs hP
  have hfirst := hp h w rs hP
  rw [run_bind, andThen]
  cases hres : (p w rs).result with
  | none => exact Outcome.meets_none (hfirst.waits hres)
  | some x =>
      obtain ⟨a, w', rs'⟩ := x
      have hsecond := hf a _ w' rs' (hfirst.ends a w' rs' hres)
      refine ⟨?_, ?_⟩
      · intro b v qs hb
        simpa only [List.append_assoc] using hsecond.ends b v qs hb
      · intro hnone
        simpa only [List.append_assoc] using hsecond.waits hnone

theorem ask (hB : ∀ h w, P h w → B h) :
    Triple P (Proc.ask : Proc E R σ R) (fun _ => P) B := by
  intro h w rs hP
  cases rs with
  | nil => exact Outcome.meets_none (by simpa using hB h w hP)
  | cons r rest => exact Outcome.meets_some (by simpa using hP)

theorem emit {e : E} {Q : Unit → List E → σ → Prop} (h : ∀ h w, P h w → Q () (h ++ [e]) w) :
    Triple P (Proc.emit e : Proc E R σ Unit) Q B := by
  intro t w rs hP
  exact Outcome.meets_some (h t w hP)

theorem get : Triple P (Proc.get : Proc E R σ σ) (fun a h w => a = w ∧ P h w) B := by
  intro t w rs hP
  exact Outcome.meets_some (by simpa using hP)

theorem set {v : σ} {Q : Unit → List E → σ → Prop} (h : ∀ h w, P h w → Q () h v) :
    Triple P (Proc.set v : Proc E R σ Unit) Q B := by
  intro t w rs hP
  exact Outcome.meets_some (by simpa using h t w hP)

/-- The rule of consequence. -/
theorem mono (hp : Triple P p Q B) (hP : ∀ h w, P' h w → P h w)
    (hQ : ∀ a h w, Q a h w → Q' a h w) (hB : ∀ h, B h → B' h) : Triple P' p Q' B' := by
  intro h w rs hP'
  have hmeets := hp h w rs (hP h w hP')
  refine ⟨?_, ?_⟩
  · intro a v qs hres
    exact hQ _ _ _ (hmeets.ends a v qs hres)
  · intro hnone
    exact hB _ (hmeets.waits hnone)

/-- A triple may be shown for each start on its own. -/
theorem exact (hp : ∀ h w, P h w → Triple (fun t v => t = h ∧ v = w) p Q B) :
    Triple P p Q B := by
  intro h w rs hP
  exact hp h w hP h w rs ⟨rfl, rfl⟩

/-- Two triples of one program. -/
theorem and (h₁ : Triple P p Q B) (h₂ : Triple P' p Q' B') :
    Triple (fun h w => P h w ∧ P' h w) p (fun a h w => Q a h w ∧ Q' a h w)
      (fun h => B h ∧ B' h) := by
  intro h w rs hP
  have hm₁ := h₁ h w rs hP.1
  have hm₂ := h₂ h w rs hP.2
  refine ⟨?_, ?_⟩
  · intro a v qs hres
    exact ⟨hm₁.ends a v qs hres, hm₂.ends a v qs hres⟩
  · intro hnone
    exact ⟨hm₁.waits hnone, hm₂.waits hnone⟩

/-- **The loop rule.** -/
theorem loop {body : β → Proc E R σ (β ⊕ α)} {I : β → List E → σ → Prop}
    (hbody : ∀ b, Triple (I b) (body b) (Sum.elim I Q) B) (hB : ∀ b h w, I b h w → B h) (b : β) :
    Triple (I b) (Proc.loop body b) Q B := by
  have hrounds : ∀ n b, Triple (I b) (rounds body n b) Q B := by
    intro n
    induction n with
    | zero =>
        intro b h w rs hI
        exact Outcome.meets_none (by simpa using hB b h w hI)
    | succ n ih =>
        intro b
        refine (hbody b).bind ?_
        intro x
        cases x with
        | inl b' => exact ih b'
        | inr a => exact pure fun _ _ h => h
  intro h w rs hI
  exact hrounds _ b h w rs hI

end Triple

/-! ## The kinds of events a program notes -/

/-- Every event that the program notes is of the kind `A`. -/
def Emits (A : E → Prop) (p : Proc E R σ α) : Prop := ∀ w rs, ∀ e ∈ (p w rs).trace, A e

namespace Emits

open Proc

variable {A : E → Prop} {p : Proc E R σ α} {f : α → Proc E R σ β}

theorem pure (a : α) : Emits A (Pure.pure a : Proc E R σ α) := by
  intro w rs e he
  exact absurd he List.not_mem_nil

theorem bind (hp : Emits A p) (hf : ∀ a, Emits A (f a)) : Emits A (p >>= f) := by
  intro w rs e he
  rw [run_bind, andThen] at he
  cases hres : (p w rs).result with
  | none =>
      rw [hres] at he
      exact hp w rs e he
  | some x =>
      obtain ⟨a, w', rs'⟩ := x
      rw [hres] at he
      rcases List.mem_append.mp he with hfirst | hsecond
      · exact hp w rs e hfirst
      · exact hf a w' rs' e hsecond

theorem ask : Emits A (Proc.ask : Proc E R σ R) := by
  intro w rs e he
  cases rs <;> exact absurd he List.not_mem_nil

theorem emit {e : E} (he : A e) : Emits A (Proc.emit e : Proc E R σ Unit) := by
  intro w rs e' he'
  obtain rfl := List.mem_singleton.mp he'
  exact he

theorem get : Emits A (Proc.get : Proc E R σ σ) := by
  intro w rs e he
  exact absurd he List.not_mem_nil

theorem set (v : σ) : Emits A (Proc.set v : Proc E R σ Unit) := by
  intro w rs e he
  exact absurd he List.not_mem_nil

theorem loop {body : β → Proc E R σ (β ⊕ α)} (hbody : ∀ b, Emits A (body b)) (b : β) :
    Emits A (Proc.loop body b) := by
  have hrounds : ∀ n b, Emits A (rounds body n b) := by
    intro n
    induction n with
    | zero =>
        intro b w rs e he
        exact absurd he List.not_mem_nil
    | succ n ih =>
        intro b
        refine (hbody b).bind ?_
        intro x
        cases x with
        | inl b' => exact ih b'
        | inr a => exact pure a
  intro w rs
  exact hrounds _ b w rs

/-- What the events of the kind leave true, the program leaves true. -/
theorem triple {P Q B : List E → Prop} (hp : Emits A p)
    (hQ : ∀ h t, P h → (∀ e ∈ t, A e) → Q (h ++ t))
    (hB : ∀ h t, P h → (∀ e ∈ t, A e) → B (h ++ t)) :
    Triple (fun h _ => P h) p (fun _ h _ => Q h) B := by
  intro h w rs hP
  refine ⟨?_, ?_⟩
  · intro a v qs _
    exact hQ h _ hP (hp w rs)
  · intro _
    exact hB h _ hP (hp w rs)

end Emits

/-! ## The effect of a program -/

/-- A relation between the state before a run, the events of the run and the state after it
that holds of a run in which nothing happens, and of two runs one after the other. -/
structure Effect (D : σ → List E → σ → Prop) : Prop where
  refl : ∀ w, D w [] w
  trans : ∀ {w v w' : σ} {t u : List E}, D w t v → D v u w' → D w (t ++ u) w'

/-- Every run of the program that ends is of this kind. -/
def Does (D : σ → List E → σ → Prop) (p : Proc E R σ α) : Prop :=
  ∀ w rs a w' rs', (p w rs).result = some (a, w', rs') → D w (p w rs).trace w'

namespace Does

open Proc

variable {D : σ → List E → σ → Prop} {p : Proc E R σ α} {f : α → Proc E R σ β}

theorem pure (hD : Effect D) (a : α) : Does D (Pure.pure a : Proc E R σ α) := by
  intro w rs b w' rs' hres
  simp only [run_pure, Option.some.injEq, Prod.mk.injEq] at hres
  obtain ⟨-, rfl, -⟩ := hres
  exact hD.refl w

theorem bind (hD : Effect D) (hp : Does D p) (hf : ∀ a, Does D (f a)) : Does D (p >>= f) := by
  intro w rs b w' rs' hres
  rw [run_bind, andThen] at hres ⊢
  cases hfirst : (p w rs).result with
  | none => simp [hfirst] at hres
  | some x =>
      obtain ⟨a, v, qs⟩ := x
      simp only [hfirst] at hres ⊢
      exact hD.trans (hp w rs a v qs hfirst) (hf a v qs b w' rs' hres)

theorem ask (hD : Effect D) : Does D (Proc.ask : Proc E R σ R) := by
  intro w rs r w' rs' hres
  cases rs with
  | nil => cases hres
  | cons r rest =>
      cases hres
      exact hD.refl w

theorem emit {e : E} (he : ∀ w, D w [e] w) : Does D (Proc.emit e : Proc E R σ Unit) := by
  intro w rs b w' rs' hres
  cases hres
  exact he w

theorem loop (hD : Effect D) {body : β → Proc E R σ (β ⊕ α)} (hbody : ∀ b, Does D (body b))
    (b : β) : Does D (Proc.loop body b) := by
  have hrounds : ∀ n b, Does D (rounds body n b) := by
    intro n
    induction n with
    | zero =>
        intro b w rs a w' rs' hres
        cases hres
    | succ n ih =>
        intro b
        refine bind hD (hbody b) ?_
        intro x
        cases x with
        | inl b' => exact ih b'
        | inr a => exact pure hD a
  intro w rs
  exact hrounds _ b w rs

/-- What the effect makes of the precondition. -/
theorem triple {P Q : List E → σ → Prop} (hp : Does D p)
    (hQ : ∀ h t w w', P h w → D w t w' → Q (h ++ t) w') :
    Triple P p (fun _ => Q) (fun _ => True) := by
  intro h w rs hP
  exact ⟨fun a w' rs' hres => hQ h _ w w' hP (hp w rs a w' rs' hres), fun _ => trivial⟩

end Does

end Interaction
