import RateHub.Lib.History
import RateHub.Sync.SpscRingProof

/-!
# What an observer is told about the ring

`occupied()` loads `write_`, then `read_`, and subtracts. Between the loads both sides
of the ring go on. Pushes do no harm: the loaded `write_` only gets old. Pops bring the
difference down to what is left of the records the observer counted, until `read_`
reaches the loaded `write_`. A pop from there on takes a record pushed after the first
load, and the difference, now negative, comes back as `Capacity` minus something.

The run keeps, beside the state, how many records the ring held at each moment of the
call in progress, and every value returned with the moments of its call.
-/

namespace RateHub.SpscRing

open Transition

variable {α : Type} {C : Capacity}

/-- Where an `occupied()` call stands. -/
inductive OccupiedPc where
  | idle
  | loadWrite
  | loadRead (write : UInt32)
  deriving DecidableEq, Repr

/-- One access of `occupied`. The last component is the result when the call returns. -/
def occupiedStep (r : SpscRing α C) : OccupiedPc → OccupiedPc × Option UInt32
  | .idle => (.idle, none)
  | .loadWrite => (.loadRead r.write, none)
  | .loadRead write => (.idle, some ((write - r.read) &&& C.mask))

/-- The ring, its two sides and an observer. -/
structure Watched (α : Type) (C : Capacity) where
  sides : State α C
  observer : OccupiedPc

/-- Who moves: one of the two sides, or the observer. -/
inductive WatchedAct (α : Type) where
  | sides (a : Act α)
  | callOccupied
  | observer

def Watched.step (s : Watched α C) : WatchedAct α → Option (Watched α C)
  | .sides a => (s.sides.step a).map fun t => { s with sides := t }
  | .callOccupied =>
      match s.observer with
      | .idle => some { s with observer := .loadWrite }
      | _ => none
  | .observer =>
      match s.observer with
      | .idle => none
      | pc => some { s with observer := (occupiedStep s.sides.ring pc).1 }

/-- A fresh ring, nobody inside a call. -/
def Watched.start (zero : α) : Watched α C := { sides := State.start zero, observer := .idle }

/-- How many records the ring holds. -/
def Watched.held (s : Watched α C) : Nat := s.sides.ring.waiting.length

/-- What is remembered of the run. -/
structure Sightings where
  /-- The number of records held at each moment since the last call began. -/
  held : List Nat := []
  /-- Each value returned, with the numbers held during its call. -/
  returned : List (UInt32 × List Nat) := []

/-- A call starts its own list of moments; its second load returns the value and
changes nothing in the ring, so the moments are those noted before it. -/
def sight (past : Sightings) (s : Watched α C) (a : WatchedAct α) (s' : Watched α C) :
    Sightings :=
  match a with
  | .sides _ => { past with held := past.held ++ [s'.held] }
  | .callOccupied => { past with held := [s'.held] }
  | .observer =>
      match (occupiedStep s.sides.ring s.observer).2 with
      | none => { past with held := past.held ++ [s'.held] }
      | some value => { past with returned := past.returned ++ [(value, past.held)] }

/-- The step is the index store of a pop, and it moves `read_` past the write index the
observer has loaded. -/
def passes (s : Watched α C) : WatchedAct α → Bool
  | .sides .consumer =>
      match s.sides.consumer with
      | .storeRead _ _ => decide (s.observer = .loadRead s.sides.ring.read)
      | _ => false
  | _ => false

/-- The runs on a fresh ring in which no pop does that. -/
def ReachableWatched (zero : α) : Noted (Watched α C) Sightings → Prop :=
  ReachableNoted Watched.step sight (fun x a => passes x.now a = false) (· = Watched.start zero) {}

/-- All runs on a fresh ring. -/
def ReachableAll (zero : α) : Noted (Watched α C) Sightings → Prop :=
  ReachableNoted Watched.step sight (fun _ _ => True) (· = Watched.start zero) {}

/-! ## The invariant of a call in progress -/

/-- What the observer knows between its loads: the write index it holds is that of `n`
pushes, the consumer is not past them, and what is left of them was once held. -/
def OccupiedOk (r : SpscRing α C) (held : List Nat) : OccupiedPc → Prop
  | .loadRead write =>
      ∃ n, write = C.index n ∧ r.popped.length ≤ n ∧ n < r.popped.length + C.size
        ∧ ∃ m ∈ held, n - r.popped.length ≤ m
  | _ => True

/-- The ring with both its sides, the call in progress and the values returned so far. -/
structure WatchedInv (s : Watched α C) (past : Sightings) : Prop where
  calls : CallInv s.sides.ring s.sides.producer s.sides.consumer
  now : s.observer ≠ .idle → s.held ∈ past.held
  observer : OccupiedOk s.sides.ring past.held s.observer
  returned : ∀ p ∈ past.returned, ∃ m ∈ p.2, p.1.toNat ≤ m

/-- Only the index store of a pop moves the pop history, by one record. -/
theorem popped_step {s s' : State α C} {a : Act α} (hs : s.step a = some s') :
    s'.ring.popped = s.ring.popped
      ∨ a = .consumer ∧ ∃ q out, s.consumer = .storeRead q out
          ∧ s'.ring.popped = s.ring.popped ++ [out] := by
  by_cases hc : Commits s a
  · cases a with
    | producer =>
        obtain ⟨v, w, hp⟩ := hc
        left
        simp only [State.step, hp, Option.some.injEq] at hs
        rw [← hs]
        rfl
    | consumer =>
        obtain ⟨q, out, hp⟩ := hc
        right
        simp only [State.step, hp, Option.some.injEq] at hs
        rw [← hs]
        exact ⟨rfl, q, out, hp, rfl⟩
    | callPush v => exact absurd hc id
    | tear junk => exact absurd hc id
    | callPop => exact absurd hc id
    | killProducer => exact absurd hc id
    | killConsumer => exact absurd hc id
  · exact .inl (history_of_not_commits hs hc).2

/-- A step of the two sides that does not pass the observer leaves what it knows true. -/
theorem OccupiedOk.sides {s : Watched α C} {t : State α C} {a : Act α} {held : List Nat}
    (hi : Inv s.sides.ring) (h : OccupiedOk s.sides.ring held s.observer)
    (hok : passes s (.sides a) = false) (hs : s.sides.step a = some t) (extra : List Nat) :
    OccupiedOk t.ring (held ++ extra) s.observer := by
  cases ho : s.observer with
  | idle => trivial
  | loadWrite => trivial
  | loadRead write =>
      rw [ho] at h
      obtain ⟨n, hn, hle, hlt, m, hm, hleft⟩ := h
      rcases popped_step hs with hsame | ⟨rfl, q, out, hc, hpop⟩
      · refine ⟨n, hn, ?_, ?_, m, List.mem_append_left _ hm, ?_⟩ <;> rw [hsame] <;> assumption
      · -- the record taken was pushed before the observer's first load
        have hne : s.sides.ring.popped.length ≠ n := by
          intro heq
          simp only [passes, hc, decide_eq_false_iff_not] at hok
          apply hok
          rw [ho, hn, hi.read_eq, heq]
        have hlen : t.ring.popped.length = s.sides.ring.popped.length + 1 := by
          rw [hpop, List.length_append, List.length_singleton]
        exact ⟨n, hn, by omega, by omega, m, List.mem_append_left _ hm, by omega⟩

theorem watchedInv_step {x : Noted (Watched α C) Sightings} {a : WatchedAct α}
    {s' : Watched α C} (h : WatchedInv x.now x.past) (hok : passes x.now a = false)
    (hs : x.now.step a = some s') : WatchedInv s' (sight x.past x.now a s') := by
  have hring := h.calls.ring
  cases a with
  | sides a =>
      simp only [Watched.step, Option.map_eq_some_iff] at hs
      obtain ⟨t, ht, rfl⟩ := hs
      exact
        { calls := callInv_step h.calls ht
          now := fun _ => List.mem_append_right _ (List.mem_singleton.mpr rfl)
          observer := h.observer.sides hring hok ht _
          returned := h.returned }
  | callOccupied =>
      simp only [Watched.step] at hs
      split at hs
      · obtain rfl := Option.some.inj hs
        exact ⟨h.calls, fun _ => List.mem_singleton.mpr rfl, trivial, h.returned⟩
      · exact absurd hs (by simp)
  | observer =>
      cases ho : x.now.observer with
      | idle => simp [Watched.step, ho] at hs
      | loadWrite =>
          simp only [Watched.step, ho, Option.some.injEq] at hs
          subst hs
          have hnow : x.now.held ∈ x.past.held := h.now (by simp [ho])
          simp only [sight, ho, occupiedStep]
          refine ⟨h.calls, fun _ => List.mem_append_left _ hnow, ?_, h.returned⟩
          -- everything pushed and not popped is held now
          refine ⟨_, hring.write_eq, hring.length_le, hring.room, x.now.held,
            List.mem_append_left _ hnow, ?_⟩
          rw [Watched.held, hring.waiting_length]
      | loadRead write =>
          simp only [Watched.step, ho, Option.some.injEq] at hs
          subst hs
          have hknown := h.observer
          rw [ho] at hknown
          obtain ⟨n, hn, hle, hlt, m, hm, hleft⟩ := hknown
          simp only [sight, ho, occupiedStep]
          refine ⟨h.calls, fun hc => absurd rfl hc, trivial, ?_⟩
          intro p hp
          rcases List.mem_append.mp hp with hold | hnew
          · exact h.returned p hold
          · rw [List.mem_singleton] at hnew
            subst hnew
            refine ⟨m, hm, ?_⟩
            show ((write - x.now.sides.ring.read) &&& C.mask).toNat ≤ m
            rw [hn, hring.read_eq, C.index_sub hle hlt]
            exact hleft

/--
**The occupancy told is one the ring had, when the consumer stays behind.**

In every run on a fresh ring, with any number of pushes and pops between any two accesses
of the observer, in which no pop moves `read_` past the write index an `occupied()` call
has loaded: every value returned is at most the number of records the ring held at some
moment of that call.
-/
theorem occupied_believable {zero : α} {x : Noted (Watched α C) Sightings}
    (h : ReachableWatched zero x) : ∀ p ∈ x.past.returned, ∃ m ∈ p.2, p.1.toNat ≤ m := by
  suffices hi : WatchedInv x.now x.past from hi.returned
  refine ReachableNoted.invariant (I := WatchedInv) ?_ ?_ h
  · rintro s rfl
    exact ⟨⟨inv_init zero, trivial, trivial⟩, fun hc => absurd rfl hc, trivial, by simp⟩
  · intro x a s' _ hi hok hs
    exact watchedInv_step hi hok hs

/-- A push of `v` from start to end. -/
def pushAll (v : α) : List (WatchedAct α) :=
  WatchedAct.sides (.callPush v) :: List.replicate 4 (WatchedAct.sides .producer)

/-- A pop from start to end. -/
def popAll : List (WatchedAct α) :=
  WatchedAct.sides .callPop :: List.replicate 4 (WatchedAct.sides .consumer)

/-- Two records wait when the observer loads `write_`, one when it loads `read_`. -/
theorem occupied_believable_one_popped :
    ∃ x : Noted (Watched Nat four) Sightings, ReachableWatched 0 x
      ∧ (∃ held, x.past.returned = [(1, held)])
      ∧ ∀ p ∈ x.past.returned, ∃ m ∈ p.2, p.1.toNat ≤ m := by
  have h : ∃ x, execWhen (notedStep Watched.step sight) (fun x a => !passes x.now a)
      (⟨Watched.start 0, {}⟩ : Noted (Watched Nat four) Sightings)
      (pushAll 7 ++ pushAll 8 ++ [WatchedAct.callOccupied, WatchedAct.observer] ++ popAll
        ++ [WatchedAct.observer]) = some x
      ∧ ∃ held, x.past.returned = [(1, held)] := ⟨_, rfl, _, rfl⟩
  obtain ⟨x, hx, hone⟩ := h
  have hr : ReachableWatched 0 x :=
    ReachableNoted.execWhen (fun x a hg => by simpa using hg) (by rfl) hx
  exact ⟨x, hr, hone, occupied_believable hr⟩

/--
**The difference wraps.** The observer loads `write_ = 0` of an empty ring of four slots,
one record goes through the ring, and the observer loads `read_ = 1`: it is told 3, and
the ring never held more than one.
-/
theorem occupied_wraps :
    ¬ ∀ x : Noted (Watched Nat four) Sightings, ReachableAll 0 x →
        ∀ p ∈ x.past.returned, ∃ m ∈ p.2, p.1.toNat ≤ m := by
  have h : ∃ x, execWhen (notedStep Watched.step sight) (fun _ _ => true)
      (⟨Watched.start 0, {}⟩ : Noted (Watched Nat four) Sightings)
      ([WatchedAct.callOccupied, WatchedAct.observer] ++ pushAll 7 ++ popAll
        ++ [WatchedAct.observer]) = some x
      ∧ x.past.returned = [(3, [0, 0, 0, 0, 0, 0, 1, 1, 1, 1, 1, 0])] := ⟨_, rfl, rfl⟩
  obtain ⟨x, hx, hthree⟩ := h
  intro hall
  have hr : ReachableAll 0 x := ReachableNoted.execWhen (fun _ _ _ => trivial) (by rfl) hx
  obtain ⟨m, hm, hle⟩ := hall x hr _ (by rw [hthree]; exact List.mem_singleton.mpr rfl)
  have hsmall : ∀ m ∈ [0, 0, 0, 0, 0, 0, 1, 1, 1, 1, 1, 0], m < 3 := by decide
  exact absurd hle (Nat.not_le.mpr (hsmall m hm))

end RateHub.SpscRing
