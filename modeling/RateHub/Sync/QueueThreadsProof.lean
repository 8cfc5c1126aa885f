import RateHub.Sync.BoundedQueueProof
import RateHub.Sync.QueueThreads

/-!
# What the queue gives its threads

First, for any number of threads: the queue is a first-in first-out list that loses
nothing, and a pop comes back empty only when the queue is closed and drained. The
argument never looks at the condition variable: the critical sections run one after
the other, and each keeps the list.

Then, for one thread on either side, the condition variable. Both sides sleep in the same
one and a notification may go to either, which loses wakeups in general. Here it does not:
the notifier is awake, so the only thread a notification can find is the other one. The
invariant says that a sleeper whose predicate has become true is about to be notified.
-/

namespace RateHub

namespace QueueThreads

variable {T α : Type} [DecidableEq T] {c : Nat} {s s' : QueueThreads T α}

/-! ## The sections, one after the other -/

/-- The values whose push returned true, in order. -/
def acceptedBy (log : List (Section α)) : List α :=
  log.filterMap fun
    | .pushed value true => some value
    | _ => none

/-- The values pop returned, in order. -/
def returnedBy (log : List (Section α)) : List α :=
  log.filterMap fun
    | .popped value => value
    | _ => none

/-- What a section may return, given those before it. -/
def Section.Fits (before : List (Section α)) : Section α → Prop
  | .pushed _ ok => .closed ∈ before → ok = false
  | .popped none => .closed ∈ before ∧ returnedBy before = acceptedBy before
  | _ => True

/-- The queue as its sections left it. -/
structure Ledger (c : Nat) (q : BoundedQueue α) (log : List (Section α)) : Prop where
  fifo : q.Fifo c
  accepted : q.accepted = acceptedBy log
  taken : q.taken = returnedBy log
  closed : q.closed = true ↔ .closed ∈ log
  /-- Every section fits behind those before it. -/
  fits : ∀ before e after, log = before ++ e :: after → Section.Fits before e

theorem ledger_init (zero : α) (hc : 0 < c) : Ledger c (BoundedQueue.init zero) [] where
  fifo := BoundedQueue.fifo_init zero hc
  accepted := rfl
  taken := rfl
  closed := by simp [BoundedQueue.init]
  fits := by
    intro before e after h
    cases before <;> cases h

/-- One section more. -/
theorem fits_append {log : List (Section α)} {e : Section α}
    (h : ∀ before e after, log = before ++ e :: after → Section.Fits before e)
    (he : Section.Fits log e) :
    ∀ before e' after, log ++ [e] = before ++ e' :: after → Section.Fits before e' := by
  intro before e' after hsplit
  rcases List.eq_nil_or_concat after with rfl | ⟨rest, last, rfl⟩
  · obtain ⟨rfl, hsame⟩ := List.append_inj' hsplit rfl
    obtain rfl := List.head_eq_of_cons_eq hsame
    exact he
  · rw [List.concat_eq_append, ← List.cons_append, ← List.append_assoc] at hsplit
    exact h before e' rest (List.append_inj' hsplit rfl).1

/-- What a push does, in its two outcomes. -/
theorem Ledger.push {q q' : BoundedQueue α} {log : List (Section α)} (h : Ledger c q log)
    {value : α} {ok : Bool} (hp : q.push c value = some (ok, q')) :
    Ledger c q' (log ++ [.pushed value ok]) := by
  obtain ⟨hfifo, htaken, hacc⟩ := h.fifo.push hp
  have hclosed : q'.closed = q.closed ∧ (q.closed = true → ok = false) := by
    unfold BoundedQueue.push at hp
    split at hp
    · simp only [Option.some.injEq, Prod.mk.injEq] at hp
      obtain ⟨rfl, rfl⟩ := hp
      exact ⟨rfl, fun _ => rfl⟩
    · rename_i hopen
      split at hp
      · simp only [Option.some.injEq, Prod.mk.injEq] at hp
        obtain ⟨rfl, rfl⟩ := hp
        exact ⟨rfl, fun hc => absurd hc hopen⟩
      · cases hp
  refine ⟨hfifo, ?_, ?_, ?_, ?_⟩
  · rw [hacc, h.accepted]
    cases ok <;> simp [acceptedBy]
  · rw [htaken, h.taken]
    simp [returnedBy]
  · rw [hclosed.1, h.closed]
    simp
  · exact fits_append h.fits fun hmem => hclosed.2 (h.closed.mpr hmem)

theorem Ledger.pop {q q' : BoundedQueue α} {log : List (Section α)} (h : Ledger c q log)
    {value : Option α} (hp : q.pop c = some (value, q')) :
    Ledger c q' (log ++ [.popped value]) := by
  obtain ⟨hfifo, hacc, htaken⟩ := h.fifo.pop hp
  have hclosed : q'.closed = q.closed ∧ (value = none → q.closed = true ∧ q.size = 0) := by
    unfold BoundedQueue.pop at hp
    split at hp
    · rename_i hsize
      split at hp
      · rename_i hcl
        simp only [Option.some.injEq, Prod.mk.injEq] at hp
        obtain ⟨rfl, rfl⟩ := hp
        exact ⟨rfl, fun _ => ⟨hcl, hsize⟩⟩
      · cases hp
    · simp only [Option.some.injEq, Prod.mk.injEq] at hp
      obtain ⟨rfl, rfl⟩ := hp
      exact ⟨rfl, fun hv => absurd hv (by simp)⟩
  refine ⟨hfifo, ?_, ?_, ?_, ?_⟩
  · rw [hacc, h.accepted]
    simp [acceptedBy]
  · rw [htaken, h.taken]
    cases value <;> simp [returnedBy]
  · rw [hclosed.1, h.closed]
    simp
  · refine fits_append h.fits ?_
    cases value with
    | some v => trivial
    | none =>
        -- closed and empty, so everything accepted has been taken
        obtain ⟨hcl, hsize⟩ := hclosed.2 rfl
        refine ⟨h.closed.mp hcl, ?_⟩
        rw [← h.taken, ← h.accepted]
        exact h.fifo.taken_of_empty hsize

theorem Ledger.close {q : BoundedQueue α} {log : List (Section α)} (h : Ledger c q log) :
    Ledger c q.close (log ++ [.closed]) where
  fifo := h.fifo.close
  accepted := by simpa [acceptedBy, BoundedQueue.close] using h.accepted
  taken := by simpa [returnedBy, BoundedQueue.close] using h.taken
  closed := by simp [BoundedQueue.close]
  fits := fits_append h.fits trivial

/-! ## What a step can do -/

/-- The ways a step can come about. -/
inductive Move (c : Nat) (s : QueueThreads T α) : QueueAct T α → QueueThreads T α → Prop
  | call {t : T} {call : QueueCall α} (hpc : s.pc t = .idle) :
      Move c s (.call t call) (s.goto t (.lock call))
  | lock {t : T} {k : Nat} {call : QueueCall α} (hpc : s.pc t = .lock call)
      (hfree : s.holder = none) :
      Move c s (.run t k) { s.goto t call.locked with holder := some t }
  | ready {t : T} {k : Nat} {call : QueueCall α} (hpc : s.pc t = .test call)
      (hready : call.ready c s.queue = true) : Move c s (.run t k) (s.goto t (.body call))
  | unready {t : T} {k : Nat} {call : QueueCall α} (hpc : s.pc t = .test call)
      (hready : call.ready c s.queue = false) : Move c s (.run t k) (s.goto t (.sleep call))
  | sleep {t : T} {k : Nat} {call : QueueCall α} (hpc : s.pc t = .sleep call) :
      Move c s (.run t k)
        { s.goto t (.asleep call) with holder := none, sleepers := s.sleepers ++ [t] }
  | push {t : T} {k : Nat} {value : α} {ok : Bool} {q : BoundedQueue α}
      (hpc : s.pc t = .body (.push value)) (hq : s.queue.push c value = some (ok, q)) :
      Move c s (.run t k) (s.leave t (if ok then .notifyOne else .idle) q (.pushed value ok))
  | pop {t : T} {k : Nat} {value : Option α} {q : BoundedQueue α} (hpc : s.pc t = .body .pop)
      (hq : s.queue.pop c = some (value, q)) :
      Move c s (.run t k) (s.leave t (if value.isSome then .notifyOne else .idle) q (.popped value))
  | close {t : T} {k : Nat} (hpc : s.pc t = .body .close) :
      Move c s (.run t k)
        { s.goto t .notifyAll with queue := s.queue.close, log := s.log ++ [.closed] }
  | notifyOne {t : T} {k : Nat} (hpc : s.pc t = .notifyOne) :
      Move c s (.run t k) ((s.notifyOne k).goto t .idle)
  | notifyAll {t : T} {k : Nat} (hpc : s.pc t = .notifyAll) :
      Move c s (.run t k) { s.notifyAll.goto t .idle with holder := none }
  | spurious {t : T} {call : QueueCall α} (hpc : s.pc t = .asleep call) :
      Move c s (.spurious t) (s.wake t)

theorem move_of_body {t : T} {k : Nat} {call : QueueCall α} (hpc : s.pc t = .body call)
    (h : s.body c t call = some s') : Move c s (.run t k) s' := by
  cases call with
  | push value =>
      simp only [body] at h
      split at h
      · rename_i q hq
        obtain rfl := Option.some.inj h
        exact .push hpc hq
      · rename_i q hq
        obtain rfl := Option.some.inj h
        exact .push hpc hq
      · cases h
  | pop =>
      simp only [body] at h
      split at h
      · rename_i value q hq
        obtain rfl := Option.some.inj h
        exact .pop hpc hq
      · rename_i q hq
        obtain rfl := Option.some.inj h
        exact .pop hpc hq
      · cases h
  | close =>
      obtain rfl := Option.some.inj h
      exact .close hpc

/-- **Every step is one of these.** -/
theorem move_of_step {a : QueueAct T α} (h : s.step c a = some s') : Move c s a s' := by
  cases a with
  | call t call =>
      simp only [step] at h
      split at h
      · rename_i hpc
        obtain rfl := Option.some.inj h
        exact .call hpc
      · cases h
  | spurious t =>
      simp only [step] at h
      split at h
      · rename_i call hpc
        obtain rfl := Option.some.inj h
        exact .spurious hpc
      · cases h
  | run t k =>
      simp only [step, run] at h
      split at h
      · cases h
      · rename_i call hpc
        split at h
        · rename_i hfree
          obtain rfl := Option.some.inj h
          exact .lock hpc hfree
        · cases h
      · rename_i call hpc
        obtain rfl := Option.some.inj h
        cases hready : call.ready c s.queue with
        | true => exact .ready hpc hready
        | false => exact .unready hpc hready
      · rename_i call hpc
        obtain rfl := Option.some.inj h
        exact .sleep hpc
      · cases h
      · rename_i call hpc
        exact move_of_body hpc h
      · rename_i hpc
        obtain rfl := Option.some.inj h
        exact .notifyOne hpc
      · rename_i hpc
        obtain rfl := Option.some.inj h
        exact .notifyAll hpc

/-- Waking somebody up moves neither the queue nor the log. -/
theorem notifyOne_cases (s : QueueThreads T α) (k : Nat) :
    (s.sleepers = [] ∧ s.notifyOne k = s) ∨ ∃ u ∈ s.sleepers, s.notifyOne k = s.wake u := by
  unfold notifyOne
  split
  · rename_i u hu
    exact Or.inr ⟨u, List.mem_of_getElem? hu, rfl⟩
  · rename_i hnone
    rw [List.getElem?_eq_none_iff] at hnone
    refine Or.inl ⟨?_, rfl⟩
    by_contra hne
    have hpos : 0 < s.sleepers.length := List.length_pos_of_ne_nil hne
    have := Nat.mod_lt k hpos
    omega

theorem ledger_step {a : QueueAct T α} (h : Ledger c s.queue s.log) (hs : s.step c a = some s') :
    Ledger c s'.queue s'.log := by
  cases move_of_step hs with
  | push hpc hq => exact h.push hq
  | pop hpc hq => exact h.pop hq
  | close hpc => exact h.close
  | @notifyOne t k hpc =>
      have hsame : (s.notifyOne k).queue = s.queue ∧ (s.notifyOne k).log = s.log := by
        rcases notifyOne_cases s k with ⟨_, h⟩ | ⟨u, _, h⟩ <;> rw [h] <;> exact ⟨rfl, rfl⟩
      show Ledger c (s.notifyOne k).queue (s.notifyOne k).log
      rw [hsame.1, hsame.2]
      exact h
  | _ => exact h

theorem ledger_reachable {zero : α} (hc : 0 < c) (h : Reachable c zero s) :
    Ledger c s.queue s.log := by
  refine Transition.Reachable.invariant (I := fun s => Ledger c s.queue s.log) ?_
    (fun _ _ _ hi _ hs => ledger_step hi hs) h
  rintro _ rfl
  exact ledger_init zero hc

/--
**A lossless first-in first-out queue that drains after `close`.**

For every capacity and any number of threads, in every interleaving: the values `pop`
returned are a prefix of the values whose `push` returned true, in order; `size_` and
`head_` stay within the array; a push whose section runs after `close` returns false and
leaves the queue as it is; and a pop that returned `nullopt` found the queue closed and
every accepted value popped.
-/
theorem lossless_fifo {zero : α} (hc : 0 < c) (h : Reachable c zero s) :
    returnedBy s.log <+: acceptedBy s.log
      ∧ s.queue.size ≤ c ∧ s.queue.head < c
      ∧ (∀ before value ok after, s.log = before ++ .pushed value ok :: after →
          .closed ∈ before → ok = false)
      ∧ (∀ t k value s', s.pc t = .body (.push value) → .closed ∈ s.log →
          s.step c (.run t k) = some s' → s'.queue = s.queue)
      ∧ (∀ before after, s.log = before ++ .popped none :: after →
          .closed ∈ before ∧ returnedBy before = acceptedBy before) := by
  have hl := ledger_reachable hc h
  refine ⟨?_, hl.fifo.size_le, hl.fifo.head_lt, ?_, ?_, ?_⟩
  · rw [← hl.accepted, ← hl.taken, hl.fifo.accepted]
    exact List.prefix_append _ _
  · intro before value ok after hlog
    exact hl.fits before _ after hlog
  · intro t k value s' hpc hmem hs
    have hclosed : s.queue.closed = true := hl.closed.mpr hmem
    simp only [step, run, hpc, body, BoundedQueue.push, hclosed, if_true] at hs
    obtain rfl := Option.some.inj hs
    rfl
  · intro before after hlog
    exact hl.fits before _ after hlog

/-- Two pushers and a popper on a queue of one: the second push waits for the pop. The queue
is closed with a value in it, and the last pop finds it drained. -/
def drained : List (QueueAct Nat Nat) :=
  List.flatten
    [[.call 0 (.push 5), .call 1 (.push 7), .call 2 .pop], List.replicate 3 (.run 0 0),
      List.replicate 3 (.run 1 0), List.replicate 4 (.run 2 0), List.replicate 3 (.run 1 0),
      [.run 1 0, .run 0 0, .call 0 .close], List.replicate 3 (.run 0 0),
      [.call 2 .pop], List.replicate 4 (.run 2 0), [.call 2 .pop], List.replicate 3 (.run 2 0)]

theorem lossless_fifo_drained :
    ∃ s : QueueThreads Nat Nat, Reachable 1 0 s ∧ acceptedBy s.log = [5, 7]
      ∧ .popped none ∈ s.log ∧ returnedBy s.log <+: [5, 7] := by
  have h : (Transition.exec (step 1) (start 0) drained).any
      (fun s => decide (acceptedBy s.log = [5, 7]) && decide (.popped none ∈ s.log)) = true := by
    decide +kernel
  obtain ⟨s, hrun, hs⟩ := Option.any_eq_true _ _ |>.mp h
  simp only [Bool.and_eq_true, decide_eq_true_eq] at hs
  have hr : Reachable 1 0 s := Transition.Reachable.exec (fun _ _ => trivial) _ (.init rfl) hrun
  have hprefix := (lossless_fifo (by decide) hr).1
  rw [hs.1] at hprefix
  exact ⟨s, hr, hs.1, hs.2, hprefix⟩

/-! ## The mutex and the sleepers -/

/-- Between taking the mutex and giving it back. -/
def QueuePc.holding : QueuePc α → Bool
  | .test _ => true
  | .sleep _ => true
  | .body _ => true
  | .notifyAll => true
  | _ => false

def QueuePc.isAsleep : QueuePc α → Bool
  | .asleep _ => true
  | _ => false

/-- Between its critical section and its notification. -/
def QueuePc.notifying : QueuePc α → Bool
  | .notifyOne => true
  | .notifyAll => true
  | _ => false

/-- The call in progress. -/
def QueuePc.call : QueuePc α → Option (QueueCall α)
  | .lock call => some call
  | .test call => some call
  | .sleep call => some call
  | .asleep call => some call
  | .body call => some call
  | _ => none

@[simp] theorem QueuePc.holding_woken (pc : QueuePc α) :
    QueuePc.holding pc.woken = QueuePc.holding pc := by
  cases pc <;> rfl

@[simp] theorem QueuePc.isAsleep_woken (pc : QueuePc α) : QueuePc.isAsleep pc.woken = false := by
  cases pc <;> rfl

@[simp] theorem QueuePc.call_woken (pc : QueuePc α) : QueuePc.call pc.woken = QueuePc.call pc := by
  cases pc <;> rfl

@[simp] theorem QueueCall.isAsleep_locked (call : QueueCall α) :
    QueuePc.isAsleep call.locked = false := by
  cases call <;> rfl

theorem QueuePc.not_asleep_of_holding {pc : QueuePc α} (h : QueuePc.holding pc = true) :
    QueuePc.isAsleep pc = false := by
  cases pc with
  | asleep call => cases h
  | _ => rfl

/-- Who moves goes on at a new place, everybody else stays. -/
theorem goto_pc (s : QueueThreads T α) (t : T) (pc : QueuePc α) (u : T) :
    (u = t ∧ (s.goto t pc).pc u = pc) ∨ (u ≠ t ∧ (s.goto t pc).pc u = s.pc u) := by
  by_cases h : u = t
  · subst h
    exact Or.inl ⟨rfl, by simp [QueueThreads.goto]⟩
  · exact Or.inr ⟨h, by simp [QueueThreads.goto, h]⟩

/-- Nobody is at a new place but the woken one. -/
theorem wake_pc (s : QueueThreads T α) (t u : T) :
    (u = t ∧ (s.wake t).pc u = (s.pc u).woken) ∨ (u ≠ t ∧ (s.wake t).pc u = s.pc u) := by
  rcases goto_pc s t (s.pc t).woken u with ⟨h, hpc⟩ | ⟨h, hpc⟩
  · exact Or.inl ⟨h, by rw [h] at hpc ⊢; exact hpc⟩
  · exact Or.inr ⟨h, hpc⟩

/-- The mutex has one holder, and the condition variable knows its sleepers. -/
structure Mutex (s : QueueThreads T α) : Prop where
  holder : ∀ t, QueuePc.holding (s.pc t) = true → s.holder = some t
  sleepers : ∀ t, t ∈ s.sleepers ↔ QueuePc.isAsleep (s.pc t) = true

/-- The holder goes on, and keeps the mutex or gives it back. -/
theorem Mutex.leave (h : Mutex s) {t : T} {pc : QueuePc α} {q : BoundedQueue α}
    {o : Option T} {log : List (Section α)} (hold : QueuePc.holding (s.pc t) = true)
    (hasleep : QueuePc.isAsleep pc = false)
    (ho : o = s.holder ∨ QueuePc.holding pc = false) :
    Mutex { s.goto t pc with queue := q, holder := o, log := log } := by
  have hown := h.holder t hold
  refine ⟨?_, ?_⟩
  · intro u hu
    rcases goto_pc s t pc u with ⟨rfl, hpc⟩ | ⟨hne, hpc⟩
    · have hu : QueuePc.holding ((s.goto u pc).pc u) = true := hu
      rw [hpc] at hu
      rcases ho with rfl | ho
      · exact hown
      · rw [ho] at hu
        cases hu
    · have hu : QueuePc.holding ((s.goto t pc).pc u) = true := hu
      rw [hpc] at hu
      have hother := h.holder u hu
      rw [hown] at hother
      exact absurd (Option.some.inj hother).symm hne
  · intro u
    show u ∈ s.sleepers ↔ QueuePc.isAsleep ((s.goto t pc).pc u) = true
    rw [h.sleepers u]
    rcases goto_pc s t pc u with ⟨rfl, hpc⟩ | ⟨_, hpc⟩
    · rw [hpc, hasleep, QueuePc.not_asleep_of_holding hold]
    · rw [hpc]

/-- Somebody without the mutex goes on without it. -/
theorem Mutex.goto (h : Mutex s) {t : T} {pc : QueuePc α} (hhold : QueuePc.holding pc = false)
    (hasleep : QueuePc.isAsleep pc = QueuePc.isAsleep (s.pc t)) : Mutex (s.goto t pc) := by
  refine ⟨?_, ?_⟩
  · intro u hu
    rcases goto_pc s t pc u with ⟨rfl, hpc⟩ | ⟨_, hpc⟩
    · rw [hpc, hhold] at hu
      cases hu
    · rw [hpc] at hu
      exact h.holder u hu
  · intro u
    rw [show (s.goto t pc).sleepers = s.sleepers from rfl, h.sleepers u]
    rcases goto_pc s t pc u with ⟨rfl, hpc⟩ | ⟨_, hpc⟩
    · rw [hpc, hasleep]
    · rw [hpc]

theorem Mutex.wake (h : Mutex s) (t : T) : Mutex (s.wake t) := by
  refine ⟨?_, ?_⟩
  · intro u hu
    refine h.holder u ?_
    rcases wake_pc s t u with ⟨_, hpc⟩ | ⟨_, hpc⟩
    · rw [hpc, QueuePc.holding_woken] at hu
      exact hu
    · rw [hpc] at hu
      exact hu
  · intro u
    show u ∈ s.sleepers.filter (· ≠ t) ↔ _
    rw [List.mem_filter, h.sleepers u]
    rcases wake_pc s t u with ⟨rfl, hpc⟩ | ⟨hne, hpc⟩
    · rw [hpc, QueuePc.isAsleep_woken]
      simp
    · rw [hpc]
      simp [hne]

theorem mutex_step {a : QueueAct T α} (h : Mutex s) (hs : s.step c a = some s') : Mutex s' := by
  cases move_of_step hs with
  | call hpc => exact h.goto rfl (by rw [hpc]; rfl)
  | @lock t k call hpc hfree =>
      refine ⟨?_, ?_⟩
      · intro u hu
        rcases goto_pc s t call.locked u with ⟨rfl, _⟩ | ⟨_, hpc'⟩
        · rfl
        · have hu : QueuePc.holding ((s.goto t call.locked).pc u) = true := hu
          rw [hpc'] at hu
          have hheld := h.holder u hu
          rw [hfree] at hheld
          cases hheld
      · intro u
        show u ∈ s.sleepers ↔ QueuePc.isAsleep ((s.goto t call.locked).pc u) = true
        rw [h.sleepers u]
        rcases goto_pc s t call.locked u with ⟨rfl, hpc'⟩ | ⟨_, hpc'⟩
        · rw [hpc', hpc, QueueCall.isAsleep_locked]
          rfl
        · rw [hpc']
  | ready hpc hready => exact h.leave (by rw [hpc]; rfl) rfl (Or.inl rfl)
  | unready hpc hready => exact h.leave (by rw [hpc]; rfl) rfl (Or.inl rfl)
  | @sleep t k call hpc =>
      have hown := h.holder t (by rw [hpc]; rfl)
      refine ⟨?_, ?_⟩
      · intro u hu
        have hu : QueuePc.holding ((s.goto t (.asleep call)).pc u) = true := hu
        rcases goto_pc s t (.asleep call) u with ⟨_, hpc'⟩ | ⟨hne, hpc'⟩
        · rw [hpc'] at hu
          cases hu
        · rw [hpc'] at hu
          have hother := h.holder u hu
          rw [hown] at hother
          exact absurd (Option.some.inj hother).symm hne
      · intro u
        show u ∈ s.sleepers ++ [t] ↔ QueuePc.isAsleep ((s.goto t (.asleep call)).pc u) = true
        rw [List.mem_append, h.sleepers u, List.mem_singleton]
        rcases goto_pc s t (.asleep call) u with ⟨rfl, hpc'⟩ | ⟨hne, hpc'⟩
        · rw [hpc']
          simp [QueuePc.isAsleep]
        · rw [hpc']
          simp [hne]
  | @push t k value ok q hpc hq =>
      exact h.leave (by rw [hpc]; rfl) (by cases ok <;> rfl) (Or.inr (by cases ok <;> rfl))
  | @pop t k value q hpc hq =>
      exact h.leave (by rw [hpc]; rfl) (by cases value <;> rfl) (Or.inr (by cases value <;> rfl))
  | close hpc => exact h.leave (by rw [hpc]; rfl) rfl (Or.inl rfl)
  | @notifyOne t k hpc =>
      rcases notifyOne_cases s k with ⟨_, hk⟩ | ⟨u, hu, hk⟩
      · rw [hk]
        exact h.goto rfl (by rw [hpc]; rfl)
      · rw [hk]
        refine (h.wake u).goto rfl ?_
        rcases wake_pc s u t with ⟨_, hpc'⟩ | ⟨_, hpc'⟩ <;> rw [hpc', hpc] <;> rfl
  | @notifyAll t k hpc =>
      have hown := h.holder t (by rw [hpc]; rfl)
      refine ⟨?_, ?_⟩
      · intro u hu
        have hu : QueuePc.holding ((s.notifyAll.goto t .idle).pc u) = true := hu
        rcases goto_pc s.notifyAll t .idle u with ⟨_, hpc'⟩ | ⟨hne, hpc'⟩
        · rw [hpc'] at hu
          cases hu
        · rw [hpc', show s.notifyAll.pc u = (s.pc u).woken from rfl, QueuePc.holding_woken] at hu
          have hother := h.holder u hu
          rw [hown] at hother
          exact absurd (Option.some.inj hother).symm hne
      · intro u
        show u ∈ [] ↔ QueuePc.isAsleep ((s.notifyAll.goto t .idle).pc u) = true
        rcases goto_pc s.notifyAll t .idle u with ⟨_, hpc'⟩ | ⟨_, hpc'⟩
        · rw [hpc']
          simp [QueuePc.isAsleep]
        · rw [hpc', show s.notifyAll.pc u = (s.pc u).woken from rfl, QueuePc.isAsleep_woken]
          simp
  | spurious hpc => exact h.wake _

/-! ## One thread on either side -/

theorem Side.other_of_ne {t u : Side} (h : u ≠ t) : u.other = t := by
  cases t <;> cases u <;> first | rfl | exact absurd rfl h

/-- A sleeper whose predicate is true is about to be woken. -/
structure Awake (c : Nat) (s : QueueThreads Side α) : Prop where
  mutex : Mutex s
  calls : ∀ t call, QueuePc.call (s.pc t) = some call → t.calls call = true
  /-- Who is about to sleep has the mutex, so its test still counts. -/
  tested : ∀ t call, s.pc t = .sleep call → call.ready c s.queue = false
  coming : ∀ t call, s.pc t = .asleep call → call.ready c s.queue = true →
    QueuePc.notifying (s.pc t.other) = true

theorem awake_start (zero : α) : Awake c (start zero) where
  mutex := ⟨fun t h => (by cases h), fun t => (by simp [start, QueuePc.isAsleep])⟩
  calls := by intro t call h; cases h
  tested := by intro t call h; cases h
  coming := by intro t call h; cases h

section OneOnEitherSide

variable {s s' : QueueThreads Side α} {t : Side} {pc : QueuePc α}

/-- A step of a thread that was not about to notify, over the same queue. -/
theorem Awake.moves (h : Awake c s) (hm : Mutex s') (hq : s'.queue = s.queue)
    (hpc : s'.pc = (s.goto t pc).pc) (hold : QueuePc.notifying (s.pc t) = false)
    (hcall : ∀ call, QueuePc.call pc = some call → t.calls call = true)
    (hsleep : ∀ call, pc = .sleep call ∨ pc = .asleep call → call.ready c s.queue = false) :
    Awake c s' := by
  refine ⟨hm, ?_, ?_, ?_⟩
  · intro u call hu
    rw [hpc] at hu
    rcases goto_pc s t pc u with ⟨rfl, hpc'⟩ | ⟨_, hpc'⟩ <;> rw [hpc'] at hu
    · exact hcall call hu
    · exact h.calls u call hu
  · intro u call hu
    rw [hpc] at hu
    rw [hq]
    rcases goto_pc s t pc u with ⟨rfl, hpc'⟩ | ⟨_, hpc'⟩ <;> rw [hpc'] at hu
    · exact hsleep call (Or.inl hu)
    · exact h.tested u call hu
  · intro u call hu hready
    rw [hpc] at hu
    rw [hq] at hready
    rcases goto_pc s t pc u with ⟨rfl, hpc'⟩ | ⟨hne, hpc'⟩ <;> rw [hpc'] at hu
    · rw [hsleep call (Or.inr hu)] at hready
      cases hready
    · -- the sleeper was about to be woken by the one that moves
      have hcoming := h.coming u call hu hready
      rw [Side.other_of_ne hne, hold] at hcoming
      cases hcoming

/-- A critical section that changes the queue ends before a notification. -/
theorem Awake.stores (h : Awake c s) (hm : Mutex s') (hpc : s'.pc = (s.goto t pc).pc)
    (hhold : QueuePc.holding (s.pc t) = true) (hnotify : QueuePc.notifying pc = true) :
    Awake c s' := by
  have hown := h.mutex.holder t hhold
  have hnew : ∀ call, QueuePc.call pc ≠ some call := by
    intro call hcall
    cases pc with
    | notifyOne => cases hcall
    | notifyAll => cases hcall
    | _ => cases hnotify
  refine ⟨hm, ?_, ?_, ?_⟩
  · intro u call hu
    rw [hpc] at hu
    rcases goto_pc s t pc u with ⟨rfl, hpc'⟩ | ⟨_, hpc'⟩ <;> rw [hpc'] at hu
    · exact absurd hu (hnew call)
    · exact h.calls u call hu
  · intro u call hu
    rw [hpc] at hu
    rcases goto_pc s t pc u with ⟨rfl, hpc'⟩ | ⟨hne, hpc'⟩ <;> rw [hpc'] at hu
    · rw [hu] at hnotify
      cases hnotify
    · -- the mutex has one holder
      have hother := h.mutex.holder u (by rw [hu]; rfl)
      rw [hown] at hother
      exact absurd (Option.some.inj hother).symm hne
  · intro u call hu hready
    rw [hpc] at hu ⊢
    rcases goto_pc s t pc u with ⟨rfl, hpc'⟩ | ⟨hne, hpc'⟩ <;> rw [hpc'] at hu
    · rw [hu] at hnotify
      cases hnotify
    · rcases goto_pc s t pc u.other with ⟨_, hpc''⟩ | ⟨hne', _⟩
      · rw [hpc'']
        exact hnotify
      · exact absurd (Side.other_of_ne hne) hne'

/-- A notification leaves nobody asleep. -/
theorem Awake.notifies (h : Awake c s) (hm : Mutex s') (hq : s'.queue = s.queue)
    (hself : s'.pc t = .idle) (hother : s'.pc t.other = (s.pc t.other).woken) : Awake c s' := by
  have hcases : ∀ u, u = t ∨ u = t.other := by
    intro u
    by_cases hu : u = t
    · exact Or.inl hu
    · exact Or.inr (by rw [← Side.other_of_ne hu]; cases u <;> rfl)
  refine ⟨hm, ?_, ?_, ?_⟩
  · intro u call hu
    rcases hcases u with rfl | rfl
    · rw [hself] at hu
      cases hu
    · rw [hother, QueuePc.call_woken] at hu
      exact h.calls _ call hu
  · intro u call hu
    rw [hq]
    rcases hcases u with rfl | rfl
    · rw [hself] at hu
      cases hu
    · rw [hother] at hu
      refine h.tested t.other call ?_
      cases hpc : s.pc t.other <;> rw [hpc] at hu <;> first | exact hu | cases hu
  · intro u call hu _
    have hasleep : QueuePc.isAsleep (s'.pc u) = true := by rw [hu]; rfl
    rcases hcases u with rfl | rfl
    · rw [hself] at hasleep
      cases hasleep
    · rw [hother, QueuePc.isAsleep_woken] at hasleep
      cases hasleep

/-- `notify_one` finds the other thread if it sleeps. -/
theorem notifyOne_other (h : Mutex s) (k : Nat) (hself : QueuePc.isAsleep (s.pc t) = false) :
    (s.notifyOne k).pc t.other = (s.pc t.other).woken := by
  rcases notifyOne_cases s k with ⟨hnone, hk⟩ | ⟨u, hu, hk⟩
  · rw [hk]
    have hawake : ¬QueuePc.isAsleep (s.pc t.other) = true := by
      rw [← h.sleepers, hnone]
      exact List.not_mem_nil
    cases hpc : s.pc t.other with
    | asleep call =>
        rw [hpc] at hawake
        exact absurd rfl hawake
    | _ => rfl
  · rw [hk]
    have hne : u ≠ t := by
      rintro rfl
      rw [h.sleepers, hself] at hu
      cases hu
    obtain rfl : u = t.other := by
      rw [← Side.other_of_ne hne]
      cases u <;> rfl
    rcases wake_pc s t.other t.other with ⟨_, hpc⟩ | ⟨hbad, _⟩
    · exact hpc
    · exact absurd rfl hbad

end OneOnEitherSide

theorem push_of_false {q q' : BoundedQueue α} {value : α} (h : q.push c value = some (false, q')) :
    q' = q := by
  unfold BoundedQueue.push at h
  split at h
  · simpa using h.symm
  · split at h
    · simp at h
    · cases h

theorem pop_of_none {q q' : BoundedQueue α} (h : q.pop c = some (none, q')) : q' = q := by
  unfold BoundedQueue.pop at h
  split at h
  · split at h
    · simpa using h.symm
    · cases h
  · simp at h

theorem awake_step {s s' : QueueThreads Side α} {a : QueueAct Side α} (h : Awake c s)
    (ha : keepsSide a = true) (hs : s.step c a = some s') : Awake c s' := by
  have hm := mutex_step h.mutex hs
  have hsame : ∀ {t : Side} {call : QueueCall α}, QueuePc.call (s.pc t) = some call →
      ∀ call', some call = some call' → t.calls call' = true := by
    intro t call hpc call' heq
    obtain rfl := Option.some.inj heq
    exact h.calls t call hpc
  cases move_of_step hs with
  | @call t call hpc =>
      refine h.moves hm rfl rfl (by rw [hpc]; rfl) ?_ ?_
      · intro call' heq
        obtain rfl := Option.some.inj heq
        exact ha
      · rintro call' (hc | hc) <;> cases hc
  | @lock t k call hpc hfree =>
      refine h.moves hm rfl rfl (by rw [hpc]; rfl) ?_ ?_
      · cases call with
        | close => exact hsame (by rw [hpc]; rfl)
        | push value => exact hsame (by rw [hpc]; rfl)
        | pop => exact hsame (by rw [hpc]; rfl)
      · rintro call' (hc | hc) <;> cases call <;> cases hc
  | @ready t k call hpc hready =>
      refine h.moves hm rfl rfl (by rw [hpc]; rfl) (hsame (by rw [hpc]; rfl)) ?_
      rintro call' (hc | hc) <;> cases hc
  | @unready t k call hpc hready =>
      refine h.moves hm rfl rfl (by rw [hpc]; rfl) (hsame (by rw [hpc]; rfl)) ?_
      rintro call' (hc | hc)
      · cases hc
        exact hready
      · cases hc
  | @sleep t k call hpc =>
      refine h.moves hm rfl rfl (by rw [hpc]; rfl) (hsame (by rw [hpc]; rfl)) ?_
      rintro call' (hc | hc) <;> cases hc
      exact h.tested t call hpc
  | @push t k value ok q hpc hq =>
      cases ok with
      | true => exact h.stores hm rfl (by rw [hpc]; rfl) rfl
      | false =>
          refine h.moves hm (push_of_false hq) rfl (by rw [hpc]; rfl) (fun _ hc => (by cases hc)) ?_
          rintro call' (hc | hc) <;> cases hc
  | @pop t k value q hpc hq =>
      cases value with
      | some v => exact h.stores hm rfl (by rw [hpc]; rfl) rfl
      | none =>
          refine h.moves hm (pop_of_none hq) rfl (by rw [hpc]; rfl) (fun _ hc => (by cases hc)) ?_
          rintro call' (hc | hc) <;> cases hc
  | close hpc => exact h.stores hm rfl (by rw [hpc]; rfl) rfl
  | @notifyOne t k hpc =>
      have hq : (s.notifyOne k).queue = s.queue := by
        rcases notifyOne_cases s k with ⟨_, hk⟩ | ⟨u, _, hk⟩
        · rw [hk]
        · rw [hk]
          rfl
      have hother := notifyOne_other h.mutex k (t := t) (by rw [hpc]; rfl)
      refine h.notifies hm hq (t := t) ?_ ?_
      · simp [QueueThreads.goto]
      · rw [← hother]
        cases t <;> simp [QueueThreads.goto, Side.other]
  | @notifyAll t k hpc =>
      refine h.notifies hm rfl (t := t) ?_ ?_
      · simp [QueueThreads.goto]
      · cases t <;> simp [QueueThreads.goto, QueueThreads.notifyAll, Side.other]
  | @spurious t call hpc =>
      have hgoto : (s.wake t).pc = (s.goto t (.lock call)).pc := by
        rw [QueueThreads.wake, hpc]
        rfl
      refine h.moves hm rfl hgoto (by rw [hpc]; rfl) (hsame (by rw [hpc]; rfl)) ?_
      rintro call' (hc | hc) <;> cases hc

theorem awake_reachable {zero : α} {s : QueueThreads Side α} (h : ReachableSides c zero s) :
    Awake c s := by
  refine Transition.Reachable.invariant ?_ (fun _ _ _ hi ha hs => awake_step hi ha hs) h
  rintro _ rfl
  exact awake_start zero

/--
**No wakeup is lost between one pusher and one popper.**

For every capacity, in every interleaving of a thread that pushes and closes and a thread
that pops, with notifications after the unlock and wakeups for no reason: a thread that
sleeps although its predicate is true still has a wakeup coming, the other thread being
between its critical section and its notification; and the two never sleep both.
-/
theorem no_lost_wakeup {zero : α} {s : QueueThreads Side α} (hc : 0 < c)
    (h : ReachableSides c zero s) :
    (∀ t call, s.pc t = .asleep call → call.ready c s.queue = true →
        s.pc t.other = .notifyOne ∨ s.pc t.other = .notifyAll)
      ∧ ¬∃ call call', s.pc .pusher = .asleep call ∧ s.pc .popper = .asleep call' := by
  have hi := awake_reachable h
  refine ⟨?_, ?_⟩
  · intro t call hpc hready
    have hcoming := hi.coming t call hpc hready
    cases hother : s.pc t.other with
    | notifyOne => exact Or.inl rfl
    | notifyAll => exact Or.inr rfl
    | _ =>
        rw [hother] at hcoming
        cases hcoming
  · rintro ⟨call, call', hpush, hpop⟩
    -- each sleeps with its predicate false: the queue is full and empty
    have hfull : call.ready c s.queue = false := by
      rw [← Bool.not_eq_true]
      intro hready
      have hcoming := hi.coming .pusher call hpush hready
      rw [show Side.pusher.other = .popper from rfl, hpop] at hcoming
      cases hcoming
    have hempty : call'.ready c s.queue = false := by
      rw [← Bool.not_eq_true]
      intro hready
      have hcoming := hi.coming .popper call' hpop hready
      rw [show Side.popper.other = .pusher from rfl, hpush] at hcoming
      cases hcoming
    have hcall := hi.calls .pusher call (by rw [hpush]; rfl)
    have hcall' := hi.calls .popper call' (by rw [hpop]; rfl)
    cases call' with
    | push value => cases hcall'
    | close => cases hcall'
    | pop =>
        cases call with
        | pop => cases hcall
        | close => cases hfull
        | push value =>
            simp only [QueueCall.ready, Bool.or_eq_false_iff, decide_eq_false_iff_not] at hfull hempty
            omega

/-- The popper sleeps on an empty queue, the pusher has stored a value and not notified yet. -/
def pushUnnoticed : List (QueueAct Side Nat) :=
  [.call .popper .pop, .run .popper 0, .run .popper 0, .run .popper 0, .call .pusher (.push 5),
    .run .pusher 0, .run .pusher 0, .run .pusher 0]

theorem no_lost_wakeup_unnoticed :
    ∃ s : QueueThreads Side Nat, ReachableSides 1 0 s ∧ s.pc .popper = .asleep .pop
      ∧ s.queue.size = 1 ∧ (s.pc .pusher = .notifyOne ∨ s.pc .pusher = .notifyAll) := by
  have h : (Transition.execWhen (step 1) (fun _ a => keepsSide a) (start 0) pushUnnoticed).any
      (fun s => decide (s.pc .popper = .asleep .pop) && decide (s.queue.size = 1)) = true := by
    decide
  obtain ⟨s, hrun, hs⟩ := Option.any_eq_true _ _ |>.mp h
  simp only [Bool.and_eq_true, decide_eq_true_eq] at hs
  have hr : ReachableSides 1 0 s :=
    Transition.Reachable.execWhen (fun _ _ hg => hg) _ (.init rfl) hrun
  refine ⟨s, hr, hs.1, hs.2, (no_lost_wakeup (by decide) hr).1 .popper .pop hs.1 ?_⟩
  simp [QueueCall.ready, hs.2]

end QueueThreads

end RateHub
