import RateHub.Lib.Cyclic
import RateHub.Sync.SpscRing

/-!
# The ring is a FIFO, whoever is killed

The invariant is stated over the history counters, where nothing wraps: with `P`
pushes and `Q` pops behind it, the ring's indexes are `P` and `Q` reduced to the
capacity, `Q ≤ P < Q + Capacity`, and the slots from `Q` up to `P` hold the values
pushed there. A call in progress adds what its locals know: an index it loaded
is still the current one, because nobody else stores it, and a full or empty
check it passed stays passed, because the other side only makes room.

A kill forgets the call and keeps the object, so it preserves all of this
trivially; that is the whole of the argument for process replacement.
-/

namespace RateHub

/-! ## Indexes as reduced counters -/

/-- The slot index of the `i`-th record of the history. -/
def Capacity.index (C : Capacity) (i : Nat) : UInt32 := UInt32.ofNat (i % C.size)

namespace Capacity

variable (C : Capacity)

theorem two_le_size : 2 ≤ C.size := UInt32.le_iff_toNat_le.mp C.two_le

theorem size_le : C.size < 2 ^ 32 := C.val.toNat_lt

theorem toNat_and_mask (x : UInt32) : (x &&& C.mask).toNat = x.toNat % C.size :=
  Cyclic.toNat_and_pred C.two_le C.pow_two x

theorem mod_wrap (x : Nat) : x % 2 ^ 32 % C.size = x % C.size :=
  Cyclic.mod_wrap C.two_le C.pow_two x

@[simp] theorem index_toNat (i : Nat) : (C.index i).toNat = i % C.size := by
  have h1 := C.size_le
  have h2 := C.two_le_size
  have h3 : i % C.size < C.size := Nat.mod_lt _ (by omega)
  rw [index, UInt32.toNat_ofNat']
  exact Nat.mod_eq_of_lt (by omega)

theorem index_lt (i : Nat) : (C.index i).toNat < C.size := by
  have := C.two_le_size
  rw [index_toNat]
  exact Nat.mod_lt _ (by omega)

/-- Within one lap an index names one record. -/
theorem index_inj {a b : Nat} (hab : a ≤ b) (hlt : b < a + C.size) (h : C.index a = C.index b) :
    a = b := by
  have h' := congrArg UInt32.toNat h
  rw [index_toNat, index_toNat] at h'
  exact Cyclic.eq_of_mod_eq hab hlt h'

/-- `(index + k) & kMask` walks `k` records further. -/
theorem index_add (i k : Nat) : (C.index i + UInt32.ofNat k) &&& C.mask = C.index (i + k) := by
  apply UInt32.toNat_inj.mp
  rw [toNat_and_mask, UInt32.toNat_add, index_toNat, index_toNat, UInt32.toNat_ofNat',
    mod_wrap, Nat.add_mod, Nat.mod_mod, mod_wrap, ← Nat.add_mod]

theorem next_index (i : Nat) : SpscRing.next C (C.index i) = C.index (i + 1) := index_add C i 1

/-- The masked difference of two indexes is the distance of their counters. -/
theorem index_sub {a b : Nat} (hab : a ≤ b) (hlt : b < a + C.size) :
    ((C.index b - C.index a) &&& C.mask).toNat = b - a := by
  have h2 := C.two_le_size
  have ha : a % C.size < C.size := Nat.mod_lt _ (by omega)
  have hs := C.size_le
  rw [toNat_and_mask, UInt32.toNat_sub, index_toNat, index_toNat, mod_wrap]
  -- adding the read index back gives the write index, up to whole laps
  have hback : (2 ^ 32 - a % C.size + b % C.size) + a % C.size = 2 ^ 32 + b % C.size := by omega
  have hlap : 2 ^ 32 % C.size = 0 := by
    obtain ⟨k, hk, hk31⟩ := Cyclic.exists_pow C.two_le C.pow_two
    rw [Capacity.size, hk]
    exact Nat.mod_eq_zero_of_dvd (Nat.pow_dvd_pow 2 (by omega))
  have hmod : (2 ^ 32 - a % C.size + b % C.size) + a ≡ (b - a) + a [MOD C.size] := by
    have hsum : b - a + a = b := by omega
    have hred : (2 ^ 32 - a % C.size + b % C.size) + a
        ≡ (2 ^ 32 - a % C.size + b % C.size) + a % C.size [MOD C.size] :=
      Nat.ModEq.add_left _ (Nat.mod_modEq a C.size).symm
    refine hred.trans ?_
    rw [hback, hsum, Nat.ModEq, Nat.add_mod, hlap, Nat.zero_add, Nat.mod_mod, Nat.mod_mod]
  have hdiff := Nat.ModEq.add_right_cancel' a hmod
  rw [Nat.ModEq, Nat.mod_eq_of_lt (a := b - a) (by omega)] at hdiff
  exact hdiff

end Capacity

namespace SpscRing

variable {α : Type} {C : Capacity}

/-! ## The invariant -/

/-- What the shared fields say about the history. -/
structure Inv (r : SpscRing α C) : Prop where
  write_eq : r.write = C.index r.pushed.length
  read_eq : r.read = C.index r.popped.length
  popped_prefix : r.popped <+: r.pushed
  /-- One slot stays empty. -/
  room : r.pushed.length < r.popped.length + C.size
  /-- Every record not yet popped is still in its slot. -/
  slot : ∀ i v, r.popped.length ≤ i → r.pushed[i]? = some v → r.slots (C.index i) = v

/-- What a `try_push` in progress knows. -/
def PushOk (r : SpscRing α C) : PushPc α → Prop
  | .idle => True
  | .loadWrite _ => True
  | .loadRead _ w => w = r.write
  | .copy _ w => w = r.write ∧ r.pushed.length + 1 < r.popped.length + C.size
  | .storeWrite v w =>
      w = r.write ∧ r.pushed.length + 1 < r.popped.length + C.size ∧ r.slots w = v

/-- What a `try_pop` in progress knows. -/
def PopOk (r : SpscRing α C) : PopPc α → Prop
  | .idle => True
  | .loadRead => True
  | .loadWrite q => q = r.read
  | .copy q => q = r.read ∧ r.popped.length < r.pushed.length
  | .storeRead q out => q = r.read ∧ r.pushed[r.popped.length]? = some out

/-- The object and both calls in progress. -/
structure CallInv (r : SpscRing α C) (p : PushPc α) (c : PopPc α) : Prop where
  ring : Inv r
  push : PushOk r p
  pop : PopOk r c

theorem Inv.length_le {r : SpscRing α C} (h : Inv r) : r.popped.length ≤ r.pushed.length :=
  h.popped_prefix.length_le

theorem inv_init (zero : α) : Inv (init zero : SpscRing α C) where
  write_eq := rfl
  read_eq := rfl
  popped_prefix := List.prefix_rfl
  room := by
    have := C.two_le_size
    simp only [init, List.length_nil]
    omega
  slot := by intro i v _ h; simp [init] at h

/-- The full check is exact. -/
theorem Inv.full_iff {r : SpscRing α C} (h : Inv r) :
    next C r.write = r.read ↔ r.pushed.length + 1 = r.popped.length + C.size := by
  rw [h.write_eq, h.read_eq, C.next_index, ← UInt32.toNat_inj, C.index_toNat, C.index_toNat]
  exact Cyclic.succ_mod_eq_iff h.length_le h.room

/-- The empty check is exact. -/
theorem Inv.empty_iff {r : SpscRing α C} (h : Inv r) :
    r.read = r.write ↔ r.popped.length = r.pushed.length := by
  rw [h.write_eq, h.read_eq]
  constructor
  · exact C.index_inj h.length_le h.room
  · intro heq
    rw [heq]

/-- The write slot lies outside the records still waiting. -/
theorem Inv.write_ne {r : SpscRing α C} (h : Inv r)
    (hroom : r.pushed.length + 1 < r.popped.length + C.size) {i : Nat}
    (hi : r.popped.length ≤ i) (hlt : i < r.pushed.length) : C.index i ≠ r.write := by
  intro heq
  rw [h.write_eq] at heq
  have := C.index_inj (by omega) (by omega) heq
  omega

/-- Storing anything to the write slot is invisible to the consumer. -/
theorem CallInv.update_write {r : SpscRing α C} {p : PushPc α} {c : PopPc α}
    (h : CallInv r p c) (hroom : r.pushed.length + 1 < r.popped.length + C.size) (x : α)
    {p' : PushPc α} (hp' : PushOk (r.setSlot r.write x) p') :
    CallInv (r.setSlot r.write x) p' c where
  ring :=
    { write_eq := h.ring.write_eq
      read_eq := h.ring.read_eq
      popped_prefix := h.ring.popped_prefix
      room := h.ring.room
      slot := by
        intro i v hi hv
        have hlt : i < r.pushed.length := (List.getElem?_eq_some_iff.mp hv).1
        have hne := h.ring.write_ne hroom hi hlt
        simpa [setSlot, Function.update_of_ne hne] using h.ring.slot i v hi hv }
  push := hp'
  pop := by
    have hpop := h.pop
    cases c <;> exact hpop

/-- **One access of `try_push` keeps the invariant.** -/
theorem CallInv.pushStep {r : SpscRing α C} {p : PushPc α} {c : PopPc α} (h : CallInv r p c) :
    CallInv (pushStep r p).1 (pushStep r p).2.1 c := by
  have hle := h.ring.length_le
  cases p with
  | idle => exact h
  | loadWrite v => exact ⟨h.ring, rfl, h.pop⟩
  | loadRead v w =>
      have hw : w = r.write := h.push
      simp only [SpscRing.pushStep]
      split
      · exact ⟨h.ring, trivial, h.pop⟩
      · rename_i hne
        refine ⟨h.ring, ⟨hw, ?_⟩, h.pop⟩
        rw [hw, h.ring.full_iff] at hne
        have := h.ring.room
        show r.pushed.length + 1 < r.popped.length + C.size
        omega
  | copy v w =>
      obtain ⟨hw, hroom⟩ := h.push
      subst hw
      exact h.update_write hroom v ⟨rfl, hroom, by simp [setSlot]⟩
  | storeWrite v w =>
      obtain ⟨hw, hroom, hslot⟩ := h.push
      subst hw
      refine ⟨?_, trivial, ?_⟩
      · refine ⟨?_, h.ring.read_eq, h.ring.popped_prefix.trans (List.prefix_append _ _), ?_, ?_⟩
        · simp only [SpscRing.pushStep, List.length_append, List.length_singleton]
          rw [h.ring.write_eq, C.next_index]
        · simpa [SpscRing.pushStep] using hroom
        · intro i x hi hx
          simp only [SpscRing.pushStep] at hi hx ⊢
          rcases Nat.lt_or_ge i r.pushed.length with hlt | hge
          · rw [List.getElem?_append_left hlt] at hx
            exact h.ring.slot i x hi hx
          · rw [List.getElem?_append_right hge] at hx
            obtain ⟨hz, hvx⟩ := List.getElem?_eq_some_iff.mp hx
            simp only [List.length_singleton, Nat.lt_one_iff] at hz
            simp only [hz, List.getElem_cons_zero] at hvx
            have hi' : i = r.pushed.length := by omega
            rw [hi', ← h.ring.write_eq, hslot, hvx]
      · have hpop := h.pop
        cases c with
        | idle => trivial
        | loadRead => trivial
        | loadWrite q => exact hpop
        | copy q =>
            refine ⟨hpop.1, ?_⟩
            have := hpop.2
            simp only [SpscRing.pushStep, List.length_append, List.length_singleton]
            omega
        | storeRead q out =>
            refine ⟨hpop.1, ?_⟩
            have hlt := (List.getElem?_eq_some_iff.mp hpop.2).1
            simpa [SpscRing.pushStep, List.getElem?_append_left hlt] using hpop.2

/-- **One access of `try_pop` keeps the invariant.** -/
theorem CallInv.popStep {r : SpscRing α C} {p : PushPc α} {c : PopPc α} (h : CallInv r p c) :
    CallInv (popStep r c).1 p (popStep r c).2.1 := by
  have hle := h.ring.length_le
  cases c with
  | idle => exact h
  | loadRead => exact ⟨h.ring, h.push, rfl⟩
  | loadWrite q =>
      have hq : q = r.read := h.pop
      simp only [SpscRing.popStep]
      split
      · exact ⟨h.ring, h.push, trivial⟩
      · rename_i hne
        refine ⟨h.ring, h.push, hq, ?_⟩
        rw [hq, h.ring.empty_iff] at hne
        show r.popped.length < r.pushed.length
        omega
  | copy q =>
      obtain ⟨hq, hlt⟩ := h.pop
      subst hq
      refine ⟨h.ring, h.push, rfl, ?_⟩
      have hget : r.pushed[r.popped.length]? = some r.pushed[r.popped.length] :=
        List.getElem?_eq_getElem hlt
      have hslot := h.ring.slot _ _ (Nat.le_refl _) hget
      rw [h.ring.read_eq, hslot]
      exact hget
  | storeRead q out =>
      obtain ⟨hq, hout⟩ := h.pop
      subst hq
      have hlt := (List.getElem?_eq_some_iff.mp hout).1
      refine ⟨?_, ?_, trivial⟩
      · refine ⟨h.ring.write_eq, ?_, ?_, ?_, ?_⟩
        · simp only [SpscRing.popStep, List.length_append, List.length_singleton]
          rw [h.ring.read_eq, C.next_index]
        · -- the popped record is the one the history has next
          simp only [SpscRing.popStep]
          obtain ⟨rest, hrest⟩ := h.ring.popped_prefix
          rw [← hrest] at hout ⊢
          rw [List.getElem?_append_right (Nat.le_refl _), Nat.sub_self] at hout
          obtain ⟨tail, rfl⟩ : ∃ tail, rest = out :: tail := by
            cases rest with
            | nil => simp at hout
            | cons x tail => exact ⟨tail, by simpa using hout⟩
          exact ⟨tail, by simp⟩
        · have := h.ring.room
          simp only [SpscRing.popStep, List.length_append, List.length_singleton]
          omega
        · intro i v hi hv
          simp only [SpscRing.popStep, List.length_append, List.length_singleton] at hi
          exact h.ring.slot i v (by omega) hv
      · have hpush := h.push
        cases p with
        | idle => trivial
        | loadWrite v => trivial
        | loadRead v w => exact hpush
        | copy v w =>
            refine ⟨hpush.1, ?_⟩
            have := hpush.2
            simp only [SpscRing.popStep, List.length_append, List.length_singleton]
            omega
        | storeWrite v w =>
            refine ⟨hpush.1, ?_, hpush.2.2⟩
            have := hpush.2.1
            simp only [SpscRing.popStep, List.length_append, List.length_singleton]
            omega

/-! ## The contents, read off the object -/

theorem Inv.occupied_toNat {r : SpscRing α C} (h : Inv r) :
    r.occupied.toNat = r.pushed.length - r.popped.length := by
  rw [occupied, h.write_eq, h.read_eq]
  exact C.index_sub h.length_le h.room

/-- The waiting records are exactly those pushed and not yet popped. -/
theorem Inv.waiting_eq {r : SpscRing α C} (h : Inv r) :
    r.waiting = r.pushed.drop r.popped.length := by
  have hle := h.length_le
  apply List.ext_getElem?
  intro i
  simp only [waiting, List.getElem?_map, List.getElem?_drop, h.occupied_toNat, h.read_eq,
    C.index_add]
  rcases Nat.lt_or_ge i (r.pushed.length - r.popped.length) with hlt | hge
  · have hin : r.popped.length + i < r.pushed.length := by omega
    have hget := List.getElem?_eq_getElem hin
    rw [List.getElem?_range hlt, hget]
    exact congrArg some (h.slot _ _ (by omega) hget)
  · rw [List.getElem?_eq_none (by simpa using hge), List.getElem?_eq_none (by omega)]
    rfl

theorem Inv.pushed_eq {r : SpscRing α C} (h : Inv r) : r.pushed = r.popped ++ r.waiting := by
  obtain ⟨rest, hrest⟩ := h.popped_prefix
  rw [h.waiting_eq, ← hrest, List.drop_left]

theorem Inv.waiting_length {r : SpscRing α C} (h : Inv r) :
    r.waiting.length = r.pushed.length - r.popped.length := by
  rw [h.waiting_eq, List.length_drop]

/-- A push in progress is told "full" only when no room is left. -/
theorem CallInv.push_false {r : SpscRing α C} {p : PushPc α} {c : PopPc α} (h : CallInv r p c)
    (hfalse : (SpscRing.pushStep r p).2.2 = some false) : r.waiting.length = C.size - 1 := by
  have hle := h.ring.length_le
  have hroom := h.ring.room
  cases p with
  | loadRead v w =>
      have hw : w = r.write := h.push
      simp only [SpscRing.pushStep] at hfalse
      split at hfalse
      · rename_i heq
        rw [hw, h.ring.full_iff] at heq
        rw [h.ring.waiting_length]
        omega
      · exact absurd hfalse (by simp)
  | idle => exact absurd hfalse (by simp [SpscRing.pushStep])
  | loadWrite v => exact absurd hfalse (by simp [SpscRing.pushStep])
  | copy v w => exact absurd hfalse (by simp [SpscRing.pushStep])
  | storeWrite v w => exact absurd hfalse (by simp [SpscRing.pushStep])

/-- A pop in progress is told "empty" only when nothing waits. -/
theorem CallInv.pop_false {r : SpscRing α C} {p : PushPc α} {c : PopPc α} (h : CallInv r p c)
    (hfalse : (SpscRing.popStep r c).2.2 = some none) : r.waiting = [] := by
  cases c with
  | loadWrite q =>
      have hq : q = r.read := h.pop
      simp only [SpscRing.popStep] at hfalse
      split at hfalse
      · rename_i heq
        rw [hq, h.ring.empty_iff] at heq
        rw [h.ring.waiting_eq, heq, List.drop_length]
      · exact absurd hfalse (by simp)
  | idle => exact absurd hfalse (by simp [SpscRing.popStep])
  | loadRead => exact absurd hfalse (by simp [SpscRing.popStep])
  | copy q => exact absurd hfalse (by simp [SpscRing.popStep])
  | storeRead q out => exact absurd hfalse (by simp [SpscRing.popStep])

/-! ## Every run -/

theorem callInv_step {s s' : State α C} {a : Act α} (h : CallInv s.ring s.producer s.consumer)
    (hs : s.step a = some s') : CallInv s'.ring s'.producer s'.consumer := by
  cases a with
  | callPush v =>
      simp only [State.step] at hs
      split at hs
      · obtain rfl := Option.some.inj hs
        exact ⟨h.ring, trivial, h.pop⟩
      · exact absurd hs (by simp)
  | producer =>
      simp only [State.step] at hs
      split at hs
      · exact absurd hs (by simp)
      · obtain rfl := Option.some.inj hs
        exact h.pushStep
  | tear junk =>
      simp only [State.step] at hs
      split at hs
      · rename_i v w hp
        obtain rfl := Option.some.inj hs
        have hpush := h.push
        rw [hp] at hpush
        obtain ⟨hw, hroom⟩ := hpush
        subst hw
        exact h.update_write hroom junk (by rw [hp]; exact ⟨rfl, hroom⟩)
      · exact absurd hs (by simp)
  | callPop =>
      simp only [State.step] at hs
      split at hs
      · obtain rfl := Option.some.inj hs
        exact ⟨h.ring, h.push, trivial⟩
      · exact absurd hs (by simp)
  | consumer =>
      simp only [State.step] at hs
      split at hs
      · exact absurd hs (by simp)
      · obtain rfl := Option.some.inj hs
        exact h.popStep
  | killProducer =>
      obtain rfl := Option.some.inj hs
      exact ⟨h.ring, trivial, h.pop⟩
  | killConsumer =>
      obtain rfl := Option.some.inj hs
      exact ⟨h.ring, h.push, trivial⟩

theorem callInv_reachable {zero : α} {s : State α C} (h : Reachable zero s) :
    CallInv s.ring s.producer s.consumer := by
  refine Transition.Reachable.invariant
    (I := fun s => CallInv s.ring s.producer s.consumer) ?_ ?_ h
  · rintro s rfl
    exact ⟨inv_init zero, trivial, trivial⟩
  · intro s a s' hi _ hs
    exact callInv_step hi hs

/-- The step is the index store of a call, the point where the call takes effect. -/
def Commits (s : State α C) : Act α → Prop
  | .producer => ∃ v w, s.producer = .storeWrite v w
  | .consumer => ∃ q out, s.consumer = .storeRead q out
  | _ => False

/-- Apart from the index stores, a step moves neither history. -/
theorem history_of_not_commits {s s' : State α C} {a : Act α} (hs : s.step a = some s')
    (hc : ¬ Commits s a) :
    s'.ring.pushed = s.ring.pushed ∧ s'.ring.popped = s.ring.popped := by
  cases a with
  | producer =>
      simp only [State.step] at hs
      split at hs
      · exact absurd hs (by simp)
      · obtain rfl := Option.some.inj hs
        cases hp : s.producer with
        | storeWrite v w => exact absurd ⟨v, w, hp⟩ hc
        | loadRead v w => simp only [pushStep]; split <;> exact ⟨rfl, rfl⟩
        | idle => exact ⟨rfl, rfl⟩
        | loadWrite v => exact ⟨rfl, rfl⟩
        | copy v w => exact ⟨rfl, rfl⟩
  | consumer =>
      simp only [State.step] at hs
      split at hs
      · exact absurd hs (by simp)
      · obtain rfl := Option.some.inj hs
        cases hp : s.consumer with
        | storeRead q out => exact absurd ⟨q, out, hp⟩ hc
        | loadWrite q => simp only [popStep]; split <;> exact ⟨rfl, rfl⟩
        | idle => exact ⟨rfl, rfl⟩
        | loadRead => exact ⟨rfl, rfl⟩
        | copy q => exact ⟨rfl, rfl⟩
  | callPush v => simp only [State.step] at hs; split at hs <;> simp at hs; subst hs; exact ⟨rfl, rfl⟩
  | callPop => simp only [State.step] at hs; split at hs <;> simp at hs; subst hs; exact ⟨rfl, rfl⟩
  | tear junk => simp only [State.step] at hs; split at hs <;> simp at hs; subst hs; exact ⟨rfl, rfl⟩
  | killProducer => obtain rfl := Option.some.inj hs; exact ⟨rfl, rfl⟩
  | killConsumer => obtain rfl := Option.some.inj hs; exact ⟨rfl, rfl⟩

/-- Neither side ever addresses a slot outside the array. -/
theorem access_in_bounds {zero : α} {s : State α C} (h : Reachable zero s) :
    (∀ v w, s.producer = .copy v w → w.toNat < C.size)
      ∧ (∀ q, s.consumer = .copy q → q.toNat < C.size) := by
  have hi := callInv_reachable h
  constructor
  · intro v w hp
    have hpush := hi.push
    rw [hp] at hpush
    rw [hpush.1, hi.ring.write_eq]
    exact C.index_lt _
  · intro q hc
    have hpop := hi.pop
    rw [hc] at hpop
    rw [hpop.1, hi.ring.read_eq]
    exact C.index_lt _

/--
**The ring is a FIFO across process replacement.**

In every state of every interleaving, with any number of producers and consumers
killed between any two accesses and replaced:

* the pops that took effect are a prefix of the pushes that took effect, and the
  rest of them is exactly what the slots between the indexes hold;
* at most `Capacity - 1` records wait;
* a producer about to store into a slot and a consumer about to read one are at
  different slots;
* the access that makes `try_push` return false (its `read_` load) finds
  `Capacity - 1` records, the one that makes `try_pop` return false (its
  `write_` load) finds none;
* only the index store of a successful call changes the contents: a call that
  fails, or that is killed before that store, leaves them as they were.
-/
theorem ring_fifo {zero : α} {s : State α C} (h : Reachable zero s) :
    s.ring.popped <+: s.ring.pushed
      ∧ s.ring.pushed = s.ring.popped ++ s.ring.waiting
      ∧ s.ring.waiting.length ≤ C.size - 1
      ∧ (∀ v w q, s.producer = .copy v w → s.consumer = .copy q → w ≠ q)
      ∧ ((pushStep s.ring s.producer).2.2 = some false → s.ring.waiting.length = C.size - 1)
      ∧ ((popStep s.ring s.consumer).2.2 = some none → s.ring.waiting = [])
      ∧ (∀ a s', s.step a = some s' → ¬ Commits s a → s'.ring.waiting = s.ring.waiting) := by
  have hi := callInv_reachable h
  have hle := hi.ring.length_le
  have hroom := hi.ring.room
  refine ⟨hi.ring.popped_prefix, hi.ring.pushed_eq, ?_, ?_, hi.push_false, hi.pop_false, ?_⟩
  · rw [hi.ring.waiting_length]
    omega
  · intro v w q hp hc
    have hpush := hi.push
    have hpop := hi.pop
    rw [hp] at hpush
    rw [hc] at hpop
    rw [hpush.1, hpop.1, hi.ring.read_eq]
    exact (hi.ring.write_ne hpush.2 (Nat.le_refl _) hpop.2).symm
  · intro a s' hs hc
    have hi' := callInv_step hi hs
    obtain ⟨h1, h2⟩ := history_of_not_commits hs hc
    rw [hi'.ring.waiting_eq, hi.ring.waiting_eq, h1, h2]

/-- A ring of four slots holds three records. -/
def four : Capacity := ⟨4, by decide, by decide⟩

/-- A push that took effect, then a consumer killed after it copied the slot. -/
theorem ring_fifo_killed_consumer :
    ∃ s : State Nat four, s.ring.pushed = [7] ∧ s.ring.popped = []
      ∧ s.ring.pushed = s.ring.popped ++ s.ring.waiting := by
  have h : ∃ s, Transition.exec State.step (State.start 0 : State Nat four)
      [.callPush 7, .producer, .producer, .tear 3, .producer, .producer,
        .callPop, .consumer, .consumer, .consumer, .killConsumer] = some s
      ∧ s.ring.pushed = [7] ∧ s.ring.popped = [] := ⟨_, rfl, rfl, rfl⟩
  obtain ⟨s, hs, hpushed, hpopped⟩ := h
  have hr : Reachable 0 s := Transition.Reachable.exec (fun _ _ => trivial) _ (.init rfl) hs
  exact ⟨s, hpushed, hpopped, (ring_fifo hr).2.1⟩

end SpscRing

end RateHub
