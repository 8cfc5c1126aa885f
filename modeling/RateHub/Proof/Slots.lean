import RateHub.Proof.Attempts
import RateHub.Sync.SeqlockProof

/-!
# The two arrays of slots

`latest` is written by the fast thread and `window` by the window thread, one slot at a
time, and nobody constructs either again between attempts. `Slots` is the seqlock's
invariant for all 128 of them, with the call that each writer has in progress, and one
thing more: a window slot is empty as long as the slot it is sampled from is.

A process that is killed between the odd and the even store leaves its slot odd. So the
invariant of an attempt is that of the attempt before it exactly when every sequence
word is even in between, and `Resting` is what is known then.
-/

namespace RateHub

open Seqlock

/-- The publish to `latest[id]` that the fast thread has in progress. -/
def FastPc.call (pc : FastPc) (id : Fin kMaxSources) : PubPc SourceState :=
  match pc with
  | .publish j call _ => if j = id then call else .idle
  | _ => .idle

/-- The publish to `window[id]` that the window thread has in progress. -/
def WindowPc.call (pc : WindowPc) (id : Fin kMaxSources) : PubPc WindowState :=
  match pc with
  | .publish _ j call => if j = id then call else .idle
  | _ => .idle

/-- Every sequence word is even. -/
def Layout.settled (l : Layout) : Bool :=
  decide (∀ id, (l.latest id).seq &&& 1 = 0 ∧ (l.window id).seq &&& 1 = 0)

/-- The slots of a running compute. -/
structure Slots (l : Layout) (p : Compute) : Prop where
  latest : ∀ id, LockInv (l.latest id) (p.fast.pc.call id)
  window : ∀ id, LockInv (l.window id) (p.window.pc.call id)
  valid : ∀ id st, st ∈ (l.latest id).versions ∨ (p.fast.pc.call id).value = some st → st.valid ≠ 0
  /-- The load of the window thread began at some version. -/
  load : ∀ last id source call, p.window.pc = .load last id source call →
    ∃ b, LoadOk (l.latest id) (p.fast.pc.call id) b call
  /-- Nothing is sampled from a slot that holds nothing. -/
  blank : ∀ id, (l.latest id).versions = [] →
    (l.window id).versions = [] ∧ p.window.pc.call id = .idle

/-- The slots between two attempts. -/
structure Resting (l : Layout) : Prop where
  latest : ∀ id, LockInv (l.latest id) .idle
  window : ∀ id, LockInv (l.window id) .idle
  valid : ∀ id st, st ∈ (l.latest id).versions → st.valid ≠ 0
  blank : ∀ id, (l.latest id).versions = [] → (l.window id).versions = []

theorem resting_init : Resting Layout.init where
  latest _ := ⟨rfl, rfl⟩
  window _ := ⟨rfl, rfl⟩
  valid id st h := by cases h
  blank _ _ := rfl

theorem Resting.slots {l : Layout} (h : Resting l) : Slots l Compute.init where
  latest := h.latest
  window := h.window
  valid id st hst := by
    rcases hst with hmem | hval
    · exact h.valid id st hmem
    · cases hval
  load := by intro last id source call hpc; cases hpc
  blank id hnil := ⟨h.blank id hnil, rfl⟩

/-- What a compute leaves behind that ends, or dies, with every sequence even. -/
theorem Slots.resting {l : Layout} {p : Compute} (h : Slots l p) (hs : l.settled = true) :
    Resting l := by
  have heven := of_decide_eq_true hs
  exact
    { latest := fun id => (h.latest id).of_even (heven id).1
      window := fun id => (h.window id).of_even (heven id).2
      valid := fun id st hst => h.valid id st (Or.inl hst)
      blank := fun id hnil => (h.blank id hnil).1 }

/-! ## One step of the writers -/

theorem FastPc.call_self (id : Fin kMaxSources) (call : PubPc SourceState) (count : UInt32) :
    (FastPc.publish id call count).call id = call := if_pos rfl

theorem FastPc.call_of_ne {id j : Fin kMaxSources} (h : j ≠ id) (call : PubPc SourceState)
    (count : UInt32) : (FastPc.publish j call count).call id = .idle := if_neg h

theorem WindowPc.call_self (last : Bool) (id : Fin kMaxSources) (call : PubPc WindowState) :
    (WindowPc.publish last id call).call id = call := if_pos rfl

theorem WindowPc.call_of_ne {id j : Fin kMaxSources} (h : j ≠ id) (last : Bool)
    (call : PubPc WindowState) : (WindowPc.publish last j call).call id = .idle := if_neg h

theorem WindowPc.call_next (last : Bool) (j id : Fin kMaxSources) :
    (WindowPc.next last j).call id = .idle := by
  unfold WindowPc.next
  split
  · rfl
  · split <;> rfl

theorem FastPc.call_of_isDone {pc : FastPc} (h : pc.isDone = true) (id : Fin kMaxSources) :
    pc.call id = .idle := by
  cases pc with
  | done => rfl
  | _ => cases h

theorem WindowPc.call_of_isDone {pc : WindowPc} (h : pc.isDone = true) (id : Fin kMaxSources) :
    pc.call id = .idle := by
  cases pc with
  | done => rfl
  | _ => cases h

/-- A load that `++id` goes on to is at its beginning. -/
theorem WindowPc.load_of_next {last last' : Bool} {j id : Fin kMaxSources} {source : SourceState}
    {call : LoadPc SourceState} (h : WindowPc.next last j = .load last' id source call) :
    id.val = j.val + 1 ∧ call = .loadBegin 0 := by
  unfold WindowPc.next at h
  split at h
  · obtain ⟨_, rfl, _, rfl⟩ := WindowPc.load.inj h
    exact ⟨rfl, rfl⟩
  · split at h <;> cases h

/-- The fast thread on one slot of `latest`. -/
theorem FastMove.writes {clock : UInt64} {l l' : Layout} {t t' : Fast}
    (h : FastMove clock l t l' t') (id : Fin kMaxSources) :
    WriterStep (fun st => st.valid ≠ 0) (l.latest id) (t.pc.call id) (l'.latest id)
      (t'.pc.call id) := by
  cases h with
  | @took call call' ring record hpc hr =>
      have hidle : t.pc.call id = .idle := by rw [hpc]; rfl
      rw [hidle]
      unfold Fast.absorb
      split
      · rename_i fleet _
        by_cases hid : sourceIndex record.sourceId = id
        · subst hid
          show WriterStep _ _ _ _ ((FastPc.publish _ _ _).call _)
          rw [FastPc.call_self]
          exact .call (by simp [FleetSoA.state])
        · show WriterStep _ _ _ _ ((FastPc.publish _ _ _).call _)
          rw [FastPc.call_of_ne hid]
          exact .stay _
      · exact .stay _
  | @storing j call call' count lock hpc hr hin =>
      rw [hpc]
      by_cases hid : j = id
      · subst hid
        have hstep := WriterStep.access (P := fun st => st.valid ≠ 0) (l := l.latest j) call
        rw [hr] at hstep
        simpa [FastPc.call_self] using hstep
      · have hne : id ≠ j := fun he => hid he.symm
        simp only [FastPc.call_of_ne hid, Function.update_of_ne hne]
        exact .stay _
  | @stored j call count lock hpc hr =>
      rw [hpc]
      by_cases hid : j = id
      · subst hid
        have hstep := WriterStep.access (P := fun st => st.valid ≠ 0) (l := l.latest j) call
        rw [hr] at hstep
        simpa [FastPc.call] using hstep
      · have hne : id ≠ j := fun he => hid he.symm
        simp only [FastPc.call_of_ne hid, Function.update_of_ne hne]
        exact .stay _
  | _ hpc =>
      rw [hpc]
      exact .stay _

/-- The load of `latest[id]` returns now, with a valid state of which `row` is the sample. -/
def Window.Samples (t : Window) (l : Layout) (id : Fin kMaxSources) (row : WindowState) : Prop :=
  ∃ last source call source' call', t.pc = .load last id source call
    ∧ loadStep (l.latest id) source call = (source', call', some true)
    ∧ source'.valid ≠ 0 ∧ row = source'.window

/-- The window thread on one slot of `window`. -/
theorem WindowMove.writes {clock : UInt64} {l l' : Layout} {t t' : Window}
    (h : WindowMove clock l t l' t') (id : Fin kMaxSources) :
    WriterStep (t.Samples l id) (l.window id) (t.pc.call id) (l'.window id) (t'.pc.call id) := by
  cases h with
  | @sample last j source source' call call' hpc hr hvalid =>
      have hidle : t.pc.call id = .idle := by rw [hpc]; rfl
      rw [hidle]
      by_cases hid : j = id
      · subst hid
        show WriterStep _ _ _ _ ((WindowPc.publish _ _ _).call _)
        rw [WindowPc.call_self]
        exact .call ⟨last, source, call, source', call', hpc, hr, hvalid, rfl⟩
      · show WriterStep _ _ _ _ ((WindowPc.publish _ _ _).call _)
        rw [WindowPc.call_of_ne hid]
        exact .stay _
  | @storing last j call call' lock hpc hr hin =>
      by_cases hid : j = id
      · subst hid
        rw [hpc, WindowPc.call_self]
        have hstep := WriterStep.access (P := t.Samples l j) (l := l.window j) call
        rw [hr] at hstep
        simpa [WindowPc.call_self] using hstep
      · have hne : id ≠ j := fun he => hid he.symm
        rw [hpc]
        simp only [WindowPc.call_of_ne hid, Function.update_of_ne hne]
        exact .stay _
  | @stored last j call lock hpc hr =>
      by_cases hid : j = id
      · subst hid
        rw [hpc, WindowPc.call_self]
        have hstep := WriterStep.access (P := t.Samples l j) (l := l.window j) call
        rw [hr] at hstep
        simpa [WindowPc.call_next] using hstep
      · have hne : id ≠ j := fun he => hid he.symm
        rw [hpc]
        simp only [WindowPc.call_of_ne hid, Function.update_of_ne hne, WindowPc.call_next]
        exact .stay _
  | skip hpc hr hno =>
      have hidle : t.pc.call id = .idle := by rw [hpc]; rfl
      rw [hidle]
      show WriterStep _ _ _ _ ((WindowPc.next _ _).call id)
      rw [WindowPc.call_next]
      exact .stay _
  | _ hpc =>
      have hidle : t.pc.call id = .idle := by rw [hpc]; rfl
      rw [hidle]
      exact .stay _

/-- A sample is never taken from a slot that holds nothing: its words are zero. -/
theorem Slots.sampled {l : Layout} {p : Compute} (h : Slots l p) {id : Fin kMaxSources}
    {row : WindowState} (hs : p.window.Samples l id row) : (l.latest id).versions ≠ [] := by
  obtain ⟨last, source, call, source', call', hpc, hr, hvalid, _⟩ := hs
  obtain ⟨b, hb⟩ := h.load last id source call hpc
  intro hnil
  have htrue : (loadStep (l.latest id) source call).2.2 = some true := by rw [hr]
  have hlt : (l.latest id).versions.length < b + 2 ^ 31 := by
    rw [hnil, List.length_nil]
    omega
  obtain ⟨hver, hout⟩ := hb.load_true (h.latest id) hlt htrue
  rw [hr, hver, unpack_rawAt_length, current_nil hnil] at hout
  have hzero : source' = Raw.unpack Raw.zero := hout
  apply hvalid
  rw [hzero]
  rfl

/-! ## One step of the system -/

/-- A step that touches neither array nor a writer. -/
theorem Slots.frame {l l' : Layout} {p p' : Compute} (h : Slots l p)
    (hl : l'.latest = l.latest) (hw : l'.window = l.window) (hf : p'.fast = p.fast)
    (hwin : p'.window = p.window) : Slots l' p' where
  latest := by rw [hl, hf]; exact h.latest
  window := by rw [hw, hwin]; exact h.window
  valid := by rw [hl, hf]; exact h.valid
  load := by rw [hl, hf, hwin]; exact h.load
  blank := by rw [hl, hw, hwin]; exact h.blank

theorem FastMove.window {clock : UInt64} {l l' : Layout} {t t' : Fast}
    (h : FastMove clock l t l' t') : l'.window = l.window := by
  cases h <;> rfl

theorem WindowMove.latest {clock : UInt64} {l l' : Layout} {t t' : Window}
    (h : WindowMove clock l t l' t') : l'.latest = l.latest := by
  cases h <;> rfl

theorem SnapshotMove.arrays {clock : UInt64} {l l' : Layout} {t t' : SnapshotThread}
    (h : SnapshotMove clock l t l' t') : l'.latest = l.latest ∧ l'.window = l.window := by
  cases h <;> exact ⟨rfl, rfl⟩

theorem Slots.fastMove {clock : UInt64} {l l' : Layout} {p : Compute} {t' : Fast}
    (h : Slots l p) (hm : FastMove clock l p.fast l' t') : Slots l' { p with fast := t' } := by
  refine ⟨fun id => (hm.writes id).lockInv (h.latest id), ?_, ?_, ?_, ?_⟩
  · rw [hm.window]
    exact h.window
  · intro id
    exact (hm.writes id).all (h.valid id)
  · intro last id source call hpc
    obtain ⟨b, hb⟩ := h.load last id source call hpc
    exact ⟨b, (hm.writes id).loadOk hb⟩
  · intro id hnil
    rw [hm.window]
    refine h.blank id ?_
    rcases (hm.writes id).versions with hsame | ⟨v, _, _, happ⟩
    · exact hsame ▸ hnil
    · exact absurd (happ.symm.trans hnil) (by simp)

theorem Slots.windowMove {clock : UInt64} {l l' : Layout} {p : Compute} {t' : Window}
    (h : Slots l p) (hm : WindowMove clock l p.window l' t') :
    Slots l' { p with window := t' } := by
  refine ⟨?_, fun id => (hm.writes id).lockInv (h.window id), ?_, ?_, ?_⟩
  · rw [hm.latest]
    exact h.latest
  · rw [hm.latest]
    exact h.valid
  · -- a load begins at its `begin` load, whatever version that finds
    intro last id source call hpc
    rw [hm.latest]
    cases hm with
    | @loading last₀ id₀ source₀ source₁ call₀ call₁ hpc₀ hr =>
        obtain ⟨b, hb⟩ := h.load _ _ _ _ hpc₀
        obtain ⟨rfl, rfl, rfl, rfl⟩ := WindowPc.load.inj hpc
        have hnext : LoadOk _ _ _ (loadStep (l.latest id₀) source₀ call₀).2.1 :=
          hb.loadStep (h.latest id₀)
        rw [hr] at hnext
        exact ⟨_, hnext⟩
    | sawFast hpc₀ hf =>
        obtain ⟨_, _, _, rfl⟩ := WindowPc.load.inj hpc
        exact ⟨0, trivial⟩
    | sawStop hpc₀ hf =>
        obtain ⟨_, _, _, rfl⟩ := WindowPc.load.inj hpc
        exact ⟨0, trivial⟩
    | start hpc₀ =>
        obtain ⟨_, _, _, rfl⟩ := WindowPc.load.inj hpc
        exact ⟨0, trivial⟩
    | skip hpc₀ hr hno =>
        obtain ⟨_, rfl⟩ := WindowPc.load_of_next hpc
        exact ⟨0, trivial⟩
    | stored hpc₀ hr =>
        obtain ⟨_, rfl⟩ := WindowPc.load_of_next hpc
        exact ⟨0, trivial⟩
    | _ => cases hpc
  · intro id hnil
    rw [hm.latest] at hnil
    obtain ⟨hv, hidle⟩ := h.blank id hnil
    constructor
    · rcases (hm.writes id).versions with hsame | ⟨v, hval, _⟩
      · exact hsame.trans hv
      · rw [hidle] at hval
        cases hval
    · cases hval : (t'.pc.call id).value with
      | none => exact PubPc.idle_of_value hval
      | some v =>
          rcases (hm.writes id).value hval with hw | ⟨hs, _⟩
          · rw [hidle] at hw
            cases hw
          · exact absurd hnil (h.sampled hs)

theorem WatchdogMove.arrays {clock : UInt64} {l l' : Layout} {pc pc' : WatchdogPc}
    (h : WatchdogMove clock l pc l' pc') : l'.latest = l.latest ∧ l'.window = l.window := by
  cases h <;> exact ⟨rfl, rfl⟩

theorem Resting.frame {l l' : Layout} (h : Resting l) (hl : l'.latest = l.latest)
    (hw : l'.window = l.window) : Resting l' where
  latest := by rw [hl]; exact h.latest
  window := by rw [hw]; exact h.window
  valid := by rw [hl]; exact h.valid
  blank := by rw [hl, hw]; exact h.blank

theorem Layout.settled_congr {l l' : Layout} (hl : l'.latest = l.latest)
    (hw : l'.window = l.window) : l'.settled = l.settled := by
  simp only [Layout.settled, hl, hw]

namespace Pipeline

/-- A compute attempt is spawned with `fast_done` clear and no slot in the middle of a
publish. -/
def startsSettled (s : Pipeline) : Act → Bool
  | .sup _ =>
      match s.sup with
      | .spawnCompute _ => decide (s.layout.control.fastDone = 0) && s.layout.settled
      | _ => true
  | _ => true

theorem settled_of_spawn {s : Pipeline} {n : Nat} {pid : UInt32} (hsup : s.sup = .spawnCompute n)
    (h : s.startsSettled (.sup pid) = true) :
    s.layout.control.fastDone = 0 ∧ s.layout.settled = true := by
  simpa [startsSettled, hsup] using h

/-- The slots, while compute runs and while it does not. -/
structure SlotsOk (s : Pipeline) : Prop where
  running : ∀ p, s.compute = .running p → Slots s.layout p
  resting : (∀ p, s.compute ≠ .running p) → s.layout.settled = true → Resting s.layout

theorem slotsOk_start (replay : List UInt8) (clock : UInt64) : SlotsOk (start replay clock) where
  running p hp := by cases hp
  resting _ _ := resting_init

/-- A step of one of compute's threads. -/
theorem slotsOk_of_running {s' : Pipeline} {p' : Compute} (hc : s'.compute = .running p')
    (h : Slots s'.layout p') : SlotsOk s' where
  running q hq := by
    obtain rfl := Child.running_unique hc hq
    exact h
  resting hno _ := absurd hc (hno p')

/-- A step after which no compute runs. -/
theorem slotsOk_of_not_running {s' : Pipeline} (hc : ∀ p, s'.compute ≠ .running p)
    (h : s'.layout.settled = true → Resting s'.layout) : SlotsOk s' where
  running p hp := absurd hp (hc p)
  resting _ := h

/-- The slots that no compute is at work on, or that one leaves behind. -/
theorem SlotsOk.left {s s' : Pipeline} (h : SlotsOk s)
    (hl : s'.layout.latest = s.layout.latest) (hw : s'.layout.window = s.layout.window)
    (hs : s'.layout.settled = true) : Resting s'.layout := by
  rw [Layout.settled_congr hl hw] at hs
  refine Resting.frame ?_ hl hw
  by_cases hrun : ∃ p, s.compute = .running p
  · obtain ⟨p, hp⟩ := hrun
    exact (h.running p hp).resting hs
  · exact h.resting (fun p hp => hrun ⟨p, hp⟩) hs

theorem slotsOk_step {s s' : Pipeline} {a : Act} (h : SlotsOk s)
    (hok : s.startsSettled a = true) (hs : s.step a = some s') : SlotsOk s' := by
  cases attemptMove hs with
  | unseen hu =>
      refine ⟨?_, fun _ => h.left hu.latest hu.window⟩
      intro p hp
      exact (h.running p (hu.compute ▸ hp)).frame hu.latest hu.window rfl rfl
  | rerun hl hc hx hh hk =>
      refine slotsOk_of_not_running (by simp [hc]) (h.left ?_ ?_) <;> rw [hl] <;> rfl
  | spawn hact hsup hl hc hx hh hk =>
      refine slotsOk_of_running hc ?_
      subst hact
      have hrest : Resting s.layout := h.left rfl rfl (settled_of_spawn hsup hok).2
      rw [hl]
      exact hrest.slots
  | noSpawn hsup hl hc hx hh hk =>
      exact slotsOk_of_not_running (by simp [hc]) (h.left (by rw [hl]) (by rw [hl]))
  | reap hw hl hc hx hh hk =>
      refine ⟨?_, fun _ => h.left (by rw [hl]) (by rw [hl])⟩
      rw [hl, hc]
      exact h.running
  | fast hact hp ha hm hc hx hh hk => exact slotsOk_of_running hc ((h.running _ hp).fastMove hm)
  | window hact hp ha hm hc hx hh hk =>
      exact slotsOk_of_running hc ((h.running _ hp).windowMove hm)
  | snapshot hact hp ha hm hc hx hh hk =>
      exact slotsOk_of_running hc ((h.running _ hp).frame hm.arrays.1 hm.arrays.2 rfl rfl)
  | watchdog hact hp ha hm hc hx hh hk =>
      exact slotsOk_of_running hc ((h.running _ hp).frame hm.arrays.1 hm.arrays.2 rfl rfl)
  | main hact hp hm hc hx hh hk =>
      obtain ⟨cd, hl⟩ := computeMainStep_layout hm
      exact slotsOk_of_running hc ((h.running _ hp).frame (by rw [hl]) (by rw [hl]) rfl rfl)
  | ended hp hcode hl hc hx hh hk =>
      exact slotsOk_of_not_running (by simp [hc]) (h.left (by rw [hl]) (by rw [hl]))

/-- The runs whose attempts all start settled. -/
def ReachableSettled : Pipeline → Prop :=
  Transition.Reachable step (fun s a => s.startsSettled a = true) Start

theorem slotsOk_reachable {s : Pipeline} (h : ReachableSettled s) : SlotsOk s := by
  refine Transition.Reachable.invariant ?_ (fun _ _ _ hi hok hs => slotsOk_step hi hok hs) h
  rintro _ ⟨replay, clock, rfl⟩
  exact slotsOk_start replay clock

end Pipeline

end RateHub
