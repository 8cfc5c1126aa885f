import RateHub.Proof.Finish
import RateHub.Proof.Slots
import RateHub.Proof.StageOrder

/-!
# The last pass of each stage

The window thread's last pass begins after the fast thread has stored its flag, so no
slot of `latest` moves during the pass: its loads cannot fail and each finds the last
state published to its slot. The snapshot thread in turn starts collecting after the
window thread has ended. So what it collects, row by row, is a sample of what the fast
thread left behind.

This needs an attempt whose flags are its own, which is what `startsSettled` asks for.
Nothing is asked of the passes before the last one: they may fail, or sample old
states, or (a whole lap of the sequence later) a mixture, and whatever they left in a
window slot is overwritten.
-/

namespace RateHub

open Seqlock

/-! ## The window thread -/

/-- The last pass is past `id`. -/
def WindowPc.copied (pc : WindowPc) (id : Fin kMaxSources) : Bool :=
  match pc with
  | .load last j _ _ => last && decide (id.val < j.val)
  | .publish last j _ => last && decide (id.val < j.val)
  | .lastBeat => true
  | .storeLastBeat _ => true
  | .storeDone => true
  | .done => true
  | _ => false

theorem WindowPc.last_of_copied {pc : WindowPc} {id : Fin kMaxSources} (h : pc.copied id = true) :
    pc.inLast = true ∨ pc.pastLast = true := by
  cases pc with
  | load last j source call =>
      simp only [WindowPc.copied, Bool.and_eq_true] at h
      exact Or.inl h.1
  | publish last j call =>
      simp only [WindowPc.copied, Bool.and_eq_true] at h
      exact Or.inl h.1
  | lastBeat => exact Or.inr rfl
  | storeLastBeat now => exact Or.inr rfl
  | storeDone => exact Or.inr rfl
  | done => exact Or.inr rfl
  | _ => cases h

theorem WindowPc.copied_of_pastLast {pc : WindowPc} (h : pc.pastLast = true)
    (id : Fin kMaxSources) : pc.copied id = true := by
  cases pc with
  | lastBeat => rfl
  | storeLastBeat now => rfl
  | storeDone => rfl
  | done => rfl
  | _ => cases h

/-- `++id` adds one source to those the last pass is past. -/
theorem WindowPc.copied_next {last : Bool} {j id : Fin kMaxSources}
    (h : (WindowPc.next last j).copied id = true) : last = true ∧ id.val ≤ j.val := by
  unfold WindowPc.next at h
  split at h
  · simp only [WindowPc.copied, Bool.and_eq_true, decide_eq_true_eq] at h
    exact ⟨h.1, by omega⟩
  · rename_i hend
    split at h
    · rename_i hlast
      exact ⟨hlast, by have := id.isLt; omega⟩
    · cases h

/-- What the window thread has done of its last pass. -/
structure Copying (l : Layout) (pc : WindowPc) : Prop where
  copied : ∀ id, pc.copied id = true → (l.latest id).versions ≠ [] →
    (l.window id).current = (l.latest id).current.window
  load : ∀ id source call, pc = .load true id source call →
    LoadOk (l.latest id) .idle (l.latest id).versions.length call
  publish : ∀ id call, pc = .publish true id call →
    call.value = some (l.latest id).current.window

/-- Outside the last pass there is nothing to say. -/
theorem copying_of_not_last {l : Layout} {pc : WindowPc} (hin : pc.inLast = false)
    (hpast : pc.pastLast = false) : Copying l pc where
  copied id hc := by
    rcases WindowPc.last_of_copied hc with h | h
    · rw [hin] at h
      cases h
    · rw [hpast] at h
      cases h
  load id source call hpc := by
    rw [hpc] at hin
    cases hin
  publish id call hpc := by
    rw [hpc] at hin
    cases hin

theorem Copying.frame {l l' : Layout} {pc : WindowPc} (h : Copying l pc)
    (hl : l'.latest = l.latest) (hw : l'.window = l.window) : Copying l' pc := by
  refine ⟨?_, ?_, ?_⟩
  · rw [hl, hw]
    exact h.copied
  · rw [hl]
    exact h.load
  · rw [hl]
    exact h.publish

/-- Past the pass everything is copied. -/
theorem Copying.pastLast {l : Layout} {pc pc' : WindowPc} (h : Copying l pc)
    (hpc : pc.pastLast = true) (hpc' : pc'.pastLast = true) : Copying l pc' where
  copied id _ := h.copied id (WindowPc.copied_of_pastLast hpc id)
  load id source call heq := by
    rw [heq] at hpc'
    cases hpc'
  publish id call heq := by
    rw [heq] at hpc'
    cases hpc'

/-- The pass goes on to the next source; what it found of this one is `hid`. -/
theorem copying_next {l l' : Layout} {last : Bool} {j : Fin kMaxSources}
    (hold : last = true → ∀ id : Fin kMaxSources, id.val < j.val → (l.latest id).versions ≠ [] →
      (l.window id).current = (l.latest id).current.window)
    (hl : l'.latest = l.latest) (hw : ∀ id, id ≠ j → l'.window id = l.window id)
    (hid : last = true → (l.latest j).versions ≠ [] →
      (l'.window j).current = (l.latest j).current.window) :
    Copying l' (WindowPc.next last j) := by
  refine ⟨?_, ?_, ?_⟩
  · intro id hc hne
    obtain ⟨hlast, hle⟩ := WindowPc.copied_next hc
    rw [hl] at hne ⊢
    by_cases hj : id = j
    · subst hj
      exact hid hlast hne
    · have hlt : id.val < j.val := by
        have : id.val ≠ j.val := fun he => hj (Fin.ext he)
        omega
      rw [hw id hj]
      exact hold hlast id hlt hne
  · intro id source call hpc
    obtain ⟨_, rfl⟩ := WindowPc.load_of_next hpc
    trivial
  · intro id call hpc
    unfold WindowPc.next at hpc
    repeat' split at hpc
    all_goals cases hpc

/-- **One step of the window thread.** In the last pass nobody writes to `latest`. -/
theorem Copying.move {clock : UInt64} {l l' : Layout} {t t' : Window} (h : Copying l t.pc)
    (hm : WindowMove clock l t l' t') (hflag : l.control.shutdown = 0) (he : t.pc.engaged)
    (hlock : t.pc.inLast = true → ∀ id, LockInv (l.latest id) .idle)
    (hvalid : ∀ id st, st ∈ (l.latest id).versions → st.valid ≠ 0) : Copying l' t'.pc := by
  -- a load of the last pass that returns has found what its slot holds
  have hfound : ∀ {id source call source' call' r},
      t.pc = .load true id source call →
      loadStep (l.latest id) source call = (source', call', r) →
      (r = none ∧ LoadOk (l.latest id) .idle (l.latest id).versions.length call')
        ∨ (r = some true ∧ source' = (l.latest id).current) := by
    intro id source call source' call' r hpc hr
    have hcall : call ≠ .idle := by
      rw [hpc] at he
      exact he
    have hquiet := (h.load id source call hpc).undisturbed source
      (hlock (by rw [hpc]; rfl) id) rfl hcall
    rw [hr] at hquiet
    exact hquiet
  cases hm with
  | sawFast hpc hf =>
      refine ⟨?_, ?_, ?_⟩
      · intro id hc
        simp [WindowPc.enter, WindowPc.copied] at hc
      · intro id source call hpc'
        obtain ⟨_, _, _, rfl⟩ := WindowPc.load.inj hpc'
        trivial
      · intro id call hpc'
        cases hpc'
  | sawStop hpc hf => exact absurd hflag hf
  | @loading last id source source' call call' hpc hr =>
      cases last with
      | false => exact copying_of_not_last rfl rfl
      | true =>
          refine ⟨?_, ?_, ?_⟩
          · intro j hc
            exact h.copied j (by rw [hpc]; exact hc)
          · intro j source₁ call₁ hpc'
            obtain ⟨_, rfl, rfl, rfl⟩ := WindowPc.load.inj hpc'
            rcases hfound hpc hr with ⟨_, hnext⟩ | ⟨hr', _⟩
            · exact hnext
            · cases hr'
          · intro j call₁ hpc'
            cases hpc'
  | @skip last id source source' call call' ok hpc hr hno =>
      refine copying_next ?_ rfl (fun _ _ => rfl) ?_
      · rintro rfl j hlt
        exact h.copied j (by rw [hpc]; simp [WindowPc.copied, hlt])
      · rintro rfl hne
        -- every published state is valid, so the slot was empty
        rcases hfound hpc hr with ⟨hr', _⟩ | ⟨hok, hsrc⟩
        · cases hr'
        · rcases hno with hfalse | hzero
          · rw [hfalse] at hok
            cases hok
          · rw [hsrc] at hzero
            exact absurd hzero (hvalid id _ (current_mem hne))
  | @sample last id source source' call call' hpc hr hv =>
      cases last with
      | false => exact copying_of_not_last rfl rfl
      | true =>
          refine ⟨?_, ?_, ?_⟩
          · intro j hc
            exact h.copied j (by rw [hpc]; exact hc)
          · intro j source₁ call₁ hpc'
            cases hpc'
          · intro j call₁ hpc'
            obtain ⟨_, rfl, rfl⟩ := WindowPc.publish.inj hpc'
            rcases hfound hpc hr with ⟨hr', _⟩ | ⟨_, hsrc⟩
            · cases hr'
            · rw [hsrc]
              rfl
  | @storing last id call call' lock hpc hr hin =>
      cases last with
      | false => exact copying_of_not_last rfl rfl
      | true =>
          refine ⟨?_, ?_, ?_⟩
          · intro j hc hne
            have hlt : j.val < id.val := by simpa [WindowPc.copied] using hc
            have hj : j ≠ id := fun he' => absurd hlt (by rw [he']; omega)
            show (Function.update l.window id lock j).current = _
            rw [Function.update_of_ne hj]
            exact h.copied j (by rw [hpc]; exact hc) hne
          · intro j source₁ call₁ hpc'
            cases hpc'
          · intro j call₁ hpc'
            obtain ⟨_, rfl, rfl⟩ := WindowPc.publish.inj hpc'
            rcases publishStep_value (l.window id) call with ⟨hkeep, _⟩ | ⟨hidle, _⟩
            · rw [hr] at hkeep
              exact hkeep.trans (h.publish id call hpc)
            · rw [hr] at hidle
              exact absurd hidle hin
  | @stored last id call lock hpc hr =>
      refine copying_next (l := l) ?_ rfl (fun j hj => Function.update_of_ne hj _ _) ?_
      · rintro rfl j hlt
        exact h.copied j (by rw [hpc]; simp [WindowPc.copied, hlt])
      · rintro rfl hne
        have hval := h.publish id call hpc
        show (Function.update l.window id lock id).current = _
        rw [Function.update_self]
        rcases publishStep_value (l.window id) call with ⟨hkeep, _⟩ | ⟨_, v, hv, happ⟩
        · rw [hr, hval] at hkeep
          cases hkeep
        · rw [hr] at happ
          rw [current_append happ]
          exact Option.some.inj (hv.symm.trans hval)
  | lastBeat hpc => exact (h.pastLast (by rw [hpc]; rfl) rfl).frame rfl rfl
  | storeLastBeat hpc => exact (h.pastLast (by rw [hpc]; rfl) rfl).frame rfl rfl
  | storeDone hpc => exact (h.pastLast (by rw [hpc]; rfl) rfl).frame rfl rfl
  | _ => exact copying_of_not_last rfl rfl

/-! ## The snapshot thread -/

/-- The row of `id` is in `snap`. -/
def SnapshotPc.taken (pc : SnapshotPc) (id : Fin kMaxSources) : Bool :=
  match pc with
  | .load j _ _ => decide (id.val < j.val)
  | .fill _ => true
  | .publish _ => true
  | .lastBeat => true
  | .storeLastBeat _ => true
  | .storeDone => true
  | .done => true
  | _ => false

theorem SnapshotPc.pastLoop_of_taken {pc : SnapshotPc} {id : Fin kMaxSources}
    (h : pc.taken id = true) : pc.pastLoop = true := by
  cases pc <;> first | rfl | cases h

theorem SnapshotPc.taken_next {j id : Fin kMaxSources}
    (h : (SnapshotPc.next j).taken id = true) : id.val ≤ j.val := by
  unfold SnapshotPc.next at h
  split at h
  · simp only [SnapshotPc.taken, decide_eq_true_eq] at h
    omega
  · have := id.isLt
    omega

theorem SnapshotPc.load_of_next {j id : Fin kMaxSources} {row : WindowState}
    {call : LoadPc WindowState} (h : SnapshotPc.next j = .load id row call) :
    call = .loadBegin 0 := by
  unfold SnapshotPc.next at h
  split at h
  · exact (SnapshotPc.load.inj h).2.2.symm
  · cases h

/-- What the snapshot thread has collected. -/
structure Collecting (l : Layout) (t : SnapshotThread) : Prop where
  rows : ∀ id, t.pc.taken id = true → t.snap.rows id = (l.window id).current
  row : ∀ id row call, t.pc = .load id row call →
    LoadOk (l.window id) .idle (l.window id).versions.length call

theorem collecting_of_none {l : Layout} {t : SnapshotThread}
    (hnone : ∀ id, t.pc.taken id = false) (hpc : ∀ id row call, t.pc ≠ .load id row call) :
    Collecting l t where
  rows id ht := by
    rw [hnone id] at ht
    cases ht
  row id row call heq := absurd heq (hpc id row call)

theorem collecting_of_not_pastLoop {l : Layout} {t : SnapshotThread}
    (h : t.pc.pastLoop = false) : Collecting l t where
  rows id ht := by
    rw [SnapshotPc.pastLoop_of_taken ht] at h
    cases h
  row id row call hpc := by
    rw [hpc] at h
    cases h

theorem Collecting.frame {l l' : Layout} {t : SnapshotThread} (h : Collecting l t)
    (hw : l'.window = l.window) : Collecting l' t := by
  refine ⟨?_, ?_⟩
  · rw [hw]
    exact h.rows
  · rw [hw]
    exact h.row

/-- Past the last row. -/
theorem Collecting.full {l l' : Layout} {t t' : SnapshotThread} (h : Collecting l t)
    (hw : l'.window = l.window) (hsnap : t'.snap = t.snap)
    (hall : ∀ id, t.pc.taken id = true) (hpc : ∀ id row call, t'.pc ≠ .load id row call) :
    Collecting l' t' where
  rows id _ := by
    rw [hsnap, hw]
    exact h.rows id (hall id)
  row id row call heq := absurd heq (hpc id row call)

/-- **One step of the snapshot thread.** While it collects, nobody writes to `window`. -/
theorem Collecting.move {clock : UInt64} {l l' : Layout} {t t' : SnapshotThread}
    (h : Collecting l t) (hm : SnapshotMove clock l t l' t') (he : t.pc.engaged)
    (hlock : t.pc.pastLoop = true → ∀ id, LockInv (l.window id) .idle) : Collecting l' t' := by
  have hfound : ∀ {id row call row' call' r},
      t.pc = .load id row call →
      loadStep (l.window id) row call = (row', call', r) →
      (r = none ∧ LoadOk (l.window id) .idle (l.window id).versions.length call')
        ∨ (r = some true ∧ row' = (l.window id).current) := by
    intro id row call row' call' r hpc hr
    have hcall : call ≠ .idle := by
      rw [hpc] at he
      exact he
    have hquiet := (h.row id row call hpc).undisturbed row
      (hlock (by rw [hpc]; rfl) id) rfl hcall
    rw [hr] at hquiet
    exact hquiet
  cases hm with
  | loadGeneration hpc =>
      refine ⟨?_, ?_⟩
      · intro id ht
        simp [SnapshotPc.taken] at ht
      · intro id row call hpc'
        obtain ⟨_, _, rfl⟩ := SnapshotPc.load.inj hpc'
        trivial
  | @loading id row row' call call' hpc hr =>
      refine ⟨?_, ?_⟩
      · intro j ht
        exact h.rows j (by rw [hpc]; exact ht)
      · intro j row₁ call₁ hpc'
        obtain ⟨rfl, rfl, rfl⟩ := SnapshotPc.load.inj hpc'
        rcases hfound hpc hr with ⟨_, hnext⟩ | ⟨hr', _⟩
        · exact hnext
        · cases hr'
  | @row id row row' call call' hpc hr =>
      refine ⟨?_, ?_⟩
      · intro j ht
        have hle := SnapshotPc.taken_next ht
        show (Function.update t.snap.rows id row') j = _
        by_cases hj : j = id
        · subst hj
          rw [Function.update_self]
          rcases hfound hpc hr with ⟨hr', _⟩ | ⟨_, hrow⟩
          · cases hr'
          · exact hrow
        · rw [Function.update_of_ne hj]
          refine h.rows j ?_
          have hne : j.val ≠ id.val := fun he' => hj (Fin.ext he')
          rw [hpc]
          simp only [SnapshotPc.taken, decide_eq_true_eq]
          omega
      · intro j row₁ call₁ hpc'
        rw [SnapshotPc.load_of_next hpc']
        trivial
  | noRow hpc hr =>
      rcases hfound hpc hr with ⟨hr', _⟩ | ⟨hr', _⟩ <;> cases hr'
  | fill hpc =>
      refine h.full rfl rfl (by intro id; rw [hpc]; rfl) ?_
      intro id row call heq
      split at heq <;> cases heq
  | storing hpc hr hin => exact h.full rfl rfl (by intro id; rw [hpc]; rfl) (by simp)
  | stored hpc hr => exact h.full rfl rfl (by intro id; rw [hpc]; rfl) (by simp)
  | lastBeat hpc => exact h.full rfl rfl (by intro id; rw [hpc]; rfl) (by simp)
  | storeLastBeat hpc => exact h.full rfl rfl (by intro id; rw [hpc]; rfl) (by simp)
  | storeDone hpc => exact h.full rfl rfl (by intro id; rw [hpc]; rfl) (by simp)
  | sawWindow hpc hf => exact collecting_of_none (fun _ => rfl) (by simp)
  | sawStop hpc hf => exact collecting_of_none (fun _ => rfl) (by simp)
  | _ => exact collecting_of_not_pastLoop rfl

/-! ## The stages together -/

/-- The flags of a compute that started with them clear, and what its stages have done on the
strength of them. -/
structure LastPass (l : Layout) (p : Compute) : Prop where
  flagFast : l.control.fastDone ≠ 0 → p.fast.pc.isDone = true
  flagWindow : l.control.windowDone ≠ 0 → p.window.pc.isDone = true
  fastDone : p.window.pc.inLast = true ∨ p.window.pc.pastLast = true → p.fast.pc.isDone = true
  windowDone : p.snapshot.pc.pastLoop = true → p.window.pc.isDone = true
  copying : Copying l p.window.pc
  collecting : Collecting l p.snapshot

theorem lastPass_init {l : Layout} (hf : l.control.fastDone = 0) (hw : l.control.windowDone = 0) :
    LastPass l Compute.init where
  flagFast hne := absurd hf hne
  flagWindow hne := absurd hw hne
  fastDone h := by rcases h with h | h <;> cases h
  windowDone h := by cases h
  copying := copying_of_not_last rfl rfl
  collecting := collecting_of_not_pastLoop rfl

namespace LastPass

variable {clock : UInt64} {l l' : Layout} {p : Compute}

theorem frame (h : LastPass l p) {p' : Compute} (hff : l'.control.fastDone = l.control.fastDone)
    (hfw : l'.control.windowDone = l.control.windowDone) (hl : l'.latest = l.latest)
    (hw : l'.window = l.window) (hf : p'.fast = p.fast) (hwin : p'.window = p.window)
    (hsnap : p'.snapshot = p.snapshot) : LastPass l' p' where
  flagFast := by rw [hff, hf]; exact h.flagFast
  flagWindow := by rw [hfw, hwin]; exact h.flagWindow
  fastDone := by rw [hwin, hf]; exact h.fastDone
  windowDone := by rw [hwin, hsnap]; exact h.windowDone
  copying := by rw [hwin]; exact h.copying.frame hl hw
  collecting := by rw [hsnap]; exact h.collecting.frame hw

/-- A fast thread that moves has not ended, so the last passes are still to come. -/
theorem fastMove {t' : Fast} (h : LastPass l p) (hm : FastMove clock l p.fast l' t') :
    LastPass l' { p with fast := t' } := by
  obtain ⟨_, hset, hnd, hfw, _⟩ := hm.flags
  have hlast : ¬ (p.window.pc.inLast = true ∨ p.window.pc.pastLast = true) := by
    intro hl
    rw [h.fastDone hl] at hnd
    cases hnd
  have hloop : ¬ p.snapshot.pc.pastLoop = true := by
    intro hl
    exact hlast (Or.inr (WindowPc.pastLast_of_isDone (h.windowDone hl)))
  rw [not_or, Bool.not_eq_true, Bool.not_eq_true] at hlast
  refine ⟨?_, hfw ▸ h.flagWindow, ?_, h.windowDone, copying_of_not_last hlast.1 hlast.2,
    collecting_of_not_pastLoop (by simpa using hloop)⟩
  · intro hne
    rcases hset hne with hold | hdone
    · rw [h.flagFast hold] at hnd
      cases hnd
    · exact hdone
  · intro hl
    rw [hlast.1, hlast.2] at hl
    rcases hl with hl | hl <;> cases hl

theorem windowMove {t' : Window} (h : LastPass l p) (hsl : Slots l p)
    (hflag : l.control.shutdown = 0) (he : p.window.pc.engaged)
    (hm : WindowMove clock l p.window l' t') : LastPass l' { p with window := t' } := by
  obtain ⟨hff, _, _, hset, hnd⟩ := hm.flags
  obtain ⟨hin, hpast, _⟩ := hm.last hflag
  have hloop : p.snapshot.pc.pastLoop = false := by
    cases hl : p.snapshot.pc.pastLoop with
    | false => rfl
    | true =>
        rw [h.windowDone hl] at hnd
        cases hnd
  refine ⟨hff ▸ h.flagFast, ?_, ?_, ?_, ?_, collecting_of_not_pastLoop hloop⟩
  · intro hne
    rcases hset hne with hold | ⟨_, hdone⟩
    · rw [h.flagWindow hold] at hnd
      cases hnd
    · exact hdone
  · rintro (hl | hl)
    · rcases hin hl with ⟨hl', _⟩ | ⟨_, _, hne⟩
      · exact h.fastDone (Or.inl hl')
      · exact h.flagFast hne
    · rcases hpast hl with hl' | ⟨hl', _⟩
      · exact h.fastDone (Or.inr hl')
      · exact h.fastDone (Or.inl hl')
  · intro hl
    rw [hloop] at hl
    cases hl
  · refine h.copying.move hm hflag he ?_ (fun id st hst => hsl.valid id st (Or.inl hst))
    intro hl id
    have hidle := hsl.latest id
    rw [FastPc.call_of_isDone (h.fastDone (Or.inl hl))] at hidle
    exact hidle

theorem snapshotMove {t' : SnapshotThread} (h : LastPass l p) (hsl : Slots l p)
    (hflag : l.control.shutdown = 0) (he : p.snapshot.pc.engaged)
    (hm : SnapshotMove clock l p.snapshot l' t') : LastPass l' { p with snapshot := t' } := by
  obtain ⟨hff, hfw, _, hloop⟩ := hm.flags hflag
  obtain ⟨hl, hw⟩ := hm.arrays
  refine ⟨hff ▸ h.flagFast, hfw ▸ h.flagWindow, h.fastDone, ?_, h.copying.frame hl hw, ?_⟩
  · intro hp
    rcases hloop hp with hp' | hne
    · exact h.windowDone hp'
    · exact h.flagWindow hne
  · refine h.collecting.move hm he ?_
    intro hp id
    have hidle := hsl.window id
    rw [WindowPc.call_of_isDone (h.windowDone hp)] at hidle
    exact hidle

end LastPass

/-- The row of `id` that the state left in `latest[id]` gives. -/
def Layout.lastRow (l : Layout) (id : Fin kMaxSources) : WindowState :=
  match (l.latest id).versions.getLast? with
  | some state => state.window
  | none => {}

/-- **What is collected is what the fast thread left behind.** -/
theorem LastPass.collected {l : Layout} {p : Compute} (h : LastPass l p) (hsl : Slots l p)
    {id : Fin kMaxSources} (ht : p.snapshot.pc.taken id = true) :
    p.snapshot.snap.rows id = l.lastRow id := by
  have hdone := h.windowDone (SnapshotPc.pastLoop_of_taken ht)
  rw [h.collecting.rows id ht]
  unfold Layout.lastRow
  split
  · rename_i state hlast
    have hne : (l.latest id).versions ≠ [] := by
      intro hnil
      rw [hnil] at hlast
      cases hlast
    rw [h.copying.copied id (WindowPc.copied_of_pastLast (WindowPc.pastLast_of_isDone hdone) id) hne,
      current, hlast]
    rfl
  · rename_i hlast
    rw [current_nil (hsl.blank id (List.getLast?_eq_none_iff.mp hlast)).1]
    rfl

/-! ## Every run whose attempts start settled -/

namespace Pipeline

theorem lastPass_step {s s' : Pipeline} {a : Act}
    (h : ∀ p, s.compute = .running p → LastPass s.layout p) (hsl : SlotsOk s) (hi : Sound s)
    (he : Engaged s) (hch : FlagChain s) (hok : s.startsSettled a = true)
    (hs : s.step a = some s') : ∀ p, s'.compute = .running p → LastPass s'.layout p := by
  intro q hq
  cases runningMove hs hq with
  | unseen hp hu =>
      exact (h q hp).frame hu.fastDone hu.windowDone hu.latest hu.window rfl rfl rfl
  | spawn hact hsup hl hc =>
      subst hact
      have hclear := (settled_of_spawn hsup hok).1
      rw [hl]
      exact lastPass_init hclear (by_contra fun hne => hch.window hne hclear)
  | fast hact hp hm hc => exact (h _ hp).fastMove hm
  | window hact hp hm hc =>
      exact (h _ hp).windowMove (hsl.running _ hp) (hi.skeleton.no_shutdown hp)
        (he.compute _ hp).2.1 hm
  | snapshot hact hp hm hc =>
      exact (h _ hp).snapshotMove (hsl.running _ hp) (hi.skeleton.no_shutdown hp)
        (he.compute _ hp).2.2 hm
  | watchdog hact hp hm hc =>
      obtain ⟨hf, hw, _⟩ := hm.flags
      exact (h _ hp).frame hf hw hm.arrays.1 hm.arrays.2 rfl rfl rfl
  | main hact hp hm hc =>
      obtain ⟨cd, hl⟩ := computeMainStep_layout hm
      rw [hl]
      exact (h _ hp).frame rfl rfl rfl rfl rfl rfl rfl

theorem ReachableSettled.reachable {s : Pipeline} (h : ReachableSettled s) : Reachable s :=
  h.mono fun _ _ _ => trivial

theorem lastPass_reachable {s : Pipeline} (h : ReachableSettled s) {p : Compute}
    (hp : s.compute = .running p) : LastPass s.layout p := by
  induction h generalizing p with
  | init hstart =>
      obtain ⟨replay, clock, rfl⟩ := hstart
      cases hp
  | tail hr hok hs ih =>
      exact lastPass_step (fun _ => ih) (slotsOk_reachable hr) (sound_reachable hr)
        (engaged_reachable hr) (flagChain_reachable (ReachableSettled.reachable hr)) hok hs p hp

end Pipeline

end RateHub
