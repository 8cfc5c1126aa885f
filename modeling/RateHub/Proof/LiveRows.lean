import RateHub.Lib.Relay
import RateHub.Proof.CompleteHandoff

/-!
# What an observer sees of a running attempt

A position goes through two slots before an observer sees it: the fast thread publishes it
to `latest`, the window thread copies what it finds there to `window`, and the observer
copies what it finds there to its sample. The two readers come by when they like; they may
miss values, take one twice, or fail. But a load that succeeds finds what is current when
it returns, so the values of a window slot are samples of those of the slot in
`latest`, and the points of the observers are samples of the values of the window slot.

The history variable has the version at which each load in progress began, for the bound
on the publishes that one load may be overtaken by, and for every sample of an observer
those that had been returned when it was called for.
-/

namespace RateHub

open Seqlock Relay

namespace Seqlock

variable {T : Type} [TriviallyCopyable T]

/-- The contract's bound for one attempt of a load that began at version `b`: at the `end`
load, fewer than `2^31` publishes have completed since the `begin` load. -/
def promptLoad (l : Seqlock T) (b : Nat) : LoadPc T → Bool
  | .words _ _ i _ => decide (i < kWords T) || decide (l.versions.length < b + 2 ^ 31)
  | _ => true

/-- **A prompt load that succeeds finds what is current.** -/
theorem LoadOk.finds_current {l : Seqlock T} {w : PubPc T} {b : Nat} {pc : LoadPc T} {out : T}
    (hl : LockInv l w) (h : LoadOk l w b pc) (hp : promptLoad l b pc = true)
    (htrue : (Seqlock.loadStep l out pc).2.2 = some true) :
    (Seqlock.loadStep l out pc).1 = l.current := by
  have hlt : l.versions.length < b + 2 ^ 31 := by
    obtain ⟨a, beg, i, raw, rfl, hi, -⟩ := loadStep_true htrue
    simpa [promptLoad, hi] using hp
  obtain ⟨hb, hout⟩ := h.load_true hl hlt htrue
  rw [hout, hb, unpack_rawAt_length]

/-- What has been published to a slot and what is being published. -/
def offered (l : Seqlock T) (w : PubPc T) : List T := l.versions ++ w.value.toList

/-- An access of a publish moves its value from one part to the other at most. -/
theorem offered_publishStep (l : Seqlock T) (w : PubPc T) :
    offered (publishStep l w).1 (publishStep l w).2 = offered l w := by
  rcases publishStep_value l w with ⟨hval, hver⟩ | ⟨hidle, v, hval, hver⟩
  · rw [offered, offered, hval, hver]
  · rw [offered, offered, hidle, hval, hver]
    exact List.append_nil _

/-- Only a call of `publish` adds to what is offered. -/
theorem WriterStep.offered {P : T → Prop} {l l' : Seqlock T} {w w' : PubPc T}
    (h : WriterStep P l w l' w') :
    Seqlock.offered l' w' = Seqlock.offered l w
      ∨ ∃ v, P v ∧ Seqlock.offered l' w' = Seqlock.offered l w ++ [v] := by
  cases h with
  | stay => exact .inl rfl
  | @call v hv =>
      refine .inr ⟨v, hv, ?_⟩
      show l.versions ++ [v] = l.versions ++ [] ++ [v]
      rw [List.append_nil]
  | access => exact .inl (offered_publishStep l w)

end Seqlock

/-! ## The counts of the fast thread -/

/-- The fast thread on one slot, with its count of the source: it starts a publish and counts
it, or does neither. -/
theorem FastMove.counts {clock : UInt64} {l l' : Layout} {t t' : Fast}
    (h : FastMove clock l t l' t') (id : Fin kMaxSources) :
    (offered (l'.latest id) (t'.pc.call id) = offered (l.latest id) (t.pc.call id)
        ∧ t'.publishes id = t.publishes id)
      ∨ ∃ state, state.publishes = t.publishes id + 1 ∧ t'.publishes id = t.publishes id + 1
        ∧ offered (l'.latest id) (t'.pc.call id)
          = offered (l.latest id) (t.pc.call id) ++ [state] := by
  cases h with
  | @took call call' ring record hpc hr =>
      -- the record is accepted for its source, for another one, or refused
      have hidle : t.pc.call id = .idle := by rw [hpc]; rfl
      rw [hidle]
      unfold Fast.absorb
      split
      · rename_i fleet _
        by_cases hid : sourceIndex record.sourceId = id
        · subst hid
          refine .inr ⟨fleet.state (sourceIndex record.sourceId)
            (t.publishes (sourceIndex record.sourceId) + 1), rfl, Function.update_self .., ?_⟩
          show offered _ ((FastPc.publish _ _ _).call _) = _
          rw [FastPc.call_self]
          simp [offered, PubPc.value]
        · refine .inl ⟨?_, Function.update_of_ne (Ne.symm hid) _ _⟩
          show offered _ ((FastPc.publish _ _ _).call _) = _
          rw [FastPc.call_of_ne hid]
      · exact .inl ⟨rfl, rfl⟩
  | @storing j call call' count lock hpc hr hin =>
      -- inside a publish the value goes on from one part to the other
      refine .inl ⟨?_, rfl⟩
      rw [hpc]
      by_cases hid : j = id
      · subst hid
        have hsame := offered_publishStep (l.latest j) call
        rw [hr] at hsame
        simpa only [FastPc.call_self, Function.update_self] using hsame
      · simp only [FastPc.call_of_ne hid, Function.update_of_ne (Ne.symm hid)]
  | @stored j call count lock hpc hr =>
      refine .inl ⟨?_, rfl⟩
      rw [hpc]
      show offered (Function.update l.latest j lock id) .idle = _
      by_cases hid : j = id
      · subst hid
        have hsame := offered_publishStep (l.latest j) call
        rw [hr] at hsame
        simpa only [FastPc.call_self, Function.update_self] using hsame
      · simp only [FastPc.call_of_ne hid, Function.update_of_ne (Ne.symm hid)]
  | _ hpc =>
      refine .inl ⟨?_, rfl⟩
      rw [hpc]
      rfl

/-- The states of a source carry the numbers 1, 2, 3, .. modulo `2^32`. -/
def Numbered (states : List SourceState) : Prop :=
  ∀ (i : Nat) (state : SourceState), states[i]? = some state →
    state.publishes = UInt32.ofNat (i + 1)

/-- The next state has the next number. -/
theorem Numbered.snoc {states : List SourceState} {state : SourceState} (h : Numbered states)
    (hnum : state.publishes = UInt32.ofNat (states.length + 1)) : Numbered (states ++ [state]) := by
  intro i st hget
  by_cases hi : i < states.length
  · rw [List.getElem?_append_left hi] at hget
    exact h i st hget
  · rw [List.getElem?_append_right (by omega), List.getElem?_singleton] at hget
    split at hget
    · obtain rfl := Option.some.inj hget
      rw [hnum, show i = states.length by omega]
    · cases hget

/-- The states up to some point are numbered as well. -/
theorem Numbered.left {states more : List SourceState} (h : Numbered (states ++ more)) :
    Numbered states := by
  intro i state hget
  refine h i state ?_
  rw [List.getElem?_append_left (List.getElem?_eq_some_iff.mp hget).1, hget]

/-- Below `2^32` states, a state behind another has a number at least as large. -/
theorem Numbered.le_of_before {states : List SourceState} {state state' : SourceState}
    (h : Numbered states) (hlen : states.length < 2 ^ 32) (hb : Before states state state') :
    state.publishes ≤ state'.publishes := by
  obtain ⟨i, j, hij, hi, hj⟩ := hb
  have hj' := (List.getElem?_eq_some_iff.mp hj).1
  rw [h i state hi, h j state' hj, UInt32.le_iff_toNat_le, UInt32.toNat_ofNat', UInt32.toNat_ofNat']
  omega

/-- The fast thread's numbers. -/
structure Counts (states : List SourceState) (publishes : UInt32) : Prop where
  numbered : Numbered states
  last : publishes = UInt32.ofNat states.length

/-- The fast thread starts a publish with its count one up. -/
theorem Counts.snoc {states : List SourceState} {publishes : UInt32} {state : SourceState}
    (h : Counts states publishes) (hstate : state.publishes = publishes + 1) :
    Counts (states ++ [state]) (publishes + 1) := by
  have hnext : publishes + 1 = UInt32.ofNat (states.length + 1) := by
    rw [h.last]
    exact seqOf_add states.length 1
  refine ⟨h.numbered.snoc (hstate.trans hnext), ?_⟩
  rw [hnext, List.length_append, List.length_singleton]

/-! ## The relay -/

/-- A running attempt, from `latest` to `window`; `began` is the version at the `begin` load
of the window thread. -/
structure Relayed (l : Layout) (p : Compute) (began : Nat) : Prop where
  slots : Slots l p
  load : ∀ last id source call, p.window.pc = .load last id source call →
    LoadOk (l.latest id) (p.fast.pc.call id) began call
  counts : ∀ id, Counts (offered (l.latest id) (p.fast.pc.call id)) (p.fast.publishes id)
  sampled : ∀ id, Sampled SourceState.window (l.latest id).versions
    (offered (l.window id) (p.window.pc.call id))

/-- The version at the `begin` load of the window thread, after a step of the thread. -/
def Window.began (t : Window) (l : Layout) (began : Nat) : Nat :=
  match t.pc with
  | .load _ id _ call => versionAfter (l.latest id) began call
  | _ => began

/-- The window thread's load meets the bound. -/
def Window.prompt (t : Window) (l : Layout) (began : Nat) : Bool :=
  match t.pc with
  | .load _ id _ call => promptLoad (l.latest id) began call
  | _ => true

/-- A new attempt on a fresh mapping has published nothing. -/
theorem relayed_init (began : Nat) : Relayed Layout.init Compute.init began where
  slots := resting_init.slots
  load := by intro last id source call hpc; cases hpc
  counts id := by
    refine ⟨?_, rfl⟩
    intro i state hget
    cases hget
  sampled id := Sampled.nil _ _

namespace Relayed

variable {clock : UInt64} {l l' : Layout} {p p' : Compute} {began : Nat}

/-- A step that touches neither array nor a writer. -/
theorem frame (h : Relayed l p began) (hl : l'.latest = l.latest) (hw : l'.window = l.window)
    (hf : p'.fast = p.fast) (hwin : p'.window = p.window) : Relayed l' p' began where
  slots := h.slots.frame hl hw hf hwin
  load := by rw [hl, hf, hwin]; exact h.load
  counts := by rw [hl, hf]; exact h.counts
  sampled := by rw [hl, hw, hwin]; exact h.sampled

/-- **The fast thread moves.** The window thread's load stays below the bound it had, and what has
been sampled stays sampled. -/
theorem fastMove {t' : Fast} (h : Relayed l p began) (hm : FastMove clock l p.fast l' t') :
    Relayed l' { p with fast := t' } began where
  slots := h.slots.fastMove hm
  load last id source call hpc := (hm.writes id).loadOk (h.load last id source call hpc)
  counts id := by
    rcases hm.counts id with ⟨hsame, hpub⟩ | ⟨state, hstate, hpub, hadd⟩
    · rw [hsame, hpub]
      exact h.counts id
    · rw [hadd, hpub]
      exact (h.counts id).snoc hstate
  sampled id := by
    rw [hm.window]
    rcases (hm.writes id).versions with hsame | ⟨v, -, -, happ⟩
    · rw [hsame]
      exact h.sampled id
    · rw [happ]
      exact (h.sampled id).append [v]

/-- What the window thread takes from a slot is what is at its end. -/
theorem takes (h : Relayed l p began) (hprompt : p.window.prompt l began = true)
    {id : Fin kMaxSources} {row : WindowState} (hs : p.window.Samples l id row) :
    ∃ state, (l.latest id).versions.getLast? = some state ∧ row = state.window := by
  have hne := h.slots.sampled hs
  obtain ⟨last, source, call, source', call', hpc, hr, -, rfl⟩ := hs
  have hp : promptLoad (l.latest id) began call = true := by
    simpa only [Window.prompt, hpc] using hprompt
  have hcur := (h.load last id source call hpc).finds_current (h.slots.latest id) hp
    (by rw [hr] : (loadStep (l.latest id) source call).2.2 = some true)
  rw [hr] at hcur
  refine ⟨source', ?_, rfl⟩
  show _ = some source'
  rw [show source' = (l.latest id).current from hcur, current,
    List.getLast?_eq_some_getLast hne, Option.getD_some]

/-- **The window thread moves.** Its load goes on, and a row it offers is what it took. -/
theorem windowMove {t' : Window} (h : Relayed l p began) (hprompt : p.window.prompt l began = true)
    (hm : WindowMove clock l p.window l' t') :
    Relayed l' { p with window := t' } (p.window.began l began) where
  slots := h.slots.windowMove hm
  load last id source call hpc := by
    rw [hm.latest]
    -- a load goes on, or a new one begins
    cases hm with
    | @loading last₀ id₀ source₀ source₁ call₀ call₁ hpc₀ hr =>
        obtain ⟨rfl, rfl, rfl, rfl⟩ := WindowPc.load.inj hpc
        have hnext : LoadOk _ _ _ (loadStep (l.latest id₀) source₀ call₀).2.1 :=
          (h.load _ _ _ _ hpc₀).loadStep (h.slots.latest id₀)
        rw [hr] at hnext
        simpa only [Window.began, hpc₀] using hnext
    | sawFast hpc₀ hf =>
        obtain ⟨_, _, _, rfl⟩ := WindowPc.load.inj hpc
        trivial
    | sawStop hpc₀ hf =>
        obtain ⟨_, _, _, rfl⟩ := WindowPc.load.inj hpc
        trivial
    | start hpc₀ =>
        obtain ⟨_, _, _, rfl⟩ := WindowPc.load.inj hpc
        trivial
    | skip hpc₀ hr hno =>
        obtain ⟨_, rfl⟩ := WindowPc.load_of_next hpc
        trivial
    | stored hpc₀ hr =>
        obtain ⟨_, rfl⟩ := WindowPc.load_of_next hpc
        trivial
    | _ => cases hpc
  counts := by rw [hm.latest]; exact h.counts
  sampled id := by
    rw [hm.latest]
    rcases (hm.writes id).offered with hsame | ⟨row, hrow, hadd⟩
    · rw [hsame]
      exact h.sampled id
    · -- the new row is what the slot in `latest` holds at this moment
      obtain ⟨state, hlast, rfl⟩ := h.takes hprompt hrow
      rw [hadd]
      exact (h.sampled id).take hlast

end Relayed

/-! ## One step of an observer -/

/-- The loads before the loop leave the points alone. -/
theorem collectWords_points {load : Layout → Observer → Observer} (h : load ∈ collectWords)
    (l : Layout) (o : Observer) :
    (load l o).snap.sources = o.snap.sources ∧ (load l o).snap.sourceCount = o.snap.sourceCount
      ∧ (load l o).collected = o.collected := by
  revert load
  simp [collectWords, Observer.into]

/-- What a step of `collect_telemetry` makes of the points of the sample: nothing, or one more
from a load that succeeds. -/
inductive PointMove (l : Layout) (o : Observer) (snap : TelemetrySnapshot) : Prop
  | same (hs : snap.sources = o.snap.sources) (hn : snap.sourceCount = o.snap.sourceCount)
  | point {id : Fin kMaxSources} {row row' : WindowState} {call call' : LoadPc WindowState}
      (hpc : o.pc = .row id row call)
      (hr : loadStep (l.window id) row call = (row', call', some true))
      (hne : row'.publishes ≠ 0) (hsnap : snap = o.snap.addPoint id row')

/-- The ways a step of an observer can come about. -/
inductive ObserverMove (l : Layout) (o : Observer) : Observer → Prop
  | goes {pc : CollectPc} {snap : TelemetrySnapshot} {write : UInt32} (hm : PointMove l o snap)
      (hpc : pc ≠ .idle) (hload : ∀ id row call, pc = .row id row call → call = .loadBegin 0) :
      ObserverMove l o { o with pc := pc, snap := snap, write := write }
  | loading {id : Fin kMaxSources} {row row' : WindowState} {call call' : LoadPc WindowState}
      (hpc : o.pc = .row id row call) (hr : loadStep (l.window id) row call = (row', call', none)) :
      ObserverMove l o { o with pc := .row id row' call' }
  | finish {snap : TelemetrySnapshot} (hm : PointMove l o snap) :
      ObserverMove l o { o with pc := .idle, snap := snap, collected := o.collected ++ [snap] }

/-- `++id` after the points are what they are. -/
theorem observerMove_next {l : Layout} {o : Observer} {snap : TelemetrySnapshot}
    (hm : PointMove l o snap) (id : Fin kMaxSources) :
    ObserverMove l o ({ o with snap := snap }.next id) := by
  unfold Observer.next
  split
  · refine .goes hm (by simp) ?_
    intro id' row call hpc
    exact (CollectPc.row.inj hpc).2.2.symm
  · exact .finish hm

/-- One of the loads before the loop. -/
theorem observerMove_word {load : Layout → Observer → Observer} (h : load ∈ collectWords)
    {l : Layout} {o : Observer} {pc : CollectPc} {snap : TelemetrySnapshot}
    (hs : snap.sources = (load l o).snap.sources)
    (hn : snap.sourceCount = (load l o).snap.sourceCount) (hpc : pc ≠ .idle)
    (hload : ∀ id row call, pc = .row id row call → call = .loadBegin 0) :
    ObserverMove l o { load l o with pc := pc, snap := snap } := by
  obtain ⟨hsources, hcount, hcollected⟩ := collectWords_points h l o
  dsimp only
  rw [hcollected]
  exact .goes (.same (hs.trans hsources) (hn.trans hcount)) hpc hload

/-- **Every step of an observer is a move.** -/
theorem observerMove {l : Layout} {o o' : Observer} (h : o.step l = some o') :
    ObserverMove l o o' := by
  unfold Observer.step at h
  cases hpc : o.pc with
  | idle => simp [hpc] at h
  | word k =>
      simp only [hpc] at h
      split at h
      · rename_i load hload
        have hmem := List.mem_of_getElem? hload
        split at h
        · obtain rfl := Option.some.inj h
          exact observerMove_word hmem rfl rfl (by simp) (by simp)
        · obtain rfl := Option.some.inj h
          refine observerMove_word hmem rfl rfl (by simp) ?_
          intro id row call heq
          exact (CollectPc.row.inj heq).2.2.symm
      · cases h
  | row id row call =>
      simp only [hpc] at h
      split at h
      · -- the load goes on
        rename_i row' call' hr
        obtain rfl := Option.some.inj h
        exact .loading hpc hr
      · -- it returns: with nothing to show, with no room left, or with a point
        rename_i row' call' ok hr
        split at h
        · obtain rfl := Option.some.inj h
          exact observerMove_next (.same rfl rfl) id
        · rename_i hgood
          rw [not_or, Bool.not_eq_false] at hgood
          obtain ⟨rfl, hne⟩ := hgood
          split at h
          · obtain rfl := Option.some.inj h
            exact .finish (.same rfl rfl)
          · obtain rfl := Option.some.inj h
            exact observerMove_next (.point hpc hr hne rfl) id

/-! ## What the samples show -/

/-- The point of a row. -/
def pointOf (id : Fin kMaxSources) (row : WindowState) : SourcePoint :=
  { id := UInt32.ofNat id.val, x := row.posX, y := row.posY, publishes := row.publishes
    sequence := row.sequence }

/-- The ids are below `kMaxSources`, so `uint32_t` keeps them apart. -/
theorem pointOf_id_inj {id id' : Fin kMaxSources} {row row' : WindowState}
    (h : (pointOf id row).id = (pointOf id' row').id) : id = id' := by
  have hnat := congrArg UInt32.toNat h
  have hlt := id.isLt
  have hlt' := id'.isLt
  simp only [pointOf, UInt32.toNat_ofNat'] at hnat
  refine Fin.ext ?_
  simp only [kMaxSources] at hlt hlt'
  omega

/-- Every point of a sample is that of a row published to its window slot. -/
def Shows (l : Layout) (snap : TelemetrySnapshot) : Prop :=
  ∀ i : Fin kMaxPoints, i.val < snap.sourceCount →
    ∃ id, ∃ row ∈ (l.window id).versions, snap.sources i = pointOf id row

/-- Where two samples have points of one source, the row behind the second point was
published last, or is the same. -/
def NotBack (l : Layout) (a b : TelemetrySnapshot) : Prop :=
  ∀ i j : Fin kMaxPoints, i.val < a.sourceCount → j.val < b.sourceCount →
    (a.sources i).id = (b.sources j).id →
    ∃ id row row', Before (l.window id).versions row row'
      ∧ a.sources i = pointOf id row ∧ b.sources j = pointOf id row'

/-- Every window slot has at least the rows it had. -/
def Grows (l l' : Layout) : Prop :=
  ∀ id, ∃ more, (l'.window id).versions = (l.window id).versions ++ more

section Samples

variable {l l' : Layout} {a b snap snap' : TelemetrySnapshot}

/-- More publishes take nothing away from what a sample shows. -/
theorem Shows.grow (h : Shows l snap) (hg : Grows l l') : Shows l' snap := by
  intro i hi
  obtain ⟨id, row, hrow, hpoint⟩ := h i hi
  obtain ⟨more, hmore⟩ := hg id
  refine ⟨id, row, ?_, hpoint⟩
  rw [hmore]
  exact List.mem_append_left _ hrow

/-- Nor from the order of two samples. -/
theorem NotBack.grow (h : NotBack l a b) (hg : Grows l l') : NotBack l' a b := by
  intro i j hi hj hid
  obtain ⟨id, row, row', hb, ha, hb'⟩ := h i j hi hj hid
  obtain ⟨more, hmore⟩ := hg id
  refine ⟨id, row, row', ?_, ha, hb'⟩
  rw [hmore]
  exact hb.append more

/-- Only the points of a sample matter to what it shows. -/
theorem Shows.congr (h : Shows l snap) (hs : snap'.sources = snap.sources)
    (hn : snap'.sourceCount = snap.sourceCount) : Shows l snap' := by
  intro i hi
  rw [hs]
  exact h i (hn ▸ hi)

/-- And to what it is not behind. -/
theorem NotBack.congr (h : NotBack l a snap) (hs : snap'.sources = snap.sources)
    (hn : snap'.sourceCount = snap.sourceCount) : NotBack l a snap' := by
  intro i j hi hj
  rw [hs]
  exact h i j hi (hn ▸ hj)

/-- The points of a sample with one more. -/
theorem addPoint_sources (snap : TelemetrySnapshot) (id : Fin kMaxSources) (row : WindowState)
    {i : Fin kMaxPoints} (hi : i.val < (snap.addPoint id row).sourceCount) :
    (snap.addPoint id row).sources i = pointOf id row
      ∨ (i.val < snap.sourceCount ∧ (snap.addPoint id row).sources i = snap.sources i) := by
  have hi' : i.val < snap.sourceCount + 1 := hi
  by_cases heq : i.val = snap.sourceCount
  · exact .inl (if_pos heq)
  · exact .inr ⟨by omega, if_neg heq⟩

/-- The new point shows the row that is current. -/
theorem Shows.addPoint (h : Shows l snap) {id : Fin kMaxSources} {row : WindowState}
    (hlast : (l.window id).versions.getLast? = some row) : Shows l (snap.addPoint id row) := by
  intro i hi
  rcases addPoint_sources snap id row hi with hnew | ⟨hlt, hold⟩
  · exact ⟨id, row, List.mem_of_getLast? hlast, hnew⟩
  · rw [hold]
    exact h i hlt

/-- What is current when the point is taken is not behind anything that was shown. -/
theorem NotBack.addPoint (h : NotBack l a snap) (ha : Shows l a) {id : Fin kMaxSources}
    {row : WindowState} (hlast : (l.window id).versions.getLast? = some row) :
    NotBack l a (snap.addPoint id row) := by
  intro i j hi hj hid
  rcases addPoint_sources snap id row hj with hnew | ⟨hlt, hold⟩
  · obtain ⟨id', row', hrow', hpoint⟩ := ha i hi
    rw [hpoint, hnew] at hid
    obtain rfl := pointOf_id_inj hid
    exact ⟨id', row', row, before_getLast hrow' hlast, hpoint, hnew⟩
  · rw [hold] at hid ⊢
    exact h i j hi hlt hid

end Samples

/-! ## The history -/

/-- The samples returned so far by anyone, each with those returned before its call. -/
abbrev Log := List (List TelemetrySnapshot × TelemetrySnapshot)

/-- What is remembered of a run. -/
structure Watch (R : Type) where
  /-- The publishes completed at the `begin` load of the window thread, and of each observer. -/
  window : Nat
  observer : R → Nat
  /-- For each observer, the samples that anyone had been returned at its last call. -/
  earlier : R → List TelemetrySnapshot
  log : Log

/-- Nothing has happened yet. -/
def Watch.init {R : Type} : Watch R := ⟨0, fun _ => 0, fun _ => [], []⟩

/-- The version at the `begin` load of an observer, after a step of it. -/
def Observer.began (o : Observer) (l : Layout) (began : Nat) : Nat :=
  match o.pc with
  | .row id _ call => versionAfter (l.window id) began call
  | _ => began

/-- An observer's load meets the bound. -/
def Observer.prompt (o : Observer) (l : Layout) (began : Nat) : Bool :=
  match o.pc with
  | .row id _ call => promptLoad (l.window id) began call
  | _ => true

/-- The samples that a step returns. -/
def Observer.returned (o : Observer) : List TelemetrySnapshot :=
  match o.pc with
  | .idle => [o.snap]
  | _ => []

/-- The log after a step of an observer. -/
def Log.add (log : Log) (earlier : List TelemetrySnapshot) (o : Observer) : Log :=
  log ++ o.returned.map fun snap => (earlier, snap)

/-- The first attempt on the mapping is the only one. -/
def Pipeline.spawnsOnce (s : Pipeline) : Act → Bool
  | .sup _ =>
      match s.sup, s.compute with
      | .spawnCompute _, .unborn => true
      | .spawnCompute _, _ => false
      | _, _ => true
  | .rerun => false
  | _ => true

/-- The bound of the window thread's load, and of nobody else's in the pipeline. -/
def Pipeline.windowPrompt (s : Pipeline) (began : Nat) : Bool :=
  match s.compute with
  | .running p => p.window.prompt s.layout began
  | _ => true

/-- The version at the `begin` load of the window thread, after a step of it. -/
def Pipeline.windowBegan (s : Pipeline) (began : Nat) : Nat :=
  match s.compute with
  | .running p => p.window.began s.layout began
  | _ => began

namespace Observed

variable {R : Type} [DecidableEq R]

/-- How a step changes the history. -/
def noteWatch (past : Watch R) (s : Observed R) (a : ObservedAct R) (s' : Observed R) : Watch R :=
  match a with
  | .system .window => { past with window := s.system.windowBegan past.window }
  | .system _ => past
  | .collect r => { past with earlier := Function.update past.earlier r (past.log.map Prod.snd) }
  | .observe r =>
      { past with
        observer := Function.update past.observer r
          ((s.observers r).began s.system.layout (past.observer r))
        log := past.log.add (past.earlier r) (s'.observers r) }

/-- One attempt, and every load within the contract's bound. -/
def live (x : Transition.Noted (Observed R) (Watch R)) : ObservedAct R → Bool
  | .system .window => x.now.system.windowPrompt x.past.window
  | .system a => x.now.system.spawnsOnce a
  | .collect _ => true
  | .observe r => (x.now.observers r).prompt x.now.system.layout (x.past.observer r)

/-- The runs of one attempt on a fresh mapping, with any observers. -/
def ReachableLive : Transition.Noted (Observed R) (Watch R) → Prop :=
  Transition.ReachableNoted step noteWatch (fun x a => live x a = true) Start .init

end Observed

/-! ## The invariant of the observers -/

/-- Every sample shows rows, and none goes back behind those before it. -/
structure Logged (l : Layout) (log : Log) : Prop where
  shows : ∀ e ∈ log, Shows l e.2
  order : ∀ e ∈ log, ∀ c ∈ e.1, NotBack l c e.2

/-- One observer, with the samples returned before its last call. -/
structure Observing (l : Layout) (log : Log) (earlier : List TelemetrySnapshot) (o : Observer) :
    Prop where
  shows : Shows l o.snap
  known : ∀ c ∈ earlier, c ∈ log.map Prod.snd
  above : ∀ c ∈ earlier, NotBack l c o.snap
  own : ∀ c ∈ o.collected, c ∈ log.map Prod.snd
  mine : o.pc ≠ .idle → ∀ c ∈ o.collected, c ∈ earlier
  pairs : o.collected.Pairwise (NotBack l)

section Observers

variable {l l' : Layout} {log : Log} {earlier : List TelemetrySnapshot} {o o' : Observer}
  {snap : TelemetrySnapshot}

/-- Publishes leave the log right. -/
theorem Logged.grow (h : Logged l log) (hg : Grows l l') : Logged l' log where
  shows e he := (h.shows e he).grow hg
  order e he c hc := (h.order e he c hc).grow hg

/-- A sample in the log shows rows. -/
theorem Logged.mem_shows (h : Logged l log) {c : TelemetrySnapshot} (hc : c ∈ log.map Prod.snd) :
    Shows l c := by
  obtain ⟨e, he, rfl⟩ := List.mem_map.mp hc
  exact h.shows e he

/-- An observer that has not been called. -/
theorem observing_init (l : Layout) : Observing l [] [] Observer.init where
  shows _ hi := absurd hi (Nat.not_lt_zero _)
  known c hc := by cases hc
  above c hc := by cases hc
  own c hc := by cases hc
  mine hne := absurd rfl hne
  pairs := .nil

namespace Observing

/-- Publishes leave an observer right. -/
theorem grow (h : Observing l log earlier o) (hg : Grows l l') : Observing l' log earlier o where
  shows := h.shows.grow hg
  known := h.known
  above c hc := (h.above c hc).grow hg
  own := h.own
  mine := h.mine
  pairs := h.pairs.imp fun hb => hb.grow hg

/-- Another observer returns. -/
theorem append (h : Observing l log earlier o) (more : Log) :
    Observing l (log ++ more) earlier o where
  shows := h.shows
  known c hc := by
    rw [List.map_append]
    exact List.mem_append_left _ (h.known c hc)
  above := h.above
  own c hc := by
    rw [List.map_append]
    exact List.mem_append_left _ (h.own c hc)
  mine := h.mine
  pairs := h.pairs

/-- A call of `collect_telemetry`. -/
theorem call (h : Observing l log earlier o) (nowNs : UInt64) :
    Observing l log (log.map Prod.snd) (o.call nowNs) where
  shows _ hi := absurd hi (Nat.not_lt_zero _)
  known _ hc := hc
  above _ _ _ _ _ hj := absurd hj (Nat.not_lt_zero _)
  own := h.own
  mine _ := h.own
  pairs := h.pairs

end Observing

/-- A load that adds a point finds the row that is current. -/
def Finds (l : Layout) (o : Observer) : Prop :=
  ∀ id row call row' call', o.pc = .row id row call →
    loadStep (l.window id) row call = (row', call', some true) → row'.publishes ≠ 0 →
    (l.window id).versions.getLast? = some row'

/-- A step of the sample adds what is current or nothing. -/
theorem PointMove.shows (hm : PointMove l o snap) (hf : Finds l o) (h : Shows l o.snap) :
    Shows l snap := by
  cases hm with
  | same hs hn => exact h.congr hs hn
  | point hpc hr hne hsnap =>
      rw [hsnap]
      exact h.addPoint (hf _ _ _ _ _ hpc hr hne)

/-- So it does not fall behind what was shown before. -/
theorem PointMove.notBack (hm : PointMove l o snap) (hf : Finds l o) {c : TelemetrySnapshot}
    (hc : Shows l c) (h : NotBack l c o.snap) : NotBack l c snap := by
  cases hm with
  | same hs hn => exact h.congr hs hn
  | point hpc hr hne hsnap =>
      rw [hsnap]
      exact h.addPoint hc (hf _ _ _ _ _ hpc hr hne)

/-- A step inside a call returns no sample. -/
theorem Log.add_of_ne (log : Log) (earlier : List TelemetrySnapshot) (hpc : o.pc ≠ .idle) :
    log.add earlier o = log := by
  unfold Log.add Observer.returned
  split
  · rename_i hidle
    exact absurd hidle hpc
  · exact List.append_nil _

/-- **One step of an observer.** -/
theorem Observing.move (h : Observing l log earlier o) (hlog : Logged l log) (hf : Finds l o)
    (hbusy : o.pc ≠ .idle) (hm : ObserverMove l o o') :
    Observing l (log.add earlier o') earlier o' ∧ Logged l (log.add earlier o') := by
  have habove : ∀ {snap}, PointMove l o snap → ∀ c ∈ earlier, NotBack l c snap := by
    intro snap hp c hc
    exact hp.notBack hf (hlog.mem_shows (h.known c hc)) (h.above c hc)
  cases hm with
  | @goes pc snap write hp hpc hload =>
      rw [Log.add_of_ne log earlier hpc]
      exact ⟨⟨hp.shows hf h.shows, h.known, habove hp, h.own, fun _ => h.mine hbusy, h.pairs⟩, hlog⟩
  | loading hpc hr =>
      rw [Log.add_of_ne log earlier (by simp)]
      exact ⟨⟨h.shows, h.known, h.above, h.own, fun _ => h.mine hbusy, h.pairs⟩, hlog⟩
  | @finish snap hp =>
      have hadd : log.add earlier { o with pc := .idle, snap := snap,
                                           collected := o.collected ++ [snap] }
          = log ++ [(earlier, snap)] := rfl
      rw [hadd]
      -- the sample returned is the last of this observer's and of the log
      refine ⟨⟨hp.shows hf h.shows, ?_, habove hp, ?_, fun hne => absurd rfl hne, ?_⟩, ?_, ?_⟩
      · intro c hc
        rw [List.map_append]
        exact List.mem_append_left _ (h.known c hc)
      · intro c hc
        rw [List.map_append]
        rcases List.mem_append.mp hc with hold | hnew
        · exact List.mem_append_left _ (h.own c hold)
        · exact List.mem_append_right _ hnew
      · -- the samples an observer has collected were all returned before its call
        rw [List.pairwise_append]
        refine ⟨h.pairs, List.pairwise_singleton _ _, ?_⟩
        intro c hc d hd
        obtain rfl := List.mem_singleton.mp hd
        exact habove hp c (h.mine hbusy c hc)
      · intro e he
        rcases List.mem_append.mp he with hold | hnew
        · exact hlog.shows e hold
        · obtain rfl := List.mem_singleton.mp hnew
          exact hp.shows hf h.shows
      · intro e he
        rcases List.mem_append.mp he with hold | hnew
        · exact hlog.order e hold
        · obtain rfl := List.mem_singleton.mp hnew
          exact habove hp

end Observers

/-! ## One step of the whole -/

/-- The row that a slot with nothing in it gives has no publishes. -/
theorem getLast_of_current {lock : Seqlock WindowState} (hne : lock.current.publishes ≠ 0) :
    lock.versions.getLast? = some lock.current := by
  by_cases hnil : lock.versions = []
  · rw [current_nil hnil] at hne
    exact absurd rfl hne
  · rw [current, List.getLast?_eq_some_getLast hnil, Option.getD_some]

/-- What a load of an observer is about to return. -/
theorem finds_of_loadOk {l : Layout} {o : Observer} {w : Fin kMaxSources → PubPc WindowState}
    {began : Nat} (hl : ∀ id, LockInv (l.window id) (w id))
    (hload : ∀ id row call, o.pc = .row id row call → LoadOk (l.window id) (w id) began call)
    (hprompt : o.prompt l began = true) : Finds l o := by
  intro id row call row' call' hpc hr hne
  have hp : promptLoad (l.window id) began call = true := by
    simpa only [Observer.prompt, hpc] using hprompt
  have hcur := (hload id row call hpc).finds_current (hl id) hp
    (by rw [hr] : (loadStep (l.window id) row call).2.2 = some true)
  rw [hr] at hcur
  obtain rfl : row' = (l.window id).current := hcur
  exact getLast_of_current hne

/-- The load of an observer after a step of it. -/
theorem ObserverMove.loadOk {l : Layout} {o o' : Observer} (hm : ObserverMove l o o')
    {w : Fin kMaxSources → PubPc WindowState} {began : Nat}
    (hl : ∀ id, LockInv (l.window id) (w id))
    (hload : ∀ id row call, o.pc = .row id row call → LoadOk (l.window id) (w id) began call) :
    ∀ id row call, o'.pc = .row id row call →
      LoadOk (l.window id) (w id) (o.began l began) call := by
  intro id row call hpc
  cases hm with
  | goes hp hidle hbegin =>
      rw [hbegin id row call hpc]
      trivial
  | @loading id₀ row₀ row₁ call₀ call₁ hpc₀ hr =>
      obtain ⟨rfl, rfl, rfl⟩ := CollectPc.row.inj hpc
      have hnext : LoadOk _ _ _ (loadStep (l.window id₀) row₀ call₀).2.1 :=
        (hload _ _ _ hpc₀).loadStep (hl id₀)
      rw [hr] at hnext
      simpa only [Observer.began, hpc₀] using hnext
  | finish hp => cases hpc

namespace Observed

variable {R : Type}

/-- The invariant. The threads of an attempt that has ended stay where they were, since
nobody writes to the slots any more. -/
structure Live (s : Observed R) (past : Watch R) (p : Compute) : Prop where
  running : ∀ q, s.system.compute = .running q → q = p
  unborn : s.system.compute = .unborn → p = Compute.init
  relay : Relayed s.system.layout p past.window
  load : ∀ r id row call, (s.observers r).pc = .row id row call →
    LoadOk (s.system.layout.window id) (p.window.pc.call id) (past.observer r) call
  observing : ∀ r, Observing s.system.layout past.log (past.earlier r) (s.observers r)
  logged : Logged s.system.layout past.log

/-- A fresh mapping, and observers that have not been called. -/
theorem live_start {s : Observed R} (h : Start s) : Live s .init Compute.init := by
  obtain ⟨⟨replay, clock, hsys⟩, hobs⟩ := h
  have hc : s.system.compute = .unborn := by rw [hsys]; rfl
  have hl : s.system.layout = Layout.init := by rw [hsys]; rfl
  refine ⟨?_, fun _ => rfl, ?_, ?_, ?_, ?_⟩
  · intro q hq
    rw [hc] at hq
    cases hq
  · rw [hl]
    exact relayed_init 0
  · intro r id row call hpc
    rw [hobs r] at hpc
    cases hpc
  · intro r
    rw [hobs r]
    exact observing_init _
  · exact ⟨fun e he => (by cases he), fun e he => (by cases he)⟩

/-- A step of the pipeline, from what it does to the slots. -/
theorem Live.system {s : Observed R} {past : Watch R} {p p' : Compute} {sys : Pipeline} {n : Nat}
    (h : Live s past p) (hrun : ∀ q, sys.compute = .running q → q = p')
    (hunborn : sys.compute = .unborn → p' = Compute.init) (hrelay : Relayed sys.layout p' n)
    (hgrow : Grows s.system.layout sys.layout)
    (hload : ∀ id b call, LoadOk (s.system.layout.window id) (p.window.pc.call id) b call →
      LoadOk (sys.layout.window id) (p'.window.pc.call id) b call) :
    Live { s with system := sys } { past with window := n } p' where
  running := hrun
  unborn := hunborn
  relay := hrelay
  load r id row call hpc := hload id _ _ (h.load r id row call hpc)
  observing r := (h.observing r).grow hgrow
  logged := h.logged.grow hgrow

/-- A step of the pipeline that touches neither array nor a writer. -/
theorem Live.frame {s : Observed R} {past : Watch R} {p p' : Compute} {sys : Pipeline} {n : Nat}
    (h : Live s past p) (hrun : ∀ q, sys.compute = .running q → q = p')
    (hunborn : sys.compute = .unborn → p' = Compute.init) (hrelay : Relayed s.system.layout p n)
    (hl : sys.layout.latest = s.system.layout.latest)
    (hw : sys.layout.window = s.system.layout.window) (hf : p'.fast = p.fast)
    (hwin : p'.window = p.window) :
    Live { s with system := sys } { past with window := n } p' := by
  refine h.system hrun hunborn (hrelay.frame hl hw hf hwin) ?_ ?_
  · intro id
    exact ⟨[], by rw [hw, List.append_nil]⟩
  · intro id b call hok
    rw [hw, hwin]
    exact hok

/-- The bound may be taken at either side of a step that is not the window thread's. -/
theorem Live.began {s : Observed R} {past : Watch R} {p : Compute} (h : Live s past p) :
    Relayed s.system.layout p (s.system.windowBegan past.window) := by
  unfold Pipeline.windowBegan
  split
  · rename_i q hq
    obtain rfl := h.running q hq
    refine { h.relay with load := ?_ }
    intro last id source call hpc
    have hload := h.relay.load last id source call hpc
    simp only [Window.began, hpc]
    cases call with
    | words a beg i raw => exact hload
    | _ => trivial
  · exact h.relay

/-- What a row in a window slot is a sample of. -/
theorem Live.genuine {s : Observed R} {past : Watch R} {p : Compute} (h : Live s past p)
    {snap : TelemetrySnapshot} (hs : Shows s.system.layout snap) (i : Fin kMaxPoints)
    (hi : i.val < snap.sourceCount) :
    ∃ id, ∃ state ∈ (s.system.layout.latest id).versions,
      snap.sources i = pointOf id state.window := by
  obtain ⟨id, row, hrow, hpoint⟩ := hs i hi
  obtain ⟨state, hstate, rfl⟩ := (h.relay.sampled id).mem (List.mem_append_left _ hrow)
  exact ⟨id, state, hstate, hpoint⟩

/-- The publish counts of a source do not go down from the first sample to the second. -/
def NeverBack (id : Fin kMaxSources) (a b : TelemetrySnapshot) : Prop :=
  ∀ i j : Fin kMaxPoints, i.val < a.sourceCount → j.val < b.sourceCount →
    (a.sources i).id = UInt32.ofNat id.val → (b.sources j).id = UInt32.ofNat id.val →
    (a.sources i).publishes ≤ (b.sources j).publishes

/-- The order of the rows is the order of the states, and that is the order of the counts. -/
theorem Live.neverBack {s : Observed R} {past : Watch R} {p : Compute} (h : Live s past p)
    {a b : TelemetrySnapshot} (hab : NotBack s.system.layout a b) {id : Fin kMaxSources}
    (hlen : (s.system.layout.latest id).versions.length < 2 ^ 32) : NeverBack id a b := by
  intro i j hi hj hida hidb
  obtain ⟨id', row, row', hbefore, ha, hb⟩ := hab i j hi hj (hida.trans hidb.symm)
  obtain rfl : id' = id := by
    rw [ha] at hida
    exact @pointOf_id_inj id' id row row hida
  obtain ⟨state, state', hstates, rfl, rfl⟩ := (h.relay.sampled id').before (hbefore.append _)
  rw [ha, hb]
  exact (h.relay.counts id').numbered.left.le_of_before hlen hstates

/-- Only a rerun makes an attempt unborn. -/
theorem unborn_before {s s' : Pipeline} {a : Act} (h : s.step a = some s')
    (hc : s'.compute = .unborn) : a = .rerun ∨ s.compute = .unborn := by
  cases Pipeline.move_of_step h with
  | rerun hsup => exact .inl rfl
  | _ => first | exact .inr hc | cases hc

/-- The attempt that is spawned is the first. -/
theorem unborn_of_spawn {s : Pipeline} {n : Nat} {pid : UInt32} (hsup : s.sup = .spawnCompute n)
    (h : s.spawnsOnce (.sup pid) = true) : s.compute = .unborn := by
  unfold Pipeline.spawnsOnce at h
  dsimp only at h
  split at h
  · assumption
  · cases h
  · rename_i hno _
    exact absurd hsup (hno n)

variable [DecidableEq R]

/-- **A step of the pipeline.** Only the fast and the window thread touch the slots. -/
theorem live_system {s : Observed R} {past : Watch R} {p : Compute} {a : Act} {sys : Pipeline}
    (h : Live s past p) (hok : live ⟨s, past⟩ (.system a) = true)
    (hs : s.system.step a = some sys) :
    ∃ p', Live { s with system := sys }
      (noteWatch past s (.system a) { s with system := sys }) p' := by
  -- the version that the window thread's load began at, after the step
  obtain ⟨n, hn, hrelay⟩ : ∃ n, noteWatch past s (.system a) { s with system := sys }
      = { past with window := n } ∧ Relayed s.system.layout p n := by
    by_cases hact : a = .window
    · subst hact
      exact ⟨_, rfl, h.began⟩
    · refine ⟨past.window, ?_, h.relay⟩
      cases a with
      | window => exact absurd rfl hact
      | _ => rfl
  rw [hn]
  cases Pipeline.attemptMove hs with
  | unseen hu =>
      exact ⟨p, h.frame (by rw [hu.compute]; exact h.running) (by rw [hu.compute]; exact h.unborn)
        hrelay hu.latest hu.window rfl rfl⟩
  | rerun hl hc hx hh hk =>
      -- ruled out by the condition on the runs
      rcases unborn_before hs hc with rfl | hbefore
      · cases hok
      · refine ⟨p, h.frame (by simp [hc]) (fun _ => h.unborn hbefore) hrelay ?_ ?_ rfl rfl⟩ <;>
          rw [hl] <;> rfl
  | @spawn k pid hact hsup hl hc hx hh hk =>
      subst hact
      -- the first attempt, so the slots are as they were made
      have honce : s.system.spawnsOnce (.sup pid) = true := hok
      have hinit := h.unborn (unborn_of_spawn hsup honce)
      refine ⟨p, h.frame ?_ (by simp [hc]) hrelay (by rw [hl]) (by rw [hl]) rfl rfl⟩
      intro q hq
      rw [hinit]
      exact Child.running_unique hc hq
  | noSpawn hsup hl hc hx hh hk =>
      exact ⟨p, h.frame (by simp [hc]) (by simp [hc]) hrelay (by rw [hl]) (by rw [hl]) rfl rfl⟩
  | reap hw hl hc hx hh hk =>
      exact ⟨p, h.frame (by rw [hc]; exact h.running) (by rw [hc]; exact h.unborn) hrelay
        (by rw [hl]) (by rw [hl]) rfl rfl⟩
  | ended hp hcode hl hc hx hh hk =>
      exact ⟨p, h.frame (by simp [hc]) (by simp [hc]) hrelay (by rw [hl]) (by rw [hl]) rfl rfl⟩
  | @fast q t' hact hp ha hm hc hx hh hk =>
      obtain rfl := h.running q hp
      refine ⟨{ q with fast := t' }, h.system (fun q' hq' => Child.running_unique hc hq')
        (by simp [hc]) (hrelay.fastMove hm) ?_ ?_⟩
      · intro id
        exact ⟨[], by rw [hm.window, List.append_nil]⟩
      · intro id b call hload
        rw [hm.window]
        exact hload
  | @window q t' hact hp ha hm hc hx hh hk =>
      obtain rfl := h.running q hp
      subst hact
      have hbegan : q.window.began s.system.layout past.window = n := by
        have hwin : s.system.windowBegan past.window = n := congrArg Watch.window hn
        rw [← hwin, Pipeline.windowBegan, hp]
      have hprompt : q.window.prompt s.system.layout past.window = true := by
        have hp' : s.system.windowPrompt past.window = true := hok
        rwa [Pipeline.windowPrompt, hp] at hp'
      refine ⟨{ q with window := t' }, h.system (fun q' hq' => Child.running_unique hc hq')
        (by simp [hc]) (hbegan ▸ h.relay.windowMove hprompt hm) ?_ ?_⟩
      · intro id
        rcases (hm.writes id).versions with hsame | ⟨v, -, -, happ⟩
        · exact ⟨[], by rw [hsame, List.append_nil]⟩
        · exact ⟨[v], happ⟩
      · intro id b call hload
        exact (hm.writes id).loadOk hload
  | @snapshot q t' hact hp ha hm hc hx hh hk =>
      obtain rfl := h.running q hp
      exact ⟨{ q with snapshot := t' }, h.frame (fun q' hq' => Child.running_unique hc hq')
        (by simp [hc]) hrelay hm.arrays.1 hm.arrays.2 rfl rfl⟩
  | @watchdog q pc' hact hp ha hm hc hx hh hk =>
      obtain rfl := h.running q hp
      exact ⟨{ q with watchdog := pc' }, h.frame (fun q' hq' => Child.running_unique hc hq')
        (by simp [hc]) hrelay hm.arrays.1 hm.arrays.2 rfl rfl⟩
  | @main q pc' hact hp hm hc hx hh hk =>
      obtain rfl := h.running q hp
      obtain ⟨cd, hl⟩ := computeMainStep_layout hm
      exact ⟨{ q with main := pc' }, h.frame (fun q' hq' => Child.running_unique hc hq')
        (by simp [hc]) hrelay (by rw [hl]) (by rw [hl]) rfl rfl⟩

/-- **A step of an observer.** -/
theorem live_observe {s s' : Observed R} {past : Watch R} {p : Compute} {r : R}
    (h : Live s past p) (hok : live ⟨s, past⟩ (.observe r) = true)
    (hs : s.step (.observe r) = some s') : Live s' (noteWatch past s (.observe r) s') p := by
  simp only [step, Option.map_eq_some_iff] at hs
  obtain ⟨o, ho, rfl⟩ := hs
  have hself : (Function.update s.observers r o) r = o := Function.update_self ..
  have hbusy : (s.observers r).pc ≠ .idle := by
    intro hidle
    simp [Observer.step, hidle] at ho
  have hm := observerMove ho
  have hfinds := finds_of_loadOk h.relay.slots.window (h.load r) hok
  obtain ⟨hobs, hlog⟩ := (h.observing r).move h.logged hfinds hbusy hm
  -- the observer that moved, and the others, which see only a longer log
  refine ⟨h.running, h.unborn, h.relay, ?_, ?_, ?_⟩
  · intro r' id row call hpc
    by_cases hr : r' = r
    · subst hr
      simp only [hself] at hpc
      simp only [noteWatch, Function.update_self]
      exact hm.loadOk h.relay.slots.window (h.load r') id row call hpc
    · simp only [Function.update_of_ne hr] at hpc
      simp only [noteWatch, Function.update_of_ne hr]
      exact h.load r' id row call hpc
  · intro r'
    simp only [noteWatch, hself]
    by_cases hr : r' = r
    · subst hr
      simp only [hself]
      exact hobs
    · simp only [Function.update_of_ne hr]
      exact (h.observing r').append _
  · simp only [noteWatch, hself]
    exact hlog

/-- **A call of `collect_telemetry`.** All that is in the log so far was returned before it. -/
theorem live_collect {s s' : Observed R} {past : Watch R} {p : Compute} {r : R}
    (h : Live s past p) (hs : s.step (.collect r) = some s') :
    Live s' (noteWatch past s (.collect r) s') p := by
  simp only [step] at hs
  split at hs
  · obtain rfl := Option.some.inj hs
    refine ⟨h.running, h.unborn, h.relay, ?_, ?_, h.logged⟩
    · intro r' id row call hpc
      by_cases hr : r' = r
      · subst hr
        simp only [Function.update_self] at hpc
        cases hpc
      · simp only [Function.update_of_ne hr] at hpc
        exact h.load r' id row call hpc
    · intro r'
      simp only [noteWatch]
      by_cases hr : r' = r
      · subst hr
        simp only [Function.update_self]
        exact (h.observing r').call _
      · simp only [Function.update_of_ne hr]
        exact h.observing r'
  · cases hs

/-- The invariant holds in every run. -/
theorem live_reachable {x : Transition.Noted (Observed R) (Watch R)} (h : ReachableLive x) :
    ∃ p, Live x.now x.past p := by
  refine Transition.ReachableNoted.invariant (I := fun s past => ∃ p, Live s past p) ?_ ?_ h
  · intro s hs
    exact ⟨_, live_start hs⟩
  · rintro x a s' - ⟨p, hlive⟩ hok hs
    cases a with
    | system a =>
        simp only [step, Option.map_eq_some_iff] at hs
        obtain ⟨sys, hsys, rfl⟩ := hs
        exact live_system hlive hok hsys
    | collect r => exact ⟨p, live_collect hlive hs⟩
    | observe r => exact ⟨p, live_observe hlive hok hs⟩

/--
**Live rows are genuine and never go backwards.**

For every replay file, every interleaving of the pipeline's processes and threads with any
number of observers, and whatever is killed, as long as there is one compute attempt on the
fresh mapping and no load is overtaken by `2^31` publishes:

* every point that an observer collects has the position, the sequence and the count of a
  state that was published to `latest` for the point's source;
* for a source with fewer than `2^32` publishes the counts do not go down over the samples of
  an observer, nor from a sample of any observer to one that was called for after the
  first was returned;
* the log has every sample that was returned.
-/
theorem live_rows {x : Transition.Noted (Observed R) (Watch R)} (h : ReachableLive x) :
    (∀ r, ∀ snap ∈ (x.now.observers r).collected, ∀ i : Fin kMaxPoints, i.val < snap.sourceCount →
        ∃ id, ∃ state ∈ (x.now.system.layout.latest id).versions,
          snap.sources i = { id := UInt32.ofNat id.val, x := state.posX, y := state.posY
                             publishes := state.publishes, sequence := state.sequence })
      ∧ (∀ id, (x.now.system.layout.latest id).versions.length < 2 ^ 32 →
          (∀ r, (x.now.observers r).collected.Pairwise (NeverBack id))
            ∧ ∀ e ∈ x.past.log, ∀ c ∈ e.1, NeverBack id c e.2)
      ∧ ∀ r, ∀ snap ∈ (x.now.observers r).collected, snap ∈ x.past.log.map Prod.snd := by
  obtain ⟨p, hlive⟩ := live_reachable h
  have hown := fun r => (hlive.observing r).own
  refine ⟨?_, ?_, hown⟩
  · intro r snap hsnap i hi
    exact hlive.genuine (hlive.logged.mem_shows (hown r snap hsnap)) i hi
  · intro id hlen
    refine ⟨?_, ?_⟩
    · intro r
      exact (hlive.observing r).pairs.imp fun hab => hlive.neverBack hab hlen
    · intro e he c hc
      exact hlive.neverBack (hlive.logged.order e he c hc) hlen

/-- Two records of one source, with a sample after the first publish and one after the
second. -/
def twoLooks : List (ObservedAct Unit) :=
  List.flatten
    [List.replicate 6 (.system (.sup 7)), [.system .ingestMain],
      List.replicate 10 (.system .source), List.replicate 13 (.system .frames),
      List.replicate 4 (.system .ingestMain), List.replicate 2 (.system .computeMain),
      List.replicate 20 (.system .fast), List.replicate 100 (.system .window), [.collect ()],
      List.replicate 282 (.observe ()), List.replicate 23 (.system .fast),
      List.replicate 450 (.system .window), [.collect ()], List.replicate 282 (.observe ())]

theorem live_rows_two_looks :
    ∃ x : Transition.Noted (Observed Unit) (Watch Unit), ReachableLive x
      ∧ ∃ a b, (x.now.observers ()).collected = [a, b]
        ∧ a.sources 0 = { id := 1, x := 1010, y := 0, publishes := 1, sequence := 1 }
        ∧ b.sources 0 = { id := 1, x := 1020, y := 0, publishes := 2, sequence := 1 }
        ∧ NeverBack ⟨1, by decide⟩ a b
        ∧ ∃ state ∈ (x.now.system.layout.latest ⟨1, by decide⟩).versions,
          state.posX = 1020 ∧ state.publishes = 2 := by
  have h : (Transition.execWhen (Transition.notedStep step noteWatch) live
      ⟨⟨Pipeline.start (IngestRun.copies 2) 1, fun _ : Unit => Observer.init⟩, .init⟩ twoLooks).any
      (fun x => decide ((x.now.system.layout.latest ⟨1, by decide⟩).versions.length = 2)
        && decide ((x.now.observers ()).collected.map (fun snap => (snap.sourceCount, snap.sources 0))
          = [(1, { id := 1, x := 1010, y := 0, publishes := 1, sequence := 1 }),
            (1, { id := 1, x := 1020, y := 0, publishes := 2, sequence := 1 })])) = true := by
    decide +kernel
  obtain ⟨x, hrun, hx⟩ := Option.any_eq_true _ _ |>.mp h
  simp only [Bool.and_eq_true, decide_eq_true_eq, List.map_eq_cons_iff, List.map_eq_nil_iff,
    Prod.mk.injEq] at hx
  obtain ⟨hlen, a, _, hcollected, ⟨-, ha⟩, b, _, rfl, ⟨hcount, hb⟩, rfl⟩ := hx
  have hr : ReachableLive x := Transition.ReachableNoted.execWhen (fun _ _ hg => hg)
    ⟨⟨_, _, rfl⟩, fun _ => rfl⟩ hrun
  obtain ⟨hgenuine, horder, -⟩ := live_rows hr
  obtain ⟨id, state, hmem, hpoint⟩ :=
    hgenuine () b (by rw [hcollected]; simp) 0 (by rw [hcount]; decide)
  rw [hb] at hpoint
  obtain ⟨hid, hx, -, hpub, -⟩ := SourcePoint.mk.inj hpoint
  obtain rfl : ⟨1, by decide⟩ = id := @pointOf_id_inj _ _ {} {} hid
  have hpair := (horder ⟨1, by decide⟩ (by rw [hlen]; decide)).1 ()
  rw [hcollected] at hpair
  exact ⟨x, hr, a, b, hcollected, ha, hb, List.rel_of_pairwise_cons hpair List.mem_cons_self, state,
    hmem, hx.symm, hpub.symm⟩

end Observed

end RateHub
