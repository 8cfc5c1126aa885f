import RateHub.Proof.FleetRows
import RateHub.Proof.IngestRefines
import RateHub.Proof.LiveRows

/-!
# What the pipeline is for

Without processes, threads and slots: the good records of the replay file go one after the
other through `integrate`, and the output file shows where that leaves each source.
`expected` is the snapshot that says so.

The fast thread does this step by step, and what it has published last for a source is its
working set's row of that source: `Current` says this in every state of the thread, with
the publish that is in progress counted in.
-/

namespace RateHub

open Seqlock

/-! ## The specification -/

/-- The fast thread's working set after a list of records. -/
def replayed (records : List Record) : FleetRun :=
  records.foldl (FleetRun.absorb kFastPeriodNs) .init

/-- The row a snapshot shows of a source. -/
def FleetRun.window (t : FleetRun) (id : Fin kMaxSources) : WindowState :=
  { posX := t.fleet.posX id, posY := t.fleet.posY id, sequence := t.fleet.sequence id
    publishes := t.publishes id }

/-- The snapshot that a compute attempt is to make of a list of records. -/
def expected (attempt : Nat) (records : List Record) : Snapshot :=
  { generation := UInt32.ofNat attempt, rows := (replayed records).window }

/-- A row that no record has moved is as it was constructed. -/
def FleetRun.Blank (t : FleetRun) : Prop := ∀ id, t.fleet.valid id = false → t.row id = {}

theorem FleetRun.blank_init : FleetRun.init.Blank := fun _ _ => rfl

theorem FleetRun.Blank.setRow {t : FleetRun} (h : t.Blank) (j : Fin kMaxSources) {row : FleetRow}
    (hrow : row.valid = true) : (t.setRow j row).Blank := by
  intro id hv
  have hrows := congrFun (t.setRow_row j row) id
  by_cases hj : id = j
  · subst hj
    rw [Function.update_self] at hrows
    have hval : (t.setRow id row).fleet.valid id = row.valid := congrArg FleetRow.valid hrows
    rw [hval, hrow] at hv
    cases hv
  · rw [Function.update_of_ne hj] at hrows
    rw [hrows]
    have hval : (t.setRow j row).fleet.valid id = t.fleet.valid id := congrArg FleetRow.valid hrows
    exact h id (hval ▸ hv)

theorem FleetRun.Blank.absorb {t : FleetRun} (h : t.Blank) {dtNs : Int64} (hdt : 0 ≤ dtNs.toInt)
    (r : Record) : (t.absorb dtNs r).Blank := by
  rcases lt_or_ge r.sourceId.toNat kMaxSources with hid | hid
  · rcases t.absorb_cases r hdt hid with ⟨_, _, habs⟩ | ⟨row, hstep, _, habs⟩
    · rw [habs]
      exact h
    · rw [habs]
      refine h.setRow _ ?_
      unfold FleetRow.step at hstep
      repeat' split at hstep
      all_goals cases hstep
      rfl
  · have habs : t.absorb dtNs r = t := (t.absorb_badSource r hid).2
    rw [habs]
    exact h

theorem blank_replayed (records : List Record) : (replayed records).Blank := by
  have hfold : ∀ t : FleetRun, t.Blank →
      (records.foldl (FleetRun.absorb kFastPeriodNs) t).Blank := by
    induction records with
    | nil => exact fun _ h => h
    | cons r records ih => exact fun t h => ih _ (h.absorb (by decide) r)
  exact hfold _ FleetRun.blank_init

/-! ## What the fast thread has published -/

/-- The state of a source that the fast thread published last, or is publishing, is its
working set's. -/
def Current (l : Layout) (t : Fast) : Prop :=
  ∀ id, (offered (l.latest id) (t.pc.call id)).getLast?
    = if t.fleet.valid id then some (t.fleet.state id (t.publishes id)) else none

theorem current_init {l : Layout} (h : l.latest = Layout.init.latest) : Current l Fast.init := by
  intro id
  rw [h]
  rfl

/-- What `absorb` does to one source: nothing, or it starts to publish its new row. -/
theorem Fast.absorb_offers (t : Fast) (record : Record) (id : Fin kMaxSources) :
    ((t.absorb record).pc.call id = .idle
        ∧ (t.absorb record).fleet.valid id = t.fleet.valid id
        ∧ (t.absorb record).fleet.state id ((t.absorb record).publishes id)
            = t.fleet.state id (t.publishes id))
      ∨ ((t.absorb record).fleet.valid id = true
        ∧ (t.absorb record).pc.call id
            = .loadSeq ((t.absorb record).fleet.state id ((t.absorb record).publishes id))) := by
  unfold Fast.absorb
  cases hint : integrate t.fleet record kFastPeriodNs with
  | mk status fleet =>
      simp only [integrate] at hint
      split at hint
      · obtain ⟨rfl, rfl⟩ := Prod.mk.inj hint
        exact .inl ⟨rfl, rfl, rfl⟩
      split at hint
      · obtain ⟨rfl, rfl⟩ := Prod.mk.inj hint
        exact .inl ⟨rfl, rfl, rfl⟩
      split at hint
      · obtain ⟨rfl, rfl⟩ := Prod.mk.inj hint
        by_cases hid : sourceIndex record.sourceId = id
        · subst hid
          refine .inr ⟨by simp, ?_⟩
          simp only [FastPc.call_self, Function.update_self]
        · refine .inl ⟨FastPc.call_of_ne hid _ _, ?_, ?_⟩
          · simp [Ne.symm hid]
          · simp [FleetSoA.state, Ne.symm hid]
      · obtain ⟨rfl, rfl⟩ := Prod.mk.inj hint
        exact .inl ⟨rfl, rfl, rfl⟩

/-- **One step of the fast thread.** -/
theorem FastMove.current {clock : UInt64} {l l' : Layout} {t t' : Fast}
    (h : FastMove clock l t l' t') (hc : Current l t) : Current l' t' := by
  intro id
  have hold := hc id
  cases h with
  | @took call call' ring record hpc hr =>
      have hidle : t.pc.call id = .idle := by rw [hpc]; rfl
      rw [hidle] at hold
      rcases t.absorb_offers record id with ⟨hcall, hv, hst⟩ | ⟨hv, hcall⟩
      · rw [hcall, hv, hst]
        exact hold
      · rw [hcall, hv]
        simp [offered, PubPc.value]
  | @storing j call call' count lock hpc hr hin =>
      rw [hpc] at hold
      by_cases hid : j = id
      · subst hid
        have hsame := offered_publishStep (l.latest j) call
        rw [hr] at hsame
        simp only [FastPc.call_self, Function.update_self] at hold ⊢
        rw [hsame]
        exact hold
      · simp only [FastPc.call_of_ne hid, Function.update_of_ne (Ne.symm hid)] at hold ⊢
        exact hold
  | @stored j call count lock hpc hr =>
      rw [hpc] at hold
      show (offered (Function.update l.latest j lock id) .idle).getLast? = _
      by_cases hid : j = id
      · subst hid
        have hsame := offered_publishStep (l.latest j) call
        rw [hr] at hsame
        simp only [FastPc.call_self, Function.update_self] at hold ⊢
        rw [hsame]
        exact hold
      · simp only [FastPc.call_of_ne hid, Function.update_of_ne (Ne.symm hid)] at hold ⊢
        exact hold
  | _ hpc =>
      rw [hpc] at hold
      exact hold

/-- **A fast thread that has ended has left the rows of its records behind.** -/
theorem Current.lastRow {l : Layout} {t : Fast} (h : Current l t) (hw : t.Working)
    (hd : t.pc.isDone = true) (id : Fin kMaxSources) :
    l.lastRow id = (replayed t.integrated).window id := by
  have hcur := h id
  have hrun : FleetRun.mk t.fleet t.publishes = replayed t.integrated := hw
  rw [FastPc.call_of_isDone hd] at hcur
  have hversions : offered (l.latest id) .idle = (l.latest id).versions := List.append_nil _
  rw [hversions] at hcur
  unfold Layout.lastRow
  rw [hcur, ← hrun]
  cases hv : t.fleet.valid id with
  | true => rfl
  | false =>
      have hblank : (FleetRun.mk t.fleet t.publishes).row id = {} := by
        rw [hrun]
        exact blank_replayed _ id (by rw [← hrun]; exact hv)
      simp only [FleetRun.row, FleetRow.mk.injEq] at hblank
      obtain ⟨hx, hy, _, _, hseq, _, _, hpub⟩ := hblank
      simp [FleetRun.window, hx, hy, hseq, hpub]

end RateHub
