import RateHub.Process.Observe
import RateHub.Sync.SeqlockProof

/-!
# A call of `collect_telemetry` as a whole

A call makes its loads one after the other, and the mapping may be a different one at each
of them: a call is described by the layouts `ls 0, ls 1, ..` its loads find. Whatever these
are, the call returns. Its sample has at most `kMaxPoints` points, and `idle` is decided by
three of the first loads.
-/

namespace RateHub

open Seqlock

/-- An observer after `n` loads, of which the `k`-th finds `ls k`. -/
def Observer.loads (ls : Nat → Layout) (o : Observer) : Nat → Observer
  | 0 => o
  | n + 1 =>
      match o.step (ls 0) with
      | some o' => o'.loads (fun k => ls (k + 1)) n
      | none => o

/-- `collect_telemetry`, called at `nowNs`, returns `snap` when its loads find `ls`. -/
def Collects (ls : Nat → Layout) (nowNs : UInt64) (snap : TelemetrySnapshot) : Prop :=
  ∃ n, ((Observer.init.call nowNs).loads ls n).pc = .idle
    ∧ ((Observer.init.call nowNs).loads ls n).collected = [snap]

/-- Outside a call nothing is loaded. -/
theorem loads_idle {o : Observer} (h : o.pc = .idle) (ls : Nat → Layout) (n : Nat) :
    o.loads ls n = o := by
  cases n with
  | zero => rfl
  | succ n =>
      have hnone : o.step (ls 0) = none := by simp only [Observer.step, h]
      rw [Observer.loads, hnone]

/-- A call that has returned stays returned. -/
theorem loads_stays {ls : Nat → Layout} {o : Observer} {n m : Nat}
    (h : (o.loads ls n).pc = .idle) (hle : n ≤ m) : o.loads ls m = o.loads ls n := by
  induction n generalizing ls o m with
  | zero => exact loads_idle h ls m
  | succ n ih =>
      obtain ⟨m, rfl⟩ : ∃ k, m = k + 1 := ⟨m - 1, by omega⟩
      rw [Observer.loads] at h ⊢
      rw [Observer.loads]
      cases hstep : o.step (ls 0) with
      | none => rfl
      | some o' =>
          simp only [hstep] at h ⊢
          exact ih h (by omega)

/-- A call returns one sample. -/
theorem Collects.unique {ls : Nat → Layout} {nowNs : UInt64} {snap snap' : TelemetrySnapshot}
    (h : Collects ls nowNs snap) (h' : Collects ls nowNs snap') : snap = snap' := by
  obtain ⟨n, hpc, hcol⟩ := h
  obtain ⟨m, hpc', hcol'⟩ := h'
  have hsame : [snap] = [snap'] := by
    rcases Nat.le_total n m with hle | hle
    · rw [← hcol, ← hcol', loads_stays hpc hle]
    · rw [← hcol, ← hcol', loads_stays hpc' hle]
  exact (List.cons.inj hsame).1

/-- `snap.idle`, as the loads of its three flags find them. -/
def idleOf (ls : Nat → Layout) : UInt32 :=
  if (ls 1).control.shutdown ≠ 0 ∧ (ls 8).control.ingestDone ≠ 0 ∧ (ls 12).control.computeDone ≠ 0
  then 1 else 0

theorem idleOf_eq_one {ls : Nat → Layout} :
    idleOf ls = 1 ↔ (ls 1).control.shutdown ≠ 0 ∧ (ls 8).control.ingestDone ≠ 0
      ∧ (ls 12).control.computeDone ≠ 0 := by
  unfold idleOf
  split
  · rename_i hall
    exact ⟨fun _ => hall, fun _ => rfl⟩
  · rename_i hnot
    exact ⟨fun hone => absurd hone (by decide), fun hall => absurd hall hnot⟩

/-- The loads before the loop. -/
theorem loads_words (ls : Nat → Layout) (nowNs : UInt64) :
    ∃ o : Observer,
      (∀ n, (Observer.init.call nowNs).loads ls (n + 26) = o.loads (fun k => ls (k + 26)) n)
      ∧ o.pc = .row (sourceIndex 0) {} (.loadBegin 0) ∧ o.collected = []
      ∧ o.snap.sourceCount = 0 ∧ o.snap.idle = idleOf ls :=
  ⟨_, fun _ => rfl, rfl, rfl, rfl, rfl⟩

/-! ## The rows -/

/-- The loads left, at most, of an observer in the loop. -/
def CollectPc.left : CollectPc → Nat
  | .row id _ call =>
      (kMaxSources - 1 - id.val) * (LoadPc.loadBegin 0 : LoadPc WindowState).left + call.left
  | _ => 0

/-- A load in the loop goes on with its row, or leaves it with at most one point more. -/
theorem step_row {l : Layout} {o : Observer} {id : Fin kMaxSources} {row : WindowState}
    {call : LoadPc WindowState} (hpc : o.pc = .row id row call) (hlive : call.live) :
    ∃ o', o.step l = some o'
      ∧ ((∃ row' call', o' = { o with pc := .row id row' call' } ∧ call'.live
            ∧ call'.left < call.left)
        ∨ ∃ snap : TelemetrySnapshot, snap.idle = o.snap.idle
            ∧ (o.snap.sourceCount ≤ kMaxPoints → snap.sourceCount ≤ kMaxPoints)
            ∧ (o' = { o with snap := snap }.next id ∨ o' = { o with snap := snap }.finish)) := by
  unfold Observer.step
  simp only [hpc]
  split
  · rename_i row' call' hr
    obtain ⟨hlive', hlt⟩ := loadStep_left hlive hr
    exact ⟨_, rfl, .inl ⟨row', call', rfl, hlive', hlt⟩⟩
  · rename_i row' call' ok hr
    split
    · exact ⟨_, rfl, .inr ⟨o.snap, rfl, fun h => h, .inl rfl⟩⟩
    · split
      · exact ⟨_, rfl, .inr ⟨o.snap, rfl, fun h => h, .inr rfl⟩⟩
      · rename_i hroom
        exact ⟨_, rfl, .inr ⟨o.snap.addPoint id row', rfl, fun _ => Nat.lt_of_not_le hroom, .inl rfl⟩⟩

/-- **The loop ends**, from any row on. -/
theorem loads_rows {m : Nat} : ∀ (ls : Nat → Layout) {o : Observer} {id : Fin kMaxSources}
    {row : WindowState} {call : LoadPc WindowState}, o.pc = .row id row call → call.live →
    o.pc.left ≤ m → o.snap.sourceCount ≤ kMaxPoints →
    ∃ n snap, (o.loads ls n).pc = .idle ∧ (o.loads ls n).collected = o.collected ++ [snap]
      ∧ snap.sourceCount ≤ kMaxPoints ∧ snap.idle = o.snap.idle := by
  induction m with
  | zero =>
      intro ls o id row call hpc hlive hleft _
      have hpos := hlive.left_pos
      rw [hpc, CollectPc.left] at hleft
      omega
  | succ m ih =>
      intro ls o id row call hpc hlive hleft hcount
      have hpos := hlive.left_pos
      rw [hpc, CollectPc.left] at hleft
      obtain ⟨o', hstep, hcase⟩ := step_row (l := ls 0) hpc hlive
      have hloads : ∀ n, o.loads ls (n + 1) = o'.loads (fun k => ls (k + 1)) n := by
        intro n
        rw [Observer.loads, hstep]
      rcases hcase with ⟨row', call', rfl, hlive', hlt⟩ | ⟨snap, hidle, hle, rfl | rfl⟩
      · obtain ⟨n, snap, hend, hcol, hsnap, hidle⟩ :=
          @ih (fun k => ls (k + 1)) { o with pc := .row id row' call' } id row' call' rfl hlive'
            (by simp only [CollectPc.left]; omega) hcount
        exact ⟨n + 1, snap, by rw [hloads, hend], by rw [hloads, hcol], hsnap, hidle⟩
      · by_cases hlast : id.val + 1 < kMaxSources
        · have hnext : { o with snap := snap }.next id
              = { o with snap := snap, pc := .row ⟨id.val + 1, hlast⟩ {} (.loadBegin 0) } :=
            dif_pos hlast
          have hsplit : (kMaxSources - 1 - id.val) * (LoadPc.loadBegin 0 : LoadPc WindowState).left
              = (kMaxSources - 1 - (id.val + 1)) * (LoadPc.loadBegin 0 : LoadPc WindowState).left
                + (LoadPc.loadBegin 0 : LoadPc WindowState).left := by
            rw [show kMaxSources - 1 - id.val = kMaxSources - 1 - (id.val + 1) + 1 by omega,
              Nat.add_mul, Nat.one_mul]
          obtain ⟨n, snap', hend, hcol, hsnap, hidle'⟩ :=
            @ih (fun k => ls (k + 1)) _ _ _ (.loadBegin 0) (congrArg Observer.pc hnext)
              (show 0 < 64 by decide) (by rw [hnext]; simp only [CollectPc.left]; omega)
              (by rw [hnext]; exact hle hcount)
          rw [hnext] at hcol hidle'
          exact ⟨n + 1, snap', by rw [hloads, hend], by rw [hloads, hnext, hcol], hsnap,
            hidle'.trans hidle⟩
        · have hnext : { o with snap := snap }.next id = { o with snap := snap }.finish :=
            dif_neg hlast
          rw [hnext] at hloads
          exact ⟨1, snap, by rw [hloads]; rfl, by rw [hloads]; rfl, hle hcount, hidle⟩
      · exact ⟨1, snap, by rw [hloads]; rfl, by rw [hloads]; rfl, hle hcount, hidle⟩

/--
**A call of `collect_telemetry` returns**, whatever its loads find. The sample has at most
`kMaxPoints` points, and its `idle` is that of the three flags as they were loaded.
-/
theorem collects (ls : Nat → Layout) (nowNs : UInt64) :
    ∃ snap, (∀ snap', Collects ls nowNs snap' ↔ snap' = snap) ∧ snap.sourceCount ≤ kMaxPoints
      ∧ snap.idle = idleOf ls := by
  obtain ⟨o, hwords, hpc, hnil, hzero, hidle⟩ := loads_words ls nowNs
  obtain ⟨n, snap, hend, hcol, hcount, hsame⟩ := loads_rows (fun k => ls (k + 26)) hpc
    (show 0 < 64 by decide) (Nat.le_refl _) (by rw [hzero]; exact Nat.zero_le _)
  rw [hnil, List.nil_append] at hcol
  have hreturns : Collects ls nowNs snap := ⟨n + 26, by rw [hwords, hend], by rw [hwords, hcol]⟩
  refine ⟨snap, fun snap' => ⟨fun h => h.unique hreturns, ?_⟩, hcount, hsame.trans hidle⟩
  intro heq
  rw [heq]
  exact hreturns

end RateHub
