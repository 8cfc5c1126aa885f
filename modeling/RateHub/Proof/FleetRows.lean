import Mathlib.Algebra.BigOperators.Group.List.Basic
import Mathlib.Algebra.Order.Ring.Abs
import Mathlib.Algebra.Order.Ring.Int
import RateHub.Lib.Keyed
import RateHub.Proof.Attempts

/-!
# The rows of the fleet, one source at a time

Two facts about `integrate`. The first is arithmetic: `step` computes
`pos + vel * dt_ns / 10^9` as if in unbounded integers, and refuses exactly when that does
not fit in 32 bits; the check in front of the product refuses nothing that would have
fitted. The second is that a record moves one row of the fleet and refused records move
none, so the fast thread's working set is a table of independent rows and what the
library says of those applies: each row is a sum over the records it accepted.
-/

namespace RateHub

/-! ## The arithmetic of one step -/

/-- `pos + vel * dt_ns / 10^9` in unbounded integers, the division toward zero. -/
def moved (pos vel : Int32) (dtNs : Int64) : Int :=
  pos.toInt + (vel.toInt * dtNs.toInt).tdiv 1000000000

/-- The magnitude `step` divides by. -/
theorem magnitude_toInt (vel : Int32) :
    (if 0 < vel then vel.toInt64 else -vel.toInt64 : Int64).toInt = |vel.toInt| := by
  have hlo := vel.le_toInt
  have hhi := vel.toInt_lt
  split
  · rename_i h
    rw [Int32.lt_iff_toInt_lt] at h
    rw [Int32.toInt_toInt64, abs_of_pos (by simpa using h)]
  · rename_i h
    rw [Int32.lt_iff_toInt_lt, not_lt] at h
    have h0 : vel.toInt ≤ 0 := by simpa using h
    rw [Int64.toInt_neg, Int32.toInt_toInt64, abs_of_nonpos h0]
    exact Int.bmod_eq_of_le (by omega) (by omega)

/-- How far the quotient can be from zero. -/
theorem tdiv_billion {p b : Int} :
    (|p| ≤ b → |p.tdiv 1000000000| ≤ b / 1000000000)
      ∧ (b ≤ |p| → b / 1000000000 ≤ |p.tdiv 1000000000|) := by
  rcases le_total 0 p with hp | hp
  · rw [Int.tdiv_eq_ediv_of_nonneg hp, abs_of_nonneg hp,
      abs_of_nonneg (Int.ediv_nonneg hp (by decide))]
    omega
  · have hneg : p.tdiv 1000000000 = -(-p / 1000000000) := by
      have h := Int.tdiv_eq_ediv_of_nonneg (a := -p) (b := 1000000000) (by omega)
      rw [Int.neg_tdiv] at h
      omega
    rw [hneg, abs_of_nonpos hp, abs_neg, abs_of_nonneg (Int.ediv_nonneg (by omega) (by decide))]
    omega

/-- The check in front of the product: it passes when the product fits in 64 bits. -/
theorem overflow_check {vel : Int32} {dtNs : Int64} (hv : vel ≠ 0) (hdt : 0 ≤ dtNs.toInt) :
    Int64.maxValue / (if 0 < vel then vel.toInt64 else -vel.toInt64) < dtNs
      ↔ 2 ^ 63 ≤ |vel.toInt * dtNs.toInt| := by
  have hne : vel.toInt ≠ 0 := by
    intro h0
    exact hv (Int32.toInt_inj.mp (by simpa using h0))
  have hpos : 0 < |vel.toInt| := abs_pos.mpr hne
  rw [Int64.lt_iff_toInt_lt, Int64.toInt_div_of_ne_left _ _ (by decide), magnitude_toInt,
    Int64.toInt_maxValue, Int.tdiv_eq_ediv_of_nonneg (by decide), abs_mul, abs_of_nonneg hdt,
    Int.ediv_lt_iff_lt_mul hpos, mul_comm]
  omega

section PastTheCheck

variable {vel : Int32} {dtNs : Int64} (hdt : 0 ≤ dtNs.toInt)
  (hpass : ¬(vel ≠ 0 ∧ Int64.maxValue / (if 0 < vel then vel.toInt64 else -vel.toInt64) < dtNs))

include hdt hpass

theorem product_small : |vel.toInt * dtNs.toInt| ≤ 2 ^ 63 - 1 := by
  by_cases hv : vel = 0
  · subst hv
    simp
  · have hno : ¬2 ^ 63 ≤ |vel.toInt * dtNs.toInt| := by
      intro hbig
      exact hpass ⟨hv, (overflow_check hv hdt).mpr hbig⟩
    omega

/-- Past the check the product is exact, -/
theorem product_toInt : (vel.toInt64 * dtNs).toInt = vel.toInt * dtNs.toInt := by
  have hsmall := product_small hdt hpass
  rw [Int64.toInt_mul, Int32.toInt_toInt64]
  rcases abs_cases (vel.toInt * dtNs.toInt) with h | h <;>
    exact Int.bmod_eq_of_le (by omega) (by omega)

/-- so is the quotient, -/
theorem quotient_toInt : (vel.toInt64 * dtNs / 1000000000).toInt
    = (vel.toInt * dtNs.toInt).tdiv 1000000000 := by
  rw [Int64.toInt_div_of_ne_right _ _ (by decide), product_toInt hdt hpass]
  rfl

/-- and so is the sum. -/
theorem sum_toInt (pos : Int32) :
    (pos.toInt64 + vel.toInt64 * dtNs / 1000000000).toInt = moved pos vel dtNs := by
  have hlo := pos.le_toInt
  have hhi := pos.toInt_lt
  have hnear := tdiv_billion.1 (product_small hdt hpass)
  rw [Int64.toInt_add, quotient_toInt hdt hpass, Int32.toInt_toInt64]
  unfold moved
  rcases abs_cases ((vel.toInt * dtNs.toInt).tdiv 1000000000) with h | h <;>
    exact Int.bmod_eq_of_le (by simp; omega) (by simp; omega)

end PastTheCheck

/-- **What `step` computes.** -/
theorem fleetStep_eq (pos vel : Int32) {dtNs : Int64} (hdt : 0 ≤ dtNs.toInt) :
    fleetStep pos vel dtNs =
      if -2 ^ 31 ≤ moved pos vel dtNs ∧ moved pos vel dtNs < 2 ^ 31
      then some (Int64.ofInt (moved pos vel dtNs)) else none := by
  have hlo := pos.le_toInt
  have hhi := pos.toInt_lt
  by_cases hguard : vel ≠ 0 ∧
      Int64.maxValue / (if 0 < vel then vel.toInt64 else -vel.toInt64) < dtNs
  · -- the product does not fit in 64 bits, so the quotient is far out of range
    have hbig := (overflow_check hguard.1 hdt).mp hguard.2
    have hfar := tdiv_billion.2 hbig
    have hout : ¬(-2 ^ 31 ≤ moved pos vel dtNs ∧ moved pos vel dtNs < 2 ^ 31) := by
      unfold moved
      rcases abs_cases ((vel.toInt * dtNs.toInt).tdiv 1000000000) with h | h <;> omega
    rw [if_neg hout]
    unfold fleetStep
    simp only [if_pos hguard]
  · have hnext := sum_toInt hdt hguard pos
    unfold fleetStep
    simp only [if_neg hguard, Int64.le_iff_toInt_le, hnext, Int32.toInt_toInt64,
      Int32.toInt_maxValue, Int32.toInt_minValue]
    have hofInt : pos.toInt64 + vel.toInt64 * dtNs / 1000000000 = Int64.ofInt (moved pos vel dtNs) := by
      rw [← hnext, Int64.ofInt_toInt]
    rw [hofInt]
    congr 1
    exact propext ⟨fun h => ⟨h.2, by omega⟩, fun h => ⟨by omega, h.1⟩⟩

/-! ## One row -/

/-- What the fast thread keeps of one source. -/
structure FleetRow where
  posX : Int32 := 0
  posY : Int32 := 0
  velX : Int32 := 0
  velY : Int32 := 0
  sequence : UInt32 := 0
  timeNs : Int64 := 0
  valid : Bool := false
  publishes : UInt32 := 0
  deriving DecidableEq, Repr

/-- Where a record's step starts on an axis. -/
def FleetRow.base (row : FleetRow) (pos sample : Int32) : Int32 := if row.valid then pos else sample

/-- A record, offered to its row: the row after it, or `none` when it is refused. -/
def FleetRow.step (dtNs : Int64) (row : FleetRow) (r : Record) : Option FleetRow :=
  if kMaxSources ≤ r.sourceId.toNat then none
  else
    match fleetStep (row.base row.posX r.posX) r.velX dtNs,
        fleetStep (row.base row.posY r.posY) r.velY dtNs with
    | some nextX, some nextY =>
        some { posX := nextX.toInt32, posY := nextY.toInt32, velX := r.velX, velY := r.velY
               sequence := r.sequence, timeNs := r.timeNs, valid := true
               publishes := row.publishes + 1 }
    | _, _ => none

/-- The row of a source. -/
def FleetRun.row (t : FleetRun) (id : Fin kMaxSources) : FleetRow :=
  { posX := t.fleet.posX id, posY := t.fleet.posY id, velX := t.fleet.velX id
    velY := t.fleet.velY id, sequence := t.fleet.sequence id, timeNs := t.fleet.timeNs id
    valid := t.fleet.valid id, publishes := t.publishes id }

theorem FleetRun.ext_rows {t t' : FleetRun} (h : ∀ id, t.row id = t'.row id) : t = t' := by
  obtain ⟨⟨posX, posY, velX, velY, sequence, timeNs, valid⟩, publishes⟩ := t
  obtain ⟨⟨posX', posY', velX', velY', sequence', timeNs', valid'⟩, publishes'⟩ := t'
  simp only [FleetRun.row, FleetRow.mk.injEq, forall_and] at h
  obtain ⟨h1, h2, h3, h4, h5, h6, h7, h8⟩ := h
  rw [funext h1, funext h2, funext h3, funext h4, funext h5, funext h6, funext h7, funext h8]

/-! ## The table of rows -/

/-- The working set as a table over every id a record can carry; rows beyond the fleet stay
as they are. -/
def FleetRun.table (t : FleetRun) (id : UInt32) : FleetRow :=
  if id.toNat < kMaxSources then t.row (sourceIndex id) else {}

theorem sourceIndex_inj {a b : UInt32} (ha : a.toNat < kMaxSources) (hb : b.toNat < kMaxSources)
    (h : sourceIndex a = sourceIndex b) : a = b := by
  have hv := congrArg Fin.val h
  simp only [sourceIndex, Fin.ofNat, Nat.mod_eq_of_lt ha, Nat.mod_eq_of_lt hb] at hv
  exact UInt32.toNat_inj.mp hv

/-- The id of a row, as records carry it. -/
theorem exists_sourceIndex (id : Fin kMaxSources) :
    (UInt32.ofNat id.val).toNat = id.val ∧ sourceIndex (UInt32.ofNat id.val) = id := by
  have hlt := id.isLt
  have hid : (UInt32.ofNat id.val).toNat = id.val := by
    rw [UInt32.toNat_ofNat']
    exact Nat.mod_eq_of_lt (Nat.lt_trans hlt (by decide))
  refine ⟨hid, Fin.ext ?_⟩
  rw [sourceIndex, hid]
  exact Nat.mod_eq_of_lt hlt

/-- Store a row. -/
def FleetRun.setRow (t : FleetRun) (id : Fin kMaxSources) (row : FleetRow) : FleetRun :=
  { fleet :=
      { posX := Function.update t.fleet.posX id row.posX
        posY := Function.update t.fleet.posY id row.posY
        velX := Function.update t.fleet.velX id row.velX
        velY := Function.update t.fleet.velY id row.velY
        sequence := Function.update t.fleet.sequence id row.sequence
        timeNs := Function.update t.fleet.timeNs id row.timeNs
        valid := Function.update t.fleet.valid id row.valid }
    publishes := Function.update t.publishes id row.publishes }

theorem FleetRun.setRow_row (t : FleetRun) (id : Fin kMaxSources) (row : FleetRow) :
    (t.setRow id row).row = Function.update t.row id row := by
  funext k
  by_cases hk : k = id
  · subst hk
    simp [FleetRun.setRow, FleetRun.row]
  · simp [FleetRun.setRow, FleetRun.row, hk]

/-- **`integrate` and the count, seen from the row.** -/
theorem FleetRun.absorb_cases (t : FleetRun) (r : Record) {dtNs : Int64} (hdt : 0 ≤ dtNs.toInt)
    (hid : r.sourceId.toNat < kMaxSources) :
    ((t.row (sourceIndex r.sourceId)).step dtNs r = none
        ∧ (integrate t.fleet r dtNs).1 ≠ .ok ∧ t.absorb dtNs r = t)
      ∨ ∃ row, (t.row (sourceIndex r.sourceId)).step dtNs r = some row
          ∧ (integrate t.fleet r dtNs).1 = .ok
          ∧ t.absorb dtNs r = t.setRow (sourceIndex r.sourceId) row := by
  have hid' : ¬kMaxSources ≤ r.sourceId.toNat := not_le.mpr hid
  have hnn : ¬dtNs < 0 := by
    rw [Int64.lt_iff_toInt_lt, Int64.toInt_zero]
    omega
  -- both sides ask `step` the same two questions
  have hX : fleetStep (if t.fleet.valid (sourceIndex r.sourceId) then
        t.fleet.posX (sourceIndex r.sourceId) else r.posX) r.velX dtNs
      = fleetStep ((t.row (sourceIndex r.sourceId)).base (t.row (sourceIndex r.sourceId)).posX r.posX)
        r.velX dtNs := rfl
  have hY : fleetStep (if t.fleet.valid (sourceIndex r.sourceId) then
        t.fleet.posY (sourceIndex r.sourceId) else r.posY) r.velY dtNs
      = fleetStep ((t.row (sourceIndex r.sourceId)).base (t.row (sourceIndex r.sourceId)).posY r.posY)
        r.velY dtNs := rfl
  unfold FleetRun.absorb integrate FleetRow.step
  simp only [hid', hnn, if_false, hX, hY]
  cases fleetStep ((t.row (sourceIndex r.sourceId)).base (t.row (sourceIndex r.sourceId)).posX
      r.posX) r.velX dtNs with
  | none => exact Or.inl ⟨rfl, by simp, rfl⟩
  | some nextX =>
      cases fleetStep ((t.row (sourceIndex r.sourceId)).base (t.row (sourceIndex r.sourceId)).posY
          r.posY) r.velY dtNs with
      | none => exact Or.inl ⟨rfl, by simp, rfl⟩
      | some nextY => exact Or.inr ⟨_, rfl, rfl, rfl⟩

/-- A record for no row is refused. -/
theorem FleetRun.absorb_badSource (t : FleetRun) (r : Record) {dtNs : Int64}
    (hid : kMaxSources ≤ r.sourceId.toNat) :
    (integrate t.fleet r dtNs).1 ≠ .ok ∧ t.absorb dtNs r = t := by
  simp [FleetRun.absorb, integrate, hid]

/-- **The loop body moves one row of the table**, and `integrate` returns `Ok` when the row
accepts the record. -/
theorem FleetRun.absorb_table (t : FleetRun) (r : Record) {dtNs : Int64} (hdt : 0 ≤ dtNs.toInt) :
    (t.absorb dtNs r).table = Keyed.move Record.sourceId (FleetRow.step dtNs) t.table r
      ∧ ((integrate t.fleet r dtNs).1 = .ok
          ↔ ((t.table r.sourceId).step dtNs r).isSome = true) := by
  rcases lt_or_ge r.sourceId.toNat kMaxSources with hid | hid
  · have hrow : t.table r.sourceId = t.row (sourceIndex r.sourceId) := by
      simp [FleetRun.table, hid]
    unfold Keyed.move
    rw [hrow]
    rcases t.absorb_cases r hdt hid with ⟨hnone, hst, habs⟩ | ⟨row, hsome, hst, habs⟩
    · rw [Keyed.offer_of_none hnone, habs, hnone, ← hrow, Function.update_eq_self]
      simpa using hst
    · rw [Keyed.offer_of_some hsome, habs, hsome]
      refine ⟨?_, by simpa using hst⟩
      funext k
      unfold FleetRun.table
      rw [FleetRun.setRow_row]
      by_cases hk : k = r.sourceId
      · subst hk
        simp [hid]
      · rw [Function.update_of_ne hk]
        split
        · rename_i hklt
          rw [Function.update_of_ne fun he => hk (sourceIndex_inj hklt hid he)]
        · rfl
  · have hnone : (t.table r.sourceId).step dtNs r = none := by simp [FleetRow.step, hid]
    obtain ⟨hst, habs⟩ : (integrate t.fleet r dtNs).1 ≠ .ok ∧ t.absorb dtNs r = t :=
      t.absorb_badSource r hid
    unfold Keyed.move
    rw [Keyed.offer_of_none hnone, habs, hnone, Function.update_eq_self]
    simpa using hst

/-- The fold over a list, as a table. -/
theorem FleetRun.foldl_table (records : List Record) (t : FleetRun) {dtNs : Int64}
    (hdt : 0 ≤ dtNs.toInt) :
    (records.foldl (FleetRun.absorb dtNs) t).table
      = records.foldl (Keyed.move Record.sourceId (FleetRow.step dtNs)) t.table := by
  induction records generalizing t with
  | nil => rfl
  | cons r records ih => rw [List.foldl_cons, List.foldl_cons, ih, (t.absorb_table r hdt).1]

theorem FleetRun.accepted_eq (records : List Record) (t : FleetRun) {dtNs : Int64}
    (hdt : 0 ≤ dtNs.toInt) :
    FleetRun.accepted dtNs t records
      = Keyed.tableAccepted Record.sourceId (FleetRow.step dtNs) t.table records := by
  induction records generalizing t with
  | nil => rfl
  | cons r records ih =>
      obtain ⟨htable, hok⟩ := t.absorb_table r hdt
      rw [FleetRun.accepted, Keyed.tableAccepted, ih, htable]
      simp only [hok]

theorem FleetRun.row_of_table (t : FleetRun) (id : Fin kMaxSources) :
    t.table (UInt32.ofNat id.val) = t.row id := by
  obtain ⟨hval, hidx⟩ := exists_sourceIndex id
  unfold FleetRun.table
  rw [hval, hidx, if_pos id.isLt]

theorem FleetRun.ext_table {t t' : FleetRun} (h : t.table = t'.table) : t = t' := by
  refine FleetRun.ext_rows fun id => ?_
  rw [← FleetRun.row_of_table, ← FleetRun.row_of_table, h]

/-! ## The closed form of a row -/

/-- The sum of the steps on one axis. -/
def travelled (vel : Record → Int32) (dtNs : Int64) (records : List Record) : Int :=
  (records.map fun r => ((vel r).toInt * dtNs.toInt).tdiv 1000000000).sum

/-- What a row is, after the records it accepted. -/
structure ClosedForm (dtNs : Int64) (row : FleetRow) (records : List Record) : Prop where
  /-- Nothing accepted: the row as it was constructed. -/
  untouched : records = [] → row = {}
  posX : ∀ first, records.head? = some first →
    row.posX.toInt = first.posX.toInt + travelled Record.velX dtNs records
  posY : ∀ first, records.head? = some first →
    row.posY.toInt = first.posY.toInt + travelled Record.velY dtNs records
  latest : ∀ last, records.getLast? = some last →
    row.velX = last.velX ∧ row.velY = last.velY ∧ row.sequence = last.sequence
      ∧ row.timeNs = last.timeNs
  publishes : row.publishes.toNat = records.length % 2 ^ 32
  valid : row.valid = true ↔ 0 < records.length

theorem closedForm_nil (dtNs : Int64) : ClosedForm dtNs {} [] where
  untouched := fun _ => rfl
  posX := by intro first h; cases h
  posY := by intro first h; cases h
  latest := by intro last h; cases h
  publishes := rfl
  valid := by simp

/-- A number that fits in 32 bits survives the narrowing. -/
theorem toInt32_ofInt {x : Int} (hlo : -2 ^ 31 ≤ x) (hhi : x < 2 ^ 31) :
    (Int64.ofInt x).toInt32.toInt = x := by
  rw [Int64.toInt_toInt32, Int64.toInt_ofInt_of_le (by omega) (by omega)]
  exact Int.bmod_eq_of_le (by omega) (by omega)

/-- A step that `step` accepts, narrowed to 32 bits, is exact. -/
theorem fleetStep_some {pos vel : Int32} {dtNs next : Int64} (hdt : 0 ≤ dtNs.toInt)
    (h : fleetStep pos vel dtNs = some next) : next.toInt32.toInt = moved pos vel dtNs := by
  rw [fleetStep_eq pos vel hdt] at h
  split at h
  · rename_i hin
    obtain rfl := Option.some.inj h
    exact toInt32_ofInt hin.1 hin.2
  · cases h

/-- One axis of an accepted record: the first one starts at its own position, the others
where the row stands. -/
theorem travelled_append {dtNs : Int64} {vel pos : Record → Int32} {row : FleetRow}
    {rowPos next : Int32} {before : List Record} {r first : Record}
    (hvalid : row.valid = true ↔ 0 < before.length)
    (hpos : ∀ first, before.head? = some first →
      rowPos.toInt = (pos first).toInt + travelled vel dtNs before)
    (hnext : next.toInt = moved (row.base rowPos (pos r)) (vel r) dtNs)
    (hfirst : (before ++ [r]).head? = some first) :
    next.toInt = (pos first).toInt + travelled vel dtNs (before ++ [r]) := by
  rw [hnext]
  unfold FleetRow.base moved travelled
  cases before with
  | nil =>
      obtain rfl := Option.some.inj hfirst
      have hno : row.valid = false := by simpa using hvalid
      simp [hno]
  | cons b before =>
      obtain rfl := Option.some.inj hfirst
      have hyes : row.valid = true := hvalid.mpr (by simp)
      have hrow := hpos b rfl
      unfold travelled at hrow
      simp only [hyes, if_true, List.map_append, List.sum_append, List.map_cons, List.map_nil,
        List.sum_cons, List.sum_nil] at hrow ⊢
      omega

/-- **An accepted record adds one step.** -/
theorem ClosedForm.step {dtNs : Int64} (hdt : 0 ≤ dtNs.toInt) {row row' : FleetRow} {r : Record}
    {before : List Record} (h : ClosedForm dtNs row before) (hs : row.step dtNs r = some row') :
    ClosedForm dtNs row' (before ++ [r]) := by
  unfold FleetRow.step at hs
  split at hs
  · cases hs
  split at hs
  · rename_i nextX nextY hx hy
    obtain rfl := Option.some.inj hs
    refine ⟨by simp, ?_, ?_, ?_, ?_, by simp⟩
    · intro first hfirst
      exact travelled_append h.valid h.posX (fleetStep_some hdt hx) hfirst
    · intro first hfirst
      exact travelled_append h.valid h.posY (fleetStep_some hdt hy) hfirst
    · intro last hlast
      rw [List.getLast?_concat] at hlast
      obtain rfl := Option.some.inj hlast
      exact ⟨rfl, rfl, rfl, rfl⟩
    · rw [UInt32.toNat_add, h.publishes, List.length_append, List.length_singleton]
      simp
  · cases hs

/-! ## The working set -/

/-- The fast thread's own loop body is this one, at its period. -/
theorem Fast.absorb_fleetRun (t : Fast) (record : Record) :
    FleetRun.mk (t.absorb record).fleet (t.absorb record).publishes
      = FleetRun.absorb kFastPeriodNs ⟨t.fleet, t.publishes⟩ record := by
  unfold Fast.absorb FleetRun.absorb
  simp only
  cases integrate t.fleet record kFastPeriodNs with
  | mk status fleet => cases status <;> rfl

/-- The working set is what the loop body made of the records taken so far. -/
def Fast.Working (t : Fast) : Prop :=
  FleetRun.mk t.fleet t.publishes = t.integrated.foldl (FleetRun.absorb kFastPeriodNs) .init

theorem FastMove.working {clock : UInt64} {l l' : Layout} {t t' : Fast}
    (h : FastMove clock l t l' t') (hw : t.Working) : t'.Working := by
  cases h with
  | @took call call' ring record hpc hr =>
      unfold Fast.Working
      rw [Fast.absorb_fleetRun, t.absorb_integrated, List.foldl_append]
      exact congrArg (fun run => FleetRun.absorb kFastPeriodNs run record) hw
  | _ => exact hw

/-- **In every run**, the fast thread's working set is the fold of the loop body over the
records it has taken, whatever the other threads do. -/
theorem Pipeline.working_reachable {s : Pipeline} (h : Pipeline.Reachable s) {p : Compute}
    (hp : s.compute = .running p) : p.fast.Working := by
  have hall : ∀ p, s.compute = .running p → p.fast.Working := by
    refine Transition.Reachable.invariant
      (I := fun s => ∀ p, s.compute = .running p → p.fast.Working) ?_ ?_ h
    · rintro _ ⟨replay, clock, rfl⟩ p hp
      cases hp
    · intro s a s' hi _ hs q hq
      cases Pipeline.runningMove hs hq with
      | unseen hp hu => exact hi q hp
      | spawn hact hsup hl hc => rfl
      | fast hact hp hm hc => exact hm.working (hi _ hp)
      | window hact hp hm hc =>
          have hold := hi _ hp
          exact hold
      | snapshot hact hp hm hc =>
          have hold := hi _ hp
          exact hold
      | watchdog hact hp hm hc =>
          have hold := hi _ hp
          exact hold
      | main hact hp hm hc =>
          have hold := hi _ hp
          exact hold
  exact hall p hp

theorem FleetRun.init_table : FleetRun.init.table = fun _ => {} := by
  funext id
  unfold FleetRun.table
  split <;> rfl

/--
**Each source's row is a closed form of its own accepted records.**

For every step `dt_ns ≥ 0` and every list of records fed in order to the loop body: the
row of a source is what its own records alone leave there; it starts at the position of the
first accepted one and has moved by the sum of `vel * dt_ns / 10^9`, each truncated toward
zero, over the accepted ones, with the velocity, sequence and time of the last and their
number modulo `2^32` as count. So the working set is the same for every list that keeps
each source's own order, and for the list without the refused records.
-/
theorem source_closed_form (dtNs : Int64) (hdt : 0 ≤ dtNs.toInt) (records : List Record) :
    (∀ id : Fin kMaxSources,
        (records.foldl (FleetRun.absorb dtNs) .init).row id
            = ((records.filter fun r => decide (r.sourceId = UInt32.ofNat id.val)).foldl
                (FleetRun.absorb dtNs) .init).row id
          ∧ ClosedForm dtNs ((records.foldl (FleetRun.absorb dtNs) .init).row id)
              ((FleetRun.accepted dtNs .init records).filter
                fun r => decide (r.sourceId = UInt32.ofNat id.val)))
      ∧ (∀ records' : List Record,
          (∀ id : UInt32, (records'.filter fun r => decide (r.sourceId = id))
            = records.filter fun r => decide (r.sourceId = id)) →
          records'.foldl (FleetRun.absorb dtNs) .init = records.foldl (FleetRun.absorb dtNs) .init)
      ∧ (FleetRun.accepted dtNs .init records).foldl (FleetRun.absorb dtNs) .init
          = records.foldl (FleetRun.absorb dtNs) .init := by
  have hrow : ∀ (rs : List Record) (id : Fin kMaxSources),
      (rs.foldl (FleetRun.absorb dtNs) .init).row id
        = (rs.filter fun r => decide (r.sourceId = UInt32.ofNat id.val)).foldl
            (Keyed.offer (FleetRow.step dtNs)) {} := by
    intro rs id
    rw [← FleetRun.row_of_table, FleetRun.foldl_table _ _ hdt, Keyed.foldl_move,
      FleetRun.init_table]
  refine ⟨?_, ?_, ?_⟩
  · intro id
    refine ⟨?_, ?_⟩
    · rw [hrow, hrow, List.filter_filter]
      simp
    · rw [hrow, FleetRun.accepted_eq _ _ hdt, Keyed.filter_tableAccepted, FleetRun.init_table]
      refine Keyed.accepted_induction (closedForm_nil dtNs) ?_ _
      intro row row' r before h hs
      exact h.step hdt hs
  · intro records' hsame
    refine FleetRun.ext_table ?_
    rw [FleetRun.foldl_table _ _ hdt, FleetRun.foldl_table _ _ hdt]
    exact Keyed.foldl_move_congr _ hsame
  · refine FleetRun.ext_table ?_
    rw [FleetRun.foldl_table _ _ hdt, FleetRun.foldl_table _ _ hdt, FleetRun.accepted_eq _ _ hdt]
    exact Keyed.foldl_move_tableAccepted _ _

/-- Two sources in turn and a step of a second. The second record of source 1 would leave the
range and is refused, so its third one goes on from the first. -/
def twoSources : List Record :=
  [{ sourceId := 1, sequence := 1, posX := 10, velX := 1500 },
    { sourceId := 2, sequence := 1, posX := 7 },
    { sourceId := 1, sequence := 2, velX := 2147483647 },
    { sourceId := 1, sequence := 3, velX := -2500 }]

theorem source_closed_form_two_sources :
    ((twoSources.foldl (FleetRun.absorb 1000000000) .init).row 1).posX.toInt = 10 + (1500 - 2500)
      ∧ ((twoSources.foldl (FleetRun.absorb 1000000000) .init).row 1).publishes.toNat = 2
      ∧ ((twoSources.foldl (FleetRun.absorb 1000000000) .init).row 1).sequence = 3 := by
  have h := ((source_closed_form 1000000000 (by decide) twoSources).1 1).2
  refine ⟨?_, ?_, ?_⟩
  · exact (h.posX { sourceId := 1, sequence := 1, posX := 10, velX := 1500 } (by decide)).trans
      (by decide)
  · exact h.publishes.trans (by decide)
  · exact (h.latest { sourceId := 1, sequence := 3, velX := -2500 } (by decide)).2.2.1

end RateHub
