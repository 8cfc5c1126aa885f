import RateHub.Lib.Checked
import RateHub.Proof.FleetRows

/-!
# `integrate` in exact arithmetic

`step` and `integrate` once more, with every 64-bit operation of the source checked: an
operation that would overflow has no value, and neither has a call that makes one. The
calls are never without a value, so what the wrapping model computes is what the
source means; and what that is can be said in unbounded integers.
-/

namespace RateHub

/-- `dt_ns > INT64_MAX / mag`, for a velocity that is not zero. -/
def stepRefuses (vel : Int32) (dtNs : Int64) : Option Bool :=
  if vel = 0 then some false
  else
    (if 0 < vel then some vel.toInt64 else Checked.neg vel.toInt64).bind fun mag =>
      (Checked.div Int64.maxValue mag).map fun limit => decide (limit < dtNs)

/-- `step(pos, vel, dt_ns, next)`, checked. The inner `none` is the return value false. -/
def stepChecked (pos vel : Int32) (dtNs : Int64) : Option (Option Int64) :=
  (stepRefuses vel dtNs).bind fun refuses =>
    if refuses then some none
    else
      (Checked.mul vel.toInt64 dtNs).bind fun prod =>
        (Checked.div prod 1000000000).bind fun quot =>
          (Checked.add pos.toInt64 quot).map fun next =>
            if next ≤ Int32.maxValue.toInt64 ∧ Int32.minValue.toInt64 ≤ next then some next
            else none

/-- `integrate(fleet, sample, dt_ns)`, checked. The second axis is not computed when the
first is refused. -/
def integrateChecked (fleet : FleetSoA) (sample : Record) (dtNs : Int64) :
    Option (IntegrateStatus × FleetSoA) :=
  if kMaxSources ≤ sample.sourceId.toNat then some (.badSource, fleet)
  else if dtNs < 0 then some (.badDt, fleet)
  else
    let id := sourceIndex sample.sourceId
    let baseX := if fleet.valid id then fleet.posX id else sample.posX
    let baseY := if fleet.valid id then fleet.posY id else sample.posY
    (stepChecked baseX sample.velX dtNs).bind fun
      | none => some (.outOfRange, fleet)
      | some nextX =>
          (stepChecked baseY sample.velY dtNs).map fun
            | none => (.outOfRange, fleet)
            | some nextY =>
                (.ok,
                  { posX := Function.update fleet.posX id nextX.toInt32
                    posY := Function.update fleet.posY id nextY.toInt32
                    velX := Function.update fleet.velX id sample.velX
                    velY := Function.update fleet.velY id sample.velY
                    sequence := Function.update fleet.sequence id sample.sequence
                    timeNs := Function.update fleet.timeNs id sample.timeNs
                    valid := Function.update fleet.valid id true })

/-- The guard's own arithmetic does not overflow, `INT32_MIN` included. -/
theorem stepRefuses_eq (vel : Int32) (dtNs : Int64) :
    stepRefuses vel dtNs = some (decide (vel ≠ 0 ∧
      Int64.maxValue / (if 0 < vel then vel.toInt64 else -vel.toInt64) < dtNs)) := by
  unfold stepRefuses
  by_cases hv : vel = 0
  · simp [hv]
  · have hmag := magnitude_toInt vel
    have hpos : (if 0 < vel then some vel.toInt64 else Checked.neg vel.toInt64)
        = some (if 0 < vel then vel.toInt64 else -vel.toInt64) := by
      split
      · rfl
      · rename_i h
        rw [if_neg h] at hmag
        refine Checked.neg_eq ?_
        rw [Int32.lt_iff_toInt_lt, not_lt] at h
        have h0 : vel.toInt ≤ 0 := by simpa using h
        rw [hmag, abs_of_nonpos h0, Int32.toInt_toInt64]
    have hne : (if 0 < vel then vel.toInt64 else -vel.toInt64) ≠ (0 : Int64) := by
      intro h0
      rw [h0, Int64.toInt_zero] at hmag
      exact hv (Int32.toInt_inj.mp (by simpa using hmag.symm))
    rw [if_neg hv, hpos, Option.bind_some,
      Checked.div_eq hne (Int64.toInt_div_of_ne_left _ _ (by decide)), Option.map_some]
    simp [hv]

/-- **`step` makes no overflow.** -/
theorem stepChecked_eq (pos vel : Int32) {dtNs : Int64} (hdt : 0 ≤ dtNs.toInt) :
    stepChecked pos vel dtNs = some (fleetStep pos vel dtNs) := by
  unfold stepChecked fleetStep
  rw [stepRefuses_eq, Option.bind_some]
  by_cases hguard : vel ≠ 0 ∧
      Int64.maxValue / (if 0 < vel then vel.toInt64 else -vel.toInt64) < dtNs
  · simp only [decide_eq_true hguard, if_true, if_pos hguard]
  · have hprod : Checked.mul vel.toInt64 dtNs = some (vel.toInt64 * dtNs) :=
      Checked.mul_eq (by rw [product_toInt hdt hguard, Int32.toInt_toInt64])
    have hquot : Checked.div (vel.toInt64 * dtNs) 1000000000
        = some (vel.toInt64 * dtNs / 1000000000) :=
      Checked.div_eq (by decide) (Int64.toInt_div_of_ne_right _ _ (by decide))
    have hsum : Checked.add pos.toInt64 (vel.toInt64 * dtNs / 1000000000)
        = some (pos.toInt64 + vel.toInt64 * dtNs / 1000000000) := by
      refine Checked.add_eq ?_
      rw [sum_toInt hdt hguard, quotient_toInt hdt hguard, Int32.toInt_toInt64]
      rfl
    rw [decide_eq_false hguard]
    simp only [hprod, hquot, hsum, Option.bind_some, Option.map_some, if_neg hguard,
      Bool.false_eq_true, if_false]

/-- And neither does `integrate`, whatever the step. -/
theorem integrateChecked_eq (fleet : FleetSoA) (sample : Record) (dtNs : Int64) :
    integrateChecked fleet sample dtNs = some (integrate fleet sample dtNs) := by
  unfold integrateChecked integrate
  by_cases hid : kMaxSources ≤ sample.sourceId.toNat
  · simp only [if_pos hid]
  by_cases hneg : dtNs < 0
  · simp only [if_neg hid, if_pos hneg]
  have hdt : 0 ≤ dtNs.toInt := by
    rw [Int64.lt_iff_toInt_lt, Int64.toInt_zero] at hneg
    omega
  simp only [if_neg hid, if_neg hneg, stepChecked_eq _ _ hdt, Option.bind_some, Option.map_some]
  split
  · rename_i hx
    rw [hx]
  · rename_i nextX hx
    rw [hx]
    split
    · rename_i hy
      rw [hy]
    · rename_i nextY hy
      rw [hy]

/-- A position fits in its 32 bits. -/
def Fits (x : Int) : Prop := -2 ^ 31 ≤ x ∧ x < 2 ^ 31

instance (x : Int) : Decidable (Fits x) := inferInstanceAs (Decidable (_ ∧ _))

/-- `base + trunc(vel * dt_ns / 10^9)` on the first axis, in unbounded integers. -/
def exactX (fleet : FleetSoA) (sample : Record) (dtNs : Int64) (id : Fin kMaxSources) : Int :=
  moved (if fleet.valid id then fleet.posX id else sample.posX) sample.velX dtNs

/-- And on the second. -/
def exactY (fleet : FleetSoA) (sample : Record) (dtNs : Int64) (id : Fin kMaxSources) : Int :=
  moved (if fleet.valid id then fleet.posY id else sample.posY) sample.velY dtNs

/-- Row `id` of `fleet'` holds the step that `sample` makes from `fleet`, and the other rows
are those of `fleet`. -/
structure Stored (fleet : FleetSoA) (sample : Record) (dtNs : Int64) (id : Fin kMaxSources)
    (fleet' : FleetSoA) : Prop where
  posX : (fleet'.posX id).toInt = exactX fleet sample dtNs id
  posY : (fleet'.posY id).toInt = exactY fleet sample dtNs id
  velX : fleet'.velX id = sample.velX
  velY : fleet'.velY id = sample.velY
  sequence : fleet'.sequence id = sample.sequence
  timeNs : fleet'.timeNs id = sample.timeNs
  valid : fleet'.valid id = true
  others : ∀ j, j ≠ id → fleet'.posX j = fleet.posX j ∧ fleet'.posY j = fleet.posY j
    ∧ fleet'.velX j = fleet.velX j ∧ fleet'.velY j = fleet.velY j
    ∧ fleet'.sequence j = fleet.sequence j ∧ fleet'.timeNs j = fleet.timeNs j
    ∧ fleet'.valid j = fleet.valid j

/-- A refused step of either axis leaves the fleet alone. -/
theorem integrate_unchanged {fleet : FleetSoA} {sample : Record} {dtNs : Int64}
    (h : (integrate fleet sample dtNs).1 ≠ .ok) : (integrate fleet sample dtNs).2 = fleet := by
  unfold integrate at h ⊢
  split
  · rfl
  split
  · rfl
  rename_i hid hneg
  simp only [if_neg hid, if_neg hneg] at h
  dsimp only
  split
  · rename_i nextX nextY hx hy
    rw [hx, hy] at h
    exact absurd rfl h
  · rfl

section Accepted

variable {fleet : FleetSoA} {sample : Record} {dtNs : Int64} {id : Fin kMaxSources}

/-- `integrate` past its two checks, with the steps in unbounded integers. -/
theorem integrate_cases (hid : id.val = sample.sourceId.toNat) (hdt : 0 ≤ dtNs.toInt) :
    (Fits (exactX fleet sample dtNs id) ∧ Fits (exactY fleet sample dtNs id)
        ∧ (integrate fleet sample dtNs).1 = .ok
        ∧ Stored fleet sample dtNs id (integrate fleet sample dtNs).2)
      ∨ (¬(Fits (exactX fleet sample dtNs id) ∧ Fits (exactY fleet sample dtNs id))
        ∧ (integrate fleet sample dtNs).1 = .outOfRange) := by
  have hlt := id.isLt
  have hidx : sourceIndex sample.sourceId = id := by
    apply Fin.ext
    rw [sourceIndex, ← hid]
    exact Nat.mod_eq_of_lt hlt
  have hsource : ¬kMaxSources ≤ sample.sourceId.toNat := by omega
  have hneg : ¬dtNs < 0 := by
    rw [Int64.lt_iff_toInt_lt, Int64.toInt_zero]
    omega
  unfold integrate
  simp only [if_neg hsource, if_neg hneg, hidx, fleetStep_eq _ _ hdt]
  by_cases hx : Fits (exactX fleet sample dtNs id)
  · by_cases hy : Fits (exactY fleet sample dtNs id)
    · have hx' := hx
      have hy' := hy
      unfold Fits exactX at hx'
      unfold Fits exactY at hy'
      simp only [if_pos hx', if_pos hy']
      refine Or.inl ⟨hx, hy, trivial, ?_⟩
      refine ⟨?_, ?_, ?_, ?_, ?_, ?_, ?_, ?_⟩
      · simp only [Function.update_self]
        exact toInt32_ofInt hx'.1 hx'.2
      · simp only [Function.update_self]
        exact toInt32_ofInt hy'.1 hy'.2
      all_goals simp only [Function.update_self]
      intro j hj
      simp only [Function.update_of_ne hj, and_self]
    · have hy' := hy
      unfold Fits exactY at hy'
      refine Or.inr ⟨fun h => hy h.2, ?_⟩
      rw [if_neg hy']
      split
      · rename_i h
        cases h
      · rfl
  · have hx' := hx
    unfold Fits exactX at hx'
    refine Or.inr ⟨fun h => hx h.1, ?_⟩
    rw [if_neg hx']

end Accepted

/--
**`integrate` is exact, and all or nothing.**

For every fleet, record and step: no 64-bit operation of the call overflows. For a source
of the fleet and a step that is not negative the record is accepted exactly when both
positions, computed in unbounded integers, fit in 32 bits; then its row holds them and the
record's other fields, and no other row has changed. A call that returns anything else
leaves the fleet as it was.
-/
theorem integrate_exact (fleet : FleetSoA) (sample : Record) (dtNs : Int64) :
    integrateChecked fleet sample dtNs = some (integrate fleet sample dtNs)
      ∧ (∀ id : Fin kMaxSources, id.val = sample.sourceId.toNat → 0 ≤ dtNs →
          ((integrate fleet sample dtNs).1 = .ok
              ↔ Fits (exactX fleet sample dtNs id) ∧ Fits (exactY fleet sample dtNs id))
            ∧ ((integrate fleet sample dtNs).1 = .ok →
                Stored fleet sample dtNs id (integrate fleet sample dtNs).2))
      ∧ ((integrate fleet sample dtNs).1 ≠ .ok → (integrate fleet sample dtNs).2 = fleet) := by
  refine ⟨integrateChecked_eq fleet sample dtNs, ?_, integrate_unchanged⟩
  intro id hid hnn
  have hdt : 0 ≤ dtNs.toInt := by
    rw [Int64.le_iff_toInt_le, Int64.toInt_zero] at hnn
    exact hnn
  rcases integrate_cases hid hdt with ⟨hx, hy, hok, hst⟩ | ⟨hno, hout⟩
  · exact ⟨iff_of_true hok ⟨hx, hy⟩, fun _ => hst⟩
  · have hne : (integrate fleet sample dtNs).1 ≠ .ok := by
      rw [hout]
      exact IntegrateStatus.noConfusion
    exact ⟨iff_of_false hne hno, fun h => absurd h hne⟩

/-- The largest position and the smallest velocity: one second of it ends at -1, and over
the longest step the guard refuses the product. -/
def fastest : Record := { sourceId := 3, posX := Int32.maxValue, velX := Int32.minValue }

theorem integrate_exact_fastest :
    (integrate FleetSoA.init fastest 1000000000).1 = .ok
      ∧ ((integrate FleetSoA.init fastest 1000000000).2.posX ⟨3, by decide⟩).toInt = -1
      ∧ (integrate FleetSoA.init fastest Int64.maxValue).2 = FleetSoA.init := by
  obtain ⟨hiff, hstored⟩ := (integrate_exact FleetSoA.init fastest 1000000000).2.1 ⟨3, by decide⟩
    (by decide) (by decide)
  have hok : (integrate FleetSoA.init fastest 1000000000).1 = .ok := hiff.mpr (by decide)
  refine ⟨hok, ?_, ?_⟩
  · rw [(hstored hok).posX]
    decide
  · exact (integrate_exact FleetSoA.init fastest Int64.maxValue).2.2 (by decide)

end RateHub
