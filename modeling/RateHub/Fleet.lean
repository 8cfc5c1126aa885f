import Mathlib.Logic.Function.Basic
import RateHub.Types

/-!
# The fast thread's working set

`src/fleet.cpp`. One array per component, indexed by source id; `integrate`
computes both axes before it stores anything.
-/

namespace RateHub

/-- `FleetSoA`. -/
structure FleetSoA where
  posX : Fin kMaxSources → Int32
  posY : Fin kMaxSources → Int32
  velX : Fin kMaxSources → Int32
  velY : Fin kMaxSources → Int32
  sequence : Fin kMaxSources → UInt32
  timeNs : Fin kMaxSources → Int64
  valid : Fin kMaxSources → Bool

/-- `FleetSoA fleet;`: every row zero and invalid. -/
def FleetSoA.init : FleetSoA :=
  { posX := fun _ => 0, posY := fun _ => 0, velX := fun _ => 0, velY := fun _ => 0
    sequence := fun _ => 0, timeNs := fun _ => 0, valid := fun _ => false }

/-- `step(pos, vel, dt_ns, next)`: `next` when the function returns true. -/
def fleetStep (pos vel : Int32) (dtNs : Int64) : Option Int64 :=
  let mag : Int64 := if 0 < vel then vel.toInt64 else -vel.toInt64
  if vel ≠ 0 ∧ Int64.maxValue / mag < dtNs then none
  else
    let next := pos.toInt64 + vel.toInt64 * dtNs / 1000000000
    if next ≤ Int32.maxValue.toInt64 ∧ Int32.minValue.toInt64 ≤ next then some next else none

/-- `integrate(fleet, sample, dt_ns)`: the status, and the fleet after the call. -/
def integrate (fleet : FleetSoA) (sample : Record) (dtNs : Int64) : IntegrateStatus × FleetSoA :=
  if kMaxSources ≤ sample.sourceId.toNat then (.badSource, fleet)
  else if dtNs < 0 then (.badDt, fleet)
  else
    let id := sourceIndex sample.sourceId
    let baseX := if fleet.valid id then fleet.posX id else sample.posX
    let baseY := if fleet.valid id then fleet.posY id else sample.posY
    match fleetStep baseX sample.velX dtNs, fleetStep baseY sample.velY dtNs with
    | some nextX, some nextY =>
        (.ok,
          { posX := Function.update fleet.posX id nextX.toInt32
            posY := Function.update fleet.posY id nextY.toInt32
            velX := Function.update fleet.velX id sample.velX
            velY := Function.update fleet.velY id sample.velY
            sequence := Function.update fleet.sequence id sample.sequence
            timeNs := Function.update fleet.timeNs id sample.timeNs
            valid := Function.update fleet.valid id true })
    | _, _ => (.outOfRange, fleet)

/-! ## The loop body -/

/-- The fast thread's locals: `fleet` and `publishes`. -/
structure FleetRun where
  fleet : FleetSoA
  publishes : Fin kMaxSources → UInt32

/-- The locals as the thread starts. -/
def FleetRun.init : FleetRun := { fleet := FleetSoA.init, publishes := fun _ => 0 }

/-- The body of the fast thread's inner loop, with the step as a parameter: `integrate`, and on
`Ok` the count. -/
def FleetRun.absorb (dtNs : Int64) (t : FleetRun) (record : Record) : FleetRun :=
  match integrate t.fleet record dtNs with
  | (.ok, fleet) =>
      { fleet := fleet
        publishes := Function.update t.publishes (sourceIndex record.sourceId)
          (t.publishes (sourceIndex record.sourceId) + 1) }
  | (_, fleet) => { t with fleet := fleet }

/-- The records of a list for which `integrate` returns `Ok`, in order. -/
def FleetRun.accepted (dtNs : Int64) : FleetRun → List Record → List Record
  | _, [] => []
  | t, record :: records =>
      if (integrate t.fleet record dtNs).1 = .ok then
        record :: FleetRun.accepted dtNs (t.absorb dtNs record) records
      else FleetRun.accepted dtNs (t.absorb dtNs record) records

end RateHub
