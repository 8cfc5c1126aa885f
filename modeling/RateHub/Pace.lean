import RateHub.Types

/-!
# Period budget and silence check

`include/ratehub/pace.hpp`, with `stall_limit_ns` of `src/compute.cpp`. Sleeping has
no effect on shared memory, so only the overrun half of a budget is kept.
-/

namespace RateHub

/-- `budget(work_ns, period_ns).overrun`. -/
def budgetOverrun (workNs periodNs : Int64) : Bool :=
  let work := if workNs < 0 then 0 else workNs
  decide (periodNs ≤ 0) || decide (periodNs < work)

/-- `heartbeat_stalled`. -/
def heartbeatStalled (now beat silenceNs : UInt64) (stageDone : Bool) : Bool :=
  if stageDone || beat == 0 || decide (now < beat) then false else decide (silenceNs < now - beat)

/-- `stall_limit_ns`. -/
def stallLimitNs (periodNs : Int64) : UInt64 :=
  let four := (4 * periodNs).toUInt64
  if 200000000 < four then four else 200000000

end RateHub
