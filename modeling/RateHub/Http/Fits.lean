import RateHub.Http.Sending
import RateHub.Proof.Collect

/-!
# What the observer formats always fits

`run_observe` formats every sample into an array of 4096 bytes and hands the text to
`send_sse_data`, which formats it once more. A sample has at most 16 points, so with every
number as wide as it gets the text is shorter than 4096 bytes. The observer therefore
never finds its buffer too small, and `send_sse_data` never refuses what it is given.
-/

namespace RateHub.Http

open Interaction Proc

/-- `send_sse_data` gets past its two tests: it formats `event`, which fits its array, and
goes on to `send_all` with all of it. -/
def SendsAll (payload : List UInt8) (len : Nat) (event : List UInt8) : Prop :=
  event.length < 8192 ∧ ∀ fd, sendSseData fd payload len
    = uninit 8192 >>= fun line => sendAll fd (snprintf line 8192 event).1 event.length

/-- A round of `run_observe` without the test of `n`. -/
def observeUntested (srv : HttpSseServer) (webRoot : Option (List UInt8)) (timeoutMs : Int) :
    Option Fd × List UInt8 → Sys ((Option Fd × List UInt8) ⊕ Option Fd)
  | (clientFd, json) => do
    let stop ← ask
    if stop.ret ≠ 0 then pure (.inr clientFd)
    else do
      let found ← ask
      let (json, n) := formatTelemetryJson found.snap json 4096
      let pumped ← httpSsePump srv clientFd webRoot (some json) n timeoutMs (some false)
      if !pumped.ok then pure (.inr pumped.clientFd)
      else do
        requestRerunIf (pumped.reset = some true)
        pure (.inl (pumped.clientFd, json))

theorem sendsAll_of_lt {payload : List UInt8} {len : Nat} (hlen : len < 8000) :
    SendsAll payload len (sseEvent payload len) := by
  have hevent := length_sseEvent payload len
  have hle := length_precise_le len payload
  refine ⟨by omega, ?_⟩
  intro fd
  rw [sendSseData, if_neg (by omega), sendFormatted]
  refine congrArg (uninit 8192 >>= ·) (funext fun line => ?_)
  have hn : (snprintf line 8192 (sseEvent payload len)).2 = (sseEvent payload len).length :=
    (snprintf_fits (by omega) (by omega)).1
  simp only [hn]
  rw [if_neg (by omega), Int.toNat_natCast]

/-- The length that a buffer of 4096 bytes gets is that of the text. -/
theorem format_4096 (snap : TelemetrySnapshot) (json : List UInt8) :
    (formatTelemetryJson snap json 4096).2 = (jsonText snap).length
      ∧ (formatTelemetryJson snap json 4096).1.take (jsonText snap).length = jsonText snap :=
  (formatTelemetryJson_spec snap json 4096).1 (length_jsonText_lt snap)

/-- What goes out for a sample. -/
theorem sseEvent_format (snap : TelemetrySnapshot) (json : List UInt8) :
    sseEvent (formatTelemetryJson snap json 4096).1 (formatTelemetryJson snap json 4096).2
      = text "data: " ++ jsonText snap ++ text "\n\n" := by
  obtain ⟨hlen, htake⟩ := format_4096 snap json
  rw [sseEvent, precise, hlen, htake, cstr_self (zero_notMem_of_printable (printable_jsonText snap))]

theorem observeRound_eq (srv : HttpSseServer) (webRoot : Option (List UInt8)) (timeoutMs : Int) :
    observeRound srv webRoot timeoutMs = observeUntested srv webRoot timeoutMs := by
  funext ⟨clientFd, json⟩
  unfold observeRound observeUntested
  have hn : ∀ snap, (formatTelemetryJson snap json 4096).2 ≠ 0 := by
    intro snap
    have htwo := two_le_length_jsonText snap
    rw [(format_4096 snap json).1]
    omega
  simp only [if_neg (hn _)]

/--
**The telemetry buffer is never too small, and never overrun.**

For every snapshot with at most 16 points, every memory and every `cap` of it,
`format_telemetry_json` changes nothing outside `out[0 .. cap)`, and returns the length of
the text if that is below `cap` and 0 otherwise. Whatever the loads of `collect_telemetry`
find, the call returns one sample; it has at most 16 points, its text fits the 4096 bytes of
`run_observe` with a length above 0, and `send_sse_data` accepts it. So the test of `n` in
the observer's loop never succeeds.
-/
theorem telemetry_fits :
    (∀ (snap : TelemetrySnapshot) (out : List UInt8) (cap : Nat),
        snap.sourceCount ≤ kMaxPoints → cap ≤ out.length →
        Within cap out (formatTelemetryJson snap out cap).1
          ∧ ((jsonText snap).length < cap →
              (formatTelemetryJson snap out cap).2 = (jsonText snap).length
                ∧ (formatTelemetryJson snap out cap).1.take (jsonText snap).length = jsonText snap)
          ∧ (cap ≤ (jsonText snap).length → (formatTelemetryJson snap out cap).2 = 0))
      ∧ (∀ (ls : Nat → Layout) (nowNs : UInt64) (json : List UInt8), json.length = 4096 →
          ∃ snap, (∀ snap', Collects ls nowNs snap' ↔ snap' = snap)
            ∧ snap.sourceCount ≤ kMaxPoints
            ∧ 0 < (formatTelemetryJson snap json 4096).2
            ∧ SendsAll (formatTelemetryJson snap json 4096).1 (formatTelemetryJson snap json 4096).2
                (text "data: " ++ jsonText snap ++ text "\n\n"))
      ∧ observeRound = observeUntested := by
  refine ⟨?_, ?_, ?_⟩
  · intro snap out cap _ hcap
    exact ⟨formatTelemetryJson_within snap hcap, formatTelemetryJson_spec snap out cap⟩
  · intro ls nowNs json _
    obtain ⟨snap, hreturns, hcount, -⟩ := collects ls nowNs
    have hlen := (format_4096 snap json).1
    have hlt := length_jsonText_lt snap
    have htwo := two_le_length_jsonText snap
    refine ⟨snap, hreturns, hcount, by omega, ?_⟩
    rw [← sseEvent_format snap json]
    exact sendsAll_of_lt (by omega)
  · funext srv webRoot timeoutMs
    exact observeRound_eq srv webRoot timeoutMs

end RateHub.Http
