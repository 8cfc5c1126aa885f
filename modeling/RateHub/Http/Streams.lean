import RateHub.Http.Framing

/-!
# The stream of an SSE client, over many calls

A connection becomes the client in one call of the pump, stays it for some calls, and is
closed in a later one. `Story` follows a descriptor `x` through the calls: while it is the
client its bytes are the header block and whole events; once it is not, it is closed, and
at most the last event is cut short.

That nothing is sent to it before or afterwards is not a matter of what the pump sends but
of who owns the descriptor: a descriptor is new when it is accepted, and not used after
its close.
-/

namespace RateHub.Http

open Interaction Handles

/-! ## Calls with a snapshot -/

/-- A call of the pump as `run_observe` makes it: the snapshot formatted into the buffer of
4096 bytes, with what the buffer held before. -/
structure SnapCall where
  snap : TelemetrySnapshot
  buffer : List UInt8
  webRoot : Option (List UInt8)
  timeoutMs : Int
  reset : Option Bool

/-- The arguments of the call. -/
def SnapCall.call (d : SnapCall) : PumpCall :=
  { webRoot := d.webRoot
    json := some (formatTelemetryJson d.snap d.buffer 4096).1
    jsonLen := (formatTelemetryJson d.snap d.buffer 4096).2
    timeoutMs := d.timeoutMs
    reset := d.reset }

/-- `data: `, the text of the snapshot, and two line feeds. -/
def SnapCall.event (d : SnapCall) : List UInt8 :=
  text "data: " ++ jsonText d.snap ++ text "\n\n"

/-- The header block and one event for each of the calls. -/
def stream (sub : List SnapCall) : List UInt8 :=
  text sseHeaders ++ sub.flatMap SnapCall.event

/-- The call sends the event of its snapshot, or none when the text did not fit. -/
theorem SnapCall.eventOf_call (d : SnapCall) :
    eventOf d.call.json d.call.jsonLen = d.event ∨ eventOf d.call.json d.call.jsonLen = [] := by
  rw [SnapCall.call]
  obtain ⟨hfits, hfull⟩ := formatTelemetryJson_spec d.snap d.buffer 4096
  by_cases hpos : 0 < (formatTelemetryJson d.snap d.buffer 4096).2
  · have hlt : (jsonText d.snap).length < 4096 := by
      by_contra hge
      have := hfull (Nat.le_of_not_lt hge)
      omega
    obtain ⟨hlen, htake⟩ := hfits hlt
    left
    have hprecise : precise (jsonText d.snap).length (formatTelemetryJson d.snap d.buffer 4096).1
        = jsonText d.snap := by
      rw [precise, htake, cstr_self (zero_notMem_of_printable (printable_jsonText d.snap))]
    rw [eventOf, if_pos hpos, hlen, sseEvent, hprecise, SnapCall.event]
  · right
    rw [eventOf, if_neg hpos]

/-! ## Following a descriptor -/

/-- The bytes are the header block and whole events, of some of the calls in their order,
and possibly a last event cut short, after which the socket is closed. -/
def Framed (calls : List SnapCall) (closed : Prop) (bytes : List UInt8) : Prop :=
  ∃ sub tail, bytes = stream sub ++ tail ∧ sub.Sublist calls
    ∧ (tail = [] ∨ ∃ d, (sub ++ [d]).Sublist calls ∧ tail <+: d.event ∧ tail ≠ d.event ∧ closed)

theorem Framed.mono {calls calls' : List SnapCall} {closed closed' : Prop} {bytes : List UInt8}
    (h : Framed calls closed bytes) (hsub : calls.Sublist calls') (hc : closed → closed') :
    Framed calls' closed' bytes := by
  obtain ⟨sub, tail, hbytes, hcalls, htail⟩ := h
  refine ⟨sub, tail, hbytes, hcalls.trans hsub, ?_⟩
  rcases htail with hnil | ⟨d, hd, hpre, hne, hclosed⟩
  · exact .inl hnil
  · exact .inr ⟨d, hd.trans hsub, hpre, hne, hc hclosed⟩

/-- The whole stream of a client, so far. -/
def Whole (calls : List SnapCall) (bytes : List UInt8) : Prop :=
  ∃ sub, bytes = stream sub ∧ sub.Sublist calls

theorem Whole.framed {calls : List SnapCall} {bytes : List UInt8} (h : Whole calls bytes)
    (closed : Prop) : Framed calls closed bytes := by
  obtain ⟨sub, hbytes, hcalls⟩ := h
  exact ⟨sub, [], by rw [hbytes, List.append_nil], hcalls, .inl rfl⟩

theorem Whole.skip {calls : List SnapCall} {bytes : List UInt8} (h : Whole calls bytes)
    (d : SnapCall) : Whole (calls ++ [d]) bytes := by
  obtain ⟨sub, hbytes, hcalls⟩ := h
  exact ⟨sub, hbytes, hcalls.trans (List.sublist_append_left _ _)⟩

theorem Whole.event {calls : List SnapCall} {bytes : List UInt8} (h : Whole calls bytes)
    (d : SnapCall) : Whole (calls ++ [d]) (bytes ++ d.event) := by
  obtain ⟨sub, hbytes, hcalls⟩ := h
  refine ⟨sub ++ [d], ?_, hcalls.append (List.Sublist.refl _)⟩
  rw [hbytes, stream, stream, List.flatMap_append, List.flatMap_cons, List.flatMap_nil,
    List.append_nil, List.append_assoc]

/-- A part of the event of one more call. -/
theorem Whole.part {calls : List SnapCall} {bytes y : List UInt8} (h : Whole calls bytes)
    {d : SnapCall} (hy : y <+: d.event) {closed : Prop} (hclosed : y ≠ d.event → closed) :
    Framed (calls ++ [d]) closed (bytes ++ y) := by
  by_cases hall : y = d.event
  · rw [hall]
    exact (h.event d).framed closed
  · obtain ⟨sub, hbytes, hcalls⟩ := h
    refine ⟨sub, y, by rw [hbytes], hcalls.trans (List.sublist_append_left _ _), .inr ⟨d, ?_⟩⟩
    exact ⟨hcalls.append (List.Sublist.refl _), hy, hall, hclosed hall⟩

/-- The story of the descriptor `x` so far, between two calls; `c` is `client_fd`. -/
structure Story (x : Fd) (calls : List SnapCall) (c : Option Fd) (h : List Event) : Prop where
  unknown : .hold x ∉ h → c ≠ some x
  client : .hold x ∈ h → c = some x → Whole calls (delivered x h)
  gone : .hold x ∈ h → c ≠ some x → .close x ∈ h ∧ Framed calls (.close x ∈ h) (delivered x h)

section

variable {base : Set Fd} {h₀ t : List Event} {x : Fd} {e : Event}

/-! ### What ownership says of it -/

theorem out_of_not_uses (hx : x ∉ e.uses) : e.out x = [] := by
  cases e with
  | send g data n =>
      have hne : g ≠ x := by
        rintro rfl
        exact hx (List.mem_singleton.mpr rfl)
      simp [Event.out, hne]
  | _ => rfl

/-- After its close nothing is sent to it, and it is not obtained again. -/
theorem Tidy.after_close (htidy : Tidy base (h₀ ++ t)) (hclosed : .close x ∈ h₀) :
    delivered x t = [] ∧ ∀ e ∈ t, e.gets ≠ some x := by
  have hnot : ∀ e ∈ t, x ∉ e.uses ∧ e.gets ≠ some x := by
    intro e he
    obtain ⟨before, after, rfl⟩ := List.append_of_mem he
    have hrel : x ∈ descriptors.released (h₀ ++ before) :=
      mem_released.mpr (List.mem_append_left _ hclosed)
    obtain ⟨huses, -, hgets⟩ :=
      Clean.after_release htidy (List.append_assoc _ _ _).symm hrel
    exact ⟨huses, hgets⟩
  refine ⟨?_, fun e he => (hnot e he).2⟩
  rw [delivered, List.flatMap_eq_nil_iff]
  exact fun e he => out_of_not_uses (hnot e he).1

/-- A descriptor known before is not obtained again. -/
theorem Tidy.not_again (htidy : Tidy base (h₀ ++ t))
    (hx : x ∈ base ∨ x ∈ descriptors.obtained h₀) : ∀ e ∈ t, e.gets ≠ some x := by
  intro e he hgets
  obtain ⟨before, after, rfl⟩ := List.append_of_mem he
  obtain ⟨-, hfits⟩ := Clean.split htidy (List.append_assoc _ _ _).symm
  obtain ⟨hbase, hobtained⟩ := hfits.gets x hgets
  rcases hx with hb | ho
  · exact hbase hb
  · apply hobtained
    rw [obtained_append]
    exact List.mem_append_left _ ho

/-- Nothing was sent to a descriptor before it was obtained. -/
theorem Tidy.fresh (htidy : Tidy base (h₀ ++ t)) (he : e ∈ t) (hgets : e.gets = some x) :
    delivered x h₀ = [] := by
  obtain ⟨before, after, rfl⟩ := List.append_of_mem he
  obtain ⟨hclean, hfits⟩ := Clean.split htidy (List.append_assoc _ _ _).symm
  obtain ⟨hbase, hobtained⟩ := hfits.gets x hgets
  rw [delivered, List.flatMap_eq_nil_iff]
  intro e' he'
  refine out_of_not_uses fun huses => ?_
  rcases Clean.uses_sub hclean (List.mem_append_left _ he') huses with hb | ho
  · exact hbase hb
  · exact hobtained ho

/-! ### One call -/

variable {calls : List SnapCall} {c₀ c inc mid : Option Fd} {ev y : List UInt8}

/-- The header block, for a connection that becomes the client in this call. -/
def opening (x : Fd) (h₀ : List Event) : List UInt8 :=
  if .hold x ∈ h₀ then [] else text sseHeaders

/-- What a call adds to the bytes of a client. Either the event goes to it, or it gets
nothing. -/
theorem Segment.adds (hseg : Segment c₀ ev t inc mid y) (htidy : Tidy base (h₀ ++ t))
    (hknown : c₀ = some x → x ∈ base ∨ x ∈ descriptors.obtained h₀)
    (hstory : Story x calls c₀ h₀) (hheld : .hold x ∈ h₀ ++ t) :
    (mid = some x ∧ Whole calls (delivered x h₀ ++ opening x h₀)
        ∧ delivered x (h₀ ++ t) = delivered x h₀ ++ opening x h₀ ++ y)
      ∨ (mid ≠ some x ∧ .hold x ∈ h₀ ∧ delivered x (h₀ ++ t) = delivered x h₀) := by
  by_cases hbefore : Event.hold x ∈ h₀
  · by_cases hclient : c₀ = some x
    · -- the client of the calls before
      have hinc : inc ≠ some x := by
        intro hinc
        obtain ⟨e, he, hgets⟩ := hseg.got x hinc
        exact htidy.not_again (hknown hclient) e he hgets
      have hno : Event.hold x ∉ t := fun hin => hinc (hseg.held x hin).1
      by_cases hmid : mid = some x
      · refine .inl ⟨hmid, ?_, ?_⟩
        · rw [opening, if_pos hbefore, List.append_nil]
          exact hstory.client hbefore hclient
        · rw [delivered_append, (hseg.old x hmid hno).2 hinc, opening, if_pos hbefore,
            List.append_nil]
      · exact .inr ⟨hmid, hbefore, by rw [delivered_append, hseg.quiet x hinc hmid, List.append_nil]⟩
    · -- closed already
      obtain ⟨hclosed, -⟩ := hstory.gone hbefore hclient
      obtain ⟨hout, hgets⟩ := htidy.after_close hclosed
      refine .inr ⟨?_, hbefore, by rw [delivered_append, hout, List.append_nil]⟩
      intro hmid
      have hno : Event.hold x ∉ t := by
        intro hin
        obtain ⟨e, he, hget⟩ := hseg.got x (hseg.held x hin).1
        exact hgets e he hget
      exact hclient (hseg.old x hmid hno).1
  · -- accepted in this call
    have hin : Event.hold x ∈ t := (List.mem_append.mp hheld).resolve_left hbefore
    obtain ⟨hinc, hmid, hout⟩ := hseg.held x hin
    obtain ⟨e, he, hgets⟩ := hseg.got x hinc
    have hnone := htidy.fresh he hgets
    refine .inl ⟨hmid, ?_, ?_⟩
    · rw [hnone, opening, if_neg hbefore, List.nil_append]
      exact ⟨[], by simp [stream], List.nil_sublist _⟩
    · rw [delivered_append, hnone, hout, opening, if_neg hbefore, List.nil_append,
        List.nil_append]

/-- Left waiting in a call, the bytes are framed with at most a part of its event. -/
theorem Story.waiting (hstory : Story x calls c₀ h₀) (htidy : Tidy base (h₀ ++ t))
    (hknown : c₀ = some x → x ∈ base ∨ x ∈ descriptors.obtained h₀) {d : SnapCall}
    (hev : ev = d.event ∨ ev = []) (hmidway : Midway c₀ ev t) (hheld : .hold x ∈ h₀ ++ t) :
    Framed (calls ++ [d]) True (delivered x (h₀ ++ t)) := by
  obtain ⟨inc, mid, y, hseg⟩ := hmidway
  have hmore : calls.Sublist (calls ++ [d]) := List.sublist_append_left _ _
  rcases hseg.adds htidy hknown hstory hheld with ⟨-, hwhole, hbytes⟩ | ⟨-, hbefore, hbytes⟩
  · rw [hbytes]
    refine hwhole.part ?_ fun _ => trivial
    rcases hev with rfl | rfl
    · exact hseg.part
    · rw [List.prefix_nil.mp hseg.part]
      exact List.nil_prefix
  · rw [hbytes]
    by_cases hclient : c₀ = some x
    · exact ((hstory.client hbefore hclient).skip d).framed True
    · exact (hstory.gone hbefore hclient).2.mono hmore fun _ => trivial

/-- **A call of the pump continues the story.** -/
theorem Story.step (hstory : Story x calls c₀ h₀) (htidy : Tidy base (h₀ ++ t))
    (hknown : c₀ = some x → x ∈ base ∨ x ∈ descriptors.obtained h₀) {d : SnapCall}
    (hev : ev = d.event ∨ ev = []) (hfin : Finished c₀ ev c t) :
    Story x (calls ++ [d]) c (h₀ ++ t) := by
  obtain ⟨inc, mid, y, hseg, hkept, hend⟩ := hfin
  have hmore : calls.Sublist (calls ++ [d]) := List.sublist_append_left _ _
  -- a client that is not sent to in this call was closed in it, or before
  have hleft : mid ≠ some x → Event.hold x ∈ h₀ → delivered x (h₀ ++ t) = delivered x h₀ →
      Event.close x ∈ h₀ ++ t
        ∧ Framed (calls ++ [d]) (Event.close x ∈ h₀ ++ t) (delivered x (h₀ ++ t)) := by
    intro hmid hbefore hbytes
    rw [hbytes]
    by_cases hclient : c₀ = some x
    · refine ⟨?_, ((hstory.client hbefore hclient).skip d).framed _⟩
      rcases hkept with heq | hclosed
      · exact absurd (heq.trans hclient) hmid
      · exact List.mem_append_right _ (hclosed x hclient)
    · obtain ⟨hclosed, hframed⟩ := hstory.gone hbefore hclient
      exact ⟨List.mem_append_left _ hclosed,
        hframed.mono hmore fun _ => List.mem_append_left _ hclosed⟩
  refine ⟨?_, ?_, ?_⟩
  · rintro hno rfl
    have hno₀ : Event.hold x ∉ h₀ := fun hin => hno (List.mem_append_left _ hin)
    have hnot : Event.hold x ∉ t := fun hin => hno (List.mem_append_right _ hin)
    rcases hend with ⟨hmid, -⟩ | ⟨hnone, -⟩
    · exact hstory.unknown hno₀ (hseg.old x hmid.symm hnot).1
    · exact absurd hnone (by simp)
  · rintro hheld rfl
    rcases hend with ⟨hmid, hy⟩ | ⟨hnone, -⟩
    · rcases hseg.adds htidy hknown hstory hheld with ⟨-, hwhole, hbytes⟩ | ⟨hne, -⟩
      · rw [hbytes]
        rcases hy with rfl | rfl
        · rw [List.append_nil]
          exact hwhole.skip d
        · rcases hev with rfl | rfl
          · exact hwhole.event d
          · rw [List.append_nil]
            exact hwhole.skip d
      · exact absurd hmid.symm hne
    · exact absurd hnone (by simp)
  · intro hheld hc
    rcases hseg.adds htidy hknown hstory hheld with ⟨hmid, hwhole, hbytes⟩ | ⟨hne, hbefore, hbytes⟩
    · -- the event was cut short
      rcases hend with ⟨heq, -⟩ | ⟨-, hy, g, hg, hclosed⟩
      · exact absurd (heq.trans hmid) hc
      · obtain rfl := Option.some.inj (hmid.symm.trans hg)
        have hin : Event.close x ∈ h₀ ++ t := List.mem_append_right _ hclosed
        refine ⟨hin, ?_⟩
        rw [hbytes]
        refine hwhole.part ?_ fun _ => hin
        rcases hev with rfl | rfl
        · exact hseg.part
        · exact absurd (List.prefix_nil.mp hseg.part) hy
    · exact hleft hne hbefore hbytes

/-! ### Any number of calls -/

/-- The client is a descriptor known before. -/
theorem Holds.known {S : Set Fd} {h : List Event} {w : World} (hh : Holds base S c h w)
    (hc : c = some x) : x ∈ base ∨ x ∈ descriptors.obtained h :=
  ((hh.owns.owned.live x).mpr (.inl hc)).1

theorem pump_story {S : Set Fd} {srv : HttpSseServer}
    (hsrv : ∀ fd, srv.listenFd = some fd → fd ∈ S) (done : List SnapCall) (d : SnapCall) :
    Triple (fun h w => Story x done c h ∧ Holds base S c h w)
      (httpSsePump srv c d.call.webRoot d.call.json d.call.jsonLen d.call.timeoutMs d.call.reset)
      (fun r h w => Story x (done ++ [d]) r.clientFd h ∧ Holds base S r.clientFd h w)
      (fun h => .hold x ∈ h → Framed (done ++ [d]) True (delivered x h)) := by
  refine Triple.exact fun h₀ w₀ hstart => ?_
  obtain ⟨hstory, hholds⟩ := hstart
  have hsent := httpSsePump_since h₀ srv c d.call.webRoot d.call.json d.call.jsonLen
    d.call.timeoutMs d.call.reset
  have hown : Triple (Holds base S c) _ (fun r : Pumped => Holds base S r.clientFd) (Tidy base) :=
    httpSsePump_holds hsrv c d.call.webRoot d.call.json d.call.jsonLen d.call.timeoutMs
      d.call.reset
  refine (hsent.and hown).mono ?_ ?_ ?_
  · rintro h w ⟨rfl, rfl⟩
    exact ⟨rfl, hholds⟩
  · rintro r h w ⟨⟨t, rfl, hfin⟩, hafter⟩
    exact ⟨hstory.step hafter.owns.tidy hholds.known d.eventOf_call hfin, hafter⟩
  · rintro h ⟨⟨t, rfl, hmidway⟩, htidy⟩ hheld
    exact hstory.waiting htidy hholds.known d.eventOf_call hmidway hheld

theorem pumps_story {S : Set Fd} {srv : HttpSseServer}
    (hsrv : ∀ fd, srv.listenFd = some fd → fd ∈ S) (calls done : List SnapCall) (c : Option Fd) :
    Triple (fun h w => Story x done c h ∧ Holds base S c h w)
      (pumps srv (calls.map SnapCall.call) c)
      (fun c' h w => Story x (done ++ calls) c' h ∧ Holds base S c' h w)
      (fun h => .hold x ∈ h → Framed (done ++ calls) True (delivered x h)) := by
  induction calls generalizing done c with
  | nil =>
      rw [List.append_nil]
      exact .pure fun _ _ h => h
  | cons d rest ih =>
      have hsplit : done ++ d :: rest = done ++ [d] ++ rest := by simp
      rw [hsplit]
      refine Triple.bind ((pump_story hsrv done d).mono (fun _ _ h => h) (fun _ _ _ h => h) ?_)
        fun r => ih (done ++ [d]) r.clientFd
      exact fun h hw hheld => (hw hheld).mono (List.sublist_append_left _ _) id

end

theorem story_start (x : Fd) : Story x [] none [] := ⟨by simp, by simp, by simp⟩

theorem pumps_append (srv : HttpSseServer) (a b : List PumpCall) (c : Option Fd) :
    pumps srv (a ++ b) c = pumps srv a c >>= pumps srv b := by
  induction a generalizing c with
  | nil => rfl
  | cons call rest ih =>
      show (httpSsePump srv c _ _ _ _ _ >>= fun r => pumps srv (rest ++ b) r.clientFd) = _
      rw [funext fun r : Pumped => ih r.clientFd]
      exact (Proc.bind_assoc _ _ _).symm

/-- The calls one after the other, starting without a client. -/
def snapRun (srv : HttpSseServer) (calls : List SnapCall) (w : World) (rs : List Reply) :
    Outcome Event Reply World (Option Fd) :=
  pumps srv (calls.map SnapCall.call) none w rs

/-- What one more call has sent, whether it has returned or not. -/
theorem pumps_midway (srv : HttpSseServer) (d : SnapCall) (c : Option Fd) (w : World)
    (rs : List Reply) :
    Midway c (eventOf d.call.json d.call.jsonLen) (pumps srv [d.call] c w rs).trace := by
  have hcall : Triple (fun h _ => h = []) (pumps srv [d.call] c)
      (fun _ => Since [] (Midway c (eventOf d.call.json d.call.jsonLen)))
      (Waits [] (Midway c (eventOf d.call.json d.call.jsonLen))) := by
    refine Triple.bind (httpSsePump_since [] srv c d.call.webRoot d.call.json d.call.jsonLen
      d.call.timeoutMs d.call.reset) fun r => .pure ?_
    rintro h w ⟨t, ht, inc, mid, y, hseg, -⟩
    exact ⟨t, ht, inc, mid, y, hseg⟩
  have hmeets := hcall [] w rs rfl
  cases hres : (pumps srv [d.call] c w rs).result with
  | none =>
      obtain ⟨t, ht, hmidway⟩ := hmeets.waits hres
      rw [List.append_cancel_left ht]
      exact hmidway
  | some r =>
      obtain ⟨t, ht, hmidway⟩ := hmeets.ends _ _ _ hres
      rw [List.append_cancel_left ht]
      exact hmidway

/-- One more call, after calls that have all returned or do not return. -/
theorem snapRun_snoc (srv : HttpSseServer) (before : List SnapCall) (d : SnapCall) (w : World)
    (rs : List Reply) :
    snapRun srv (before ++ [d]) w rs
      = Proc.andThen (snapRun srv before w rs) (pumps srv [d.call]) := by
  rw [snapRun, List.map_append, pumps_append]
  rfl

/--
**Event streams stay framed.**

For every sequence of calls of the pump with the texts of any snapshots, every reply of the
kernel to every call, and every connection that became the client:

* the bytes sent on it are the header block and whole events of some of the calls, in their
  order and at most one for each, possibly followed by one event cut short, and then the
  connection is closed by the time the call returns;
* nothing is done with it after its close;
* the last call sent on it a prefix of its own event and nothing else, after the header
  block if it is the call that accepted it;
* the text of an event is one line of printable characters.
-/
theorem sse_framed {srv : HttpSseServer} {w : World}
    (hsrv : ∀ fd, srv.listenFd = some fd → fd < w.next) (calls : List SnapCall) (rs : List Reply)
    (fd : Fd) (hheld : .hold fd ∈ (snapRun srv calls w rs).trace) :
    Framed calls
        ((snapRun srv calls w rs).result.isSome → .close fd ∈ (snapRun srv calls w rs).trace)
        (delivered fd (snapRun srv calls w rs).trace)
      ∧ QuietAfterClose (snapRun srv calls w rs).trace
      ∧ (∀ before d, calls = before ++ [d] → ∃ y, y <+: d.event
          ∧ delivered fd (snapRun srv calls w rs).trace
            = delivered fd (snapRun srv before w rs).trace
              ++ opening fd (snapRun srv before w rs).trace ++ y)
      ∧ ∀ d ∈ calls, Printable (jsonText d.snap) := by
  have hstart := holds_start hsrv
  have hruns : ∀ calls, (snapRun srv calls w rs).Meets []
      (fun c h w => Story fd calls c h
        ∧ Holds {g | srv.listenFd = some g} {g | srv.listenFd = some g} c h w)
      (fun h => .hold fd ∈ h → Framed calls True (delivered fd h)) :=
    fun calls => pumps_story (fun _ h => h) calls [] none [] w rs ⟨story_start fd, hstart⟩
  have htidy : Tidy {g | srv.listenFd = some g} (snapRun srv calls w rs).trace := by
    have hown := pumps_holds (fun _ h => h) (calls.map SnapCall.call) none [] w rs hstart
    cases hres : (snapRun srv calls w rs).result with
    | none => exact hown.waits hres
    | some r => exact (hown.ends _ _ _ hres).owns.tidy
  refine ⟨?_, htidy.quiet, ?_, fun d _ => printable_jsonText d.snap⟩
  · have hall := hruns calls
    cases hres : (snapRun srv calls w rs).result with
    | none => exact (hall.waits hres hheld).mono (List.Sublist.refl _) (by simp)
    | some r =>
        obtain ⟨c, w', rs'⟩ := r
        obtain ⟨hstory, -⟩ := hall.ends c w' rs' hres
        by_cases hc : c = some fd
        · exact (hstory.client hheld hc).framed _
        · exact (hstory.gone hheld hc).2.mono (List.Sublist.refl _) fun hclosed _ => hclosed
  · rintro before d rfl
    rw [snapRun_snoc, Proc.andThen] at hheld htidy ⊢
    have hbefore := hruns before
    cases hres : (snapRun srv before w rs).result with
    | none =>
        rw [hres] at hheld
        refine ⟨[], List.nil_prefix, ?_⟩
        rw [opening, if_pos hheld, List.append_nil, List.append_nil]
    | some r =>
        obtain ⟨c, w', rs'⟩ := r
        rw [hres] at hheld htidy
        obtain ⟨hstory, hholds⟩ := hbefore.ends c w' rs' hres
        obtain ⟨inc, mid, y, hseg⟩ := pumps_midway srv d c w' rs'
        rcases hseg.adds htidy hholds.known hstory hheld with ⟨-, -, hbytes⟩ | ⟨-, hin, hbytes⟩
        · refine ⟨y, ?_, hbytes⟩
          rcases d.eventOf_call with heq | heq
          · rw [← heq]
            exact hseg.part
          · have hnil := hseg.part
            rw [heq] at hnil
            rw [List.prefix_nil.mp hnil]
            exact List.nil_prefix
        · refine ⟨[], List.nil_prefix, ?_⟩
          rw [opening, if_pos hin, List.append_nil, List.append_nil]
          exact hbytes

/-- A call with the text of an empty snapshot. -/
def plainCall : SnapCall := ⟨{}, [], none, 100, none⟩

/-- A client that is accepted and sent the event of the call, all of it. -/
theorem sse_framed_one_event :
    (snapRun ⟨some 0⟩ [plainCall] eventsWorld (List.replicate 12 willing)).result.map (·.1)
        = some (some 1)
      ∧ delivered 1 (snapRun ⟨some 0⟩ [plainCall] eventsWorld (List.replicate 12 willing)).trace
        = stream [plainCall]
      ∧ Printable (jsonText plainCall.snap) := by
  -- the run is evaluated once: its result, the mark that the client was held, and a length
  have hrun : (snapRun ⟨some 0⟩ [plainCall] eventsWorld
        (List.replicate 12 willing)).result.map (·.1) = some (some 1)
      ∧ .hold 1 ∈ (snapRun ⟨some 0⟩ [plainCall] eventsWorld
        (List.replicate 12 willing)).trace
      ∧ (delivered 1 (snapRun ⟨some 0⟩ [plainCall] eventsWorld
        (List.replicate 12 willing)).trace).length
          = (text sseHeaders).length + plainCall.event.length := by
    decide +kernel
  obtain ⟨hres, hheld, hlen⟩ := hrun
  obtain ⟨-, -, hlast, hprint⟩ := @sse_framed ⟨some 0⟩ eventsWorld (by simp [eventsWorld])
    [plainCall] (List.replicate 12 willing) 1 hheld
  -- nothing was sent before, so the call sent the header block and then its event
  obtain ⟨y, hpre, hbytes⟩ := hlast [] plainCall rfl
  have hbefore : (snapRun ⟨some 0⟩ [] eventsWorld (List.replicate 12 willing)).trace = [] := rfl
  rw [hbefore, delivered_nil, opening, if_neg List.not_mem_nil, List.nil_append] at hbytes
  rw [hbytes, List.length_append, Nat.add_left_cancel_iff] at hlen
  refine ⟨hres, ?_, hprint plainCall List.mem_cons_self⟩
  rw [hbytes, hpre.eq_of_length hlen, stream, List.flatMap_singleton]

end RateHub.Http
