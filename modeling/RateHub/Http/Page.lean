import RateHub.Http.Streams
import RateHub.Http.Telemetry
import RateHub.Lib.EventStream

/-!
# What the page receives

`web/dashboard.html` opens an `EventSource` on `/events` and hands each message to
`JSON.parse`. Between the snapshot that the observer formats and the object that the page
gets lie the buffer, the pump with all that `poll` and `send` may do, the wire, and the reading of
the header block, of the event stream and of the JSON text.

`Page` is the receiving side. The bytes may arrive in pieces of any size. A number is kept as it
is written; what the browser makes of one beyond `2^53` is not looked at.
-/

namespace RateHub.Http

open EventStream Interaction

/-! ## The page -/

/-- The receiving side of `/events`, between two bytes. -/
structure Page where
  /-- How much of the empty line after the headers was read last; 4 once they are over. -/
  head : Nat := 0
  reader : Reader := {}
  deriving DecidableEq, Repr

/-- Looking for CR LF CR LF, `n` of its characters were read last. -/
def afterHead (n : Nat) (b : UInt8) : Nat :=
  if b = cr then (if n = 2 then 3 else 1)
  else if b = lf then (if n = 1 then 2 else if n = 3 then 4 else 0)
  else 0

namespace Page

/-- A byte arrives. -/
def feed (p : Page) (b : UInt8) : Page :=
  if p.head = 4 then { p with reader := p.reader.feed b } else { p with head := afterHead p.head b }

/-- Some bytes arrive. -/
def feedAll (p : Page) (s : List UInt8) : Page := s.foldl feed p

/-- `onmessage`: `JSON.parse(e.data)` of each message; `none` is a `SyntaxError`. -/
def objects (bytes : List UInt8) : List (Option Json.Value) :=
  (Page.feedAll {} bytes).reader.messages.map fun m => Json.parse (chars m)

/-- `snap.sources || []` of an object it was given. -/
def sources : Json.Value → List Json.Value
  | .obj members =>
      match members.lookup "sources" with
      | some (.arr items) => items
      | _ => []
  | _ => []

variable {p : Page} {s t : List UInt8}

theorem feedAll_append : p.feedAll (s ++ t) = (p.feedAll s).feedAll t := List.foldl_append

/-- Past the headers. -/
theorem feedAll_body (h : p.head = 4) : p.feedAll s = { p with reader := p.reader.feedAll s } := by
  induction s generalizing p with
  | nil => rfl
  | cons b s ih =>
      show (p.feed b).feedAll s = _
      have hfeed : p.feed b = { p with reader := p.reader.feed b } := by rw [feed, if_pos h]
      rw [hfeed, ih (p := { p with reader := p.reader.feed b }) h]
      rfl

theorem messages_feed (p : Page) (b : UInt8) :
    p.reader.messages <+: (p.feed b).reader.messages := by
  unfold feed
  split
  · exact Reader.messages_feed p.reader b
  · exact List.prefix_refl _

theorem messages_feedAll (p : Page) (s : List UInt8) :
    p.reader.messages <+: (p.feedAll s).reader.messages := by
  induction s generalizing p with
  | nil => exact List.prefix_refl _
  | cons b s ih => exact (messages_feed p b).trans (ih (p.feed b))

/-- What the page has been given when a part of the bytes has arrived. -/
theorem objects_mono (h : s <+: t) : objects s <+: objects t := by
  obtain ⟨u, rfl⟩ := h
  rw [objects, objects, feedAll_append]
  exact (messages_feedAll _ u).map _

/-- The header block is read to its end. -/
theorem feedAll_headers : Page.feedAll {} (text sseHeaders) = { head := 4 } := by decide +kernel

end Page

theorem Page.sources_telemetryObject (snap : TelemetrySnapshot)
    (hcount : snap.sourceCount ≤ kMaxPoints) :
    Page.sources (telemetryObject snap hcount) = (points snap).map pointObject := by
  rw [points_eq snap hcount]
  rfl

/-! ## Events -/

theorem plain_of_printable {s : List UInt8} (h : Printable s) : Reader.Plain s := by
  intro b hb
  have hlow := (h b hb).1
  refine ⟨?_, ?_⟩
  · rintro rfl
    exact absurd hlow (by decide)
  · rintro rfl
    exact absurd hlow (by decide)

/-- The event of a call is the event of its text. -/
theorem SnapCall.event_eq (d : SnapCall) : d.event = Reader.event (jsonText d.snap) := by
  have hdata : text "data: " = dataName ++ [colon, space] := by decide
  have hend : text "\n\n" = [lf] ++ [lf] := by decide
  rw [SnapCall.event, hdata, hend, ← List.append_assoc]
  rfl

theorem stream_eq (sub : List SnapCall) :
    stream sub = text sseHeaders ++ (sub.map fun d => jsonText d.snap).flatMap Reader.event := by
  rw [stream, List.flatMap_map]
  exact congrArg _ (List.flatMap_congr fun d _ => d.event_eq)

/-- What the page makes of the text of a snapshot. -/
theorem parse_jsonText (snap : TelemetrySnapshot) (hcount : snap.sourceCount ≤ kMaxPoints) :
    Json.parse (chars (jsonText snap)) = some (telemetryObject snap hcount) := by
  rw [chars_jsonText snap hcount]
  exact Json.parse_render (writable_telemetryObject snap hcount)

/-- **The messages of a framed stream** are the texts of its whole events. -/
theorem messages_framed {calls : List SnapCall} {closed : Prop} {bytes : List UInt8}
    (h : Framed calls closed bytes) : ∃ sub : List SnapCall, sub.Sublist calls
      ∧ (Page.feedAll {} bytes).reader.messages = sub.map fun d => jsonText d.snap := by
  obtain ⟨sub, tail, hbytes, hsub, htail⟩ := h
  refine ⟨sub, hsub, ?_⟩
  have hplain : ∀ s ∈ sub.map fun d => jsonText d.snap, Reader.Plain s := by
    intro s hs
    obtain ⟨d, _, rfl⟩ := List.mem_map.mp hs
    exact plain_of_printable (printable_jsonText d.snap)
  have hclear : ({} : Reader).Clear := ⟨rfl, rfl, rfl, rfl⟩
  have hwhole := Reader.feedAll_events hclear hplain
  rw [hbytes, Page.feedAll_append, stream_eq, Page.feedAll_append, Page.feedAll_headers,
    Page.feedAll_body (p := { head := 4 }) rfl, Page.feedAll_body (by rfl), hwhole]
  rcases htail with rfl | ⟨d, _, hpre, hne, _⟩
  · simp [Reader.feedAll]
  · -- the event cut short gives no message
    rw [SnapCall.event_eq] at hpre hne
    have hcut := Reader.messages_cut (r := { messages := sub.map fun d => jsonText d.snap })
      ⟨rfl, rfl, rfl, rfl⟩ (plain_of_printable (printable_jsonText d.snap)) hpre hne
    simpa using hcut

/-- What was sent to a connection that became the client. -/
theorem framed_of_held {srv : HttpSseServer} {w : World}
    (hsrv : ∀ fd, srv.listenFd = some fd → fd < w.next) (calls : List SnapCall) (rs : List Reply)
    (fd : Fd) (hheld : .hold fd ∈ (snapRun srv calls w rs).trace) :
    Framed calls True (delivered fd (snapRun srv calls w rs).trace) := by
  have hrun : (snapRun srv calls w rs).Meets []
      (fun c h w => Story fd calls c h
        ∧ Holds {g | srv.listenFd = some g} {g | srv.listenFd = some g} c h w)
      (fun h => .hold fd ∈ h → Framed calls True (delivered fd h)) :=
    pumps_story (fun _ h => h) calls [] none [] w rs ⟨story_start fd, holds_start hsrv⟩
  cases hres : (snapRun srv calls w rs).result with
  | none => exact hrun.waits hres hheld
  | some r =>
      obtain ⟨c, w', rs'⟩ := r
      obtain ⟨hstory, -⟩ := hrun.ends c w' rs' hres
      by_cases hc : c = some fd
      · exact (hstory.client hheld hc).framed _
      · exact (hstory.gone hheld hc).2.mono (List.Sublist.refl _) fun _ => trivial

/-- **The page receives what the observer has seen.** For every sequence of calls of the pump with
the texts of snapshots, every reply of the kernel to every call, and every connection that
became the client: the messages the page is given are, one for one and in order, the
objects of the snapshots of some of the calls, none of them torn, unreadable or twice; and whatever
part of the bytes has arrived, the page has been given the first of them. -/
theorem page_receives_snapshots {srv : HttpSseServer} {w : World}
    (hsrv : ∀ fd, srv.listenFd = some fd → fd < w.next) (calls : List SnapCall)
    (hcount : ∀ d ∈ calls, d.snap.sourceCount ≤ kMaxPoints) (rs : List Reply) (fd : Fd)
    (hheld : .hold fd ∈ (snapRun srv calls w rs).trace) :
    (∃ sub : List SnapCall, sub.Sublist calls
      ∧ List.Forall₂ (fun v d => ∃ h, v = some (telemetryObject d.snap h))
          (Page.objects (delivered fd (snapRun srv calls w rs).trace)) sub)
      ∧ ∀ arrived, arrived <+: delivered fd (snapRun srv calls w rs).trace →
          Page.objects arrived <+: Page.objects (delivered fd (snapRun srv calls w rs).trace) := by
  refine ⟨?_, fun _ => Page.objects_mono⟩
  obtain ⟨sub, hsub, hmessages⟩ := messages_framed (framed_of_held hsrv calls rs fd hheld)
  refine ⟨sub, hsub, ?_⟩
  rw [Page.objects, hmessages, List.map_map, List.forall₂_map_left_iff]
  refine List.forall₂_same.mpr ?_
  intro d hd
  have hd := hcount d (hsub.subset hd)
  refine ⟨hd, ?_⟩
  rw [Function.comp_apply, parse_jsonText d.snap hd]

/-- A page that connects is given one message, the object of the snapshot. -/
theorem page_receives_snapshots_one :
    ∃ h : twoPoints.sourceCount ≤ kMaxPoints,
      Page.objects (delivered 1 (snapRun ⟨some 0⟩ [⟨twoPoints, [], none, 100, none⟩] eventsWorld
        (List.replicate 12 willing)).trace) = [some (telemetryObject twoPoints h)] := by
  -- one evaluation of the run gives both that the page was held and that it has a message
  obtain ⟨hheld, hone⟩ : .hold 1 ∈ (snapRun ⟨some 0⟩ [⟨twoPoints, [], none, 100, none⟩] eventsWorld
        (List.replicate 12 willing)).trace
      ∧ (Page.feedAll {} (delivered 1 (snapRun ⟨some 0⟩ [⟨twoPoints, [], none, 100, none⟩]
          eventsWorld (List.replicate 12 willing)).trace)).reader.messages.length = 1 := by
    decide +kernel
  have hlisten : ∀ fd, HttpSseServer.listenFd ⟨some 0⟩ = some fd → fd < eventsWorld.next := by
    simp [eventsWorld]
  have hcount : ∀ d ∈ [(⟨twoPoints, [], none, 100, none⟩ : SnapCall)],
      d.snap.sourceCount ≤ kMaxPoints := by
    simp [twoPoints, kMaxPoints]
  obtain ⟨⟨sub, hsub, hobjects⟩, -⟩ := page_receives_snapshots hlisten _ hcount _ 1 hheld
  -- the calls behind the messages are some of the one call, and there is a message
  obtain rfl := hsub.eq_of_length
    (hobjects.length_eq.symm.trans (List.length_map _ |>.trans hone))
  generalize Page.objects _ = objects at hobjects
  obtain ⟨v, rest, ⟨h, rfl⟩, hnil, rfl⟩ := List.forall₂_cons_right_iff.mp hobjects
  rw [List.forall₂_nil_right_iff.mp hnil]
  exact ⟨h, rfl⟩

end RateHub.Http
