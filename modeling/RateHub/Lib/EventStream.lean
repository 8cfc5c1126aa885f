import Mathlib.Data.List.Infix
import Mathlib.Data.List.TakeWhile

/-!
# Reading an event stream

How the receiver of a `text/event-stream` interprets it, byte by byte. A line ends with LF, CR
or CRLF and is a field: a name, a colon, and a value with one space in front of it taken off.
The values of `data` are collected, a line each; an empty line dispatches them as one message, and
what is collected when the stream ends is dropped. A message with a type of its own does
not go to the listener for plain ones. The fields `id` and `retry` matter to a reconnection only.

Whatever part of a stream has arrived, the messages dispatched so far are the first of those
of the whole.
-/

namespace EventStream

/-- Carriage return, line feed, colon and space. -/
abbrev cr : UInt8 := 13
abbrev lf : UInt8 := 10
abbrev colon : UInt8 := 58
abbrev space : UInt8 := 32

/-- `data` and `event`. -/
abbrev dataName : List UInt8 := [100, 97, 116, 97]
abbrev eventName : List UInt8 := [101, 118, 101, 110, 116]

/-- `message`. -/
abbrev plainKind : List UInt8 := [109, 101, 115, 115, 97, 103, 101]

/-- A receiver between two bytes. -/
structure Reader where
  /-- The line so far. -/
  line : List UInt8 := []
  /-- The last byte was a CR, so an LF belongs to it. -/
  afterCr : Bool := false
  data : List UInt8 := []
  kind : List UInt8 := []
  messages : List (List UInt8) := []
  deriving DecidableEq, Repr

/-- The name of a field. -/
def fieldName (line : List UInt8) : List UInt8 := line.takeWhile (· != colon)

/-- The value of a field. -/
def fieldValue (line : List UInt8) : List UInt8 :=
  let value := (line.dropWhile (· != colon)).drop 1
  if value.head? = some space then value.drop 1 else value

namespace Reader

/-- An empty line. -/
def dispatch (r : Reader) : Reader :=
  { line := [], afterCr := r.afterCr, data := [], kind := []
    messages :=
      if r.data = [] ∨ (r.kind ≠ [] ∧ r.kind ≠ plainKind) then r.messages
      else r.messages ++ [r.data.dropLast] }

/-- A line has ended. -/
def endLine (r : Reader) : Reader :=
  if r.line = [] then r.dispatch
  else if fieldName r.line = dataName then
    { r with line := [], data := r.data ++ fieldValue r.line ++ [lf] }
  else if fieldName r.line = eventName then { r with line := [], kind := fieldValue r.line }
  else { r with line := [] }

/-- A byte arrives. -/
def feed (r : Reader) (b : UInt8) : Reader :=
  if b = lf then if r.afterCr then { r with afterCr := false } else r.endLine
  else if b = cr then { r.endLine with afterCr := true }
  else { r with line := r.line ++ [b], afterCr := false }

/-- Some bytes arrive. -/
def feedAll (r : Reader) (s : List UInt8) : Reader := s.foldl feed r

variable {r : Reader} {s t : List UInt8}

theorem feedAll_append : r.feedAll (s ++ t) = (r.feedAll s).feedAll t := List.foldl_append

theorem messages_endLine (r : Reader) : r.messages <+: r.endLine.messages := by
  unfold endLine
  split
  · unfold dispatch
    split
    · exact List.prefix_refl _
    · exact List.prefix_append _ _
  · split
    · exact List.prefix_refl _
    · split <;> exact List.prefix_refl _

/-- No message is taken back. -/
theorem messages_feed (r : Reader) (b : UInt8) : r.messages <+: (r.feed b).messages := by
  unfold feed
  split
  · split
    · exact List.prefix_refl _
    · exact messages_endLine r
  · split
    · exact messages_endLine r
    · exact List.prefix_refl _

theorem messages_feedAll (r : Reader) (s : List UInt8) :
    r.messages <+: (r.feedAll s).messages := by
  induction s generalizing r with
  | nil => exact List.prefix_refl _
  | cons b s ih => exact (messages_feed r b).trans (ih (r.feed b))

/-- **What part of a stream has arrived matters to the number of messages only.** -/
theorem messages_mono (h : s <+: t) : (r.feedAll s).messages <+: (r.feedAll t).messages := by
  obtain ⟨u, rfl⟩ := h
  rw [feedAll_append]
  exact messages_feedAll _ u

/-! ## One event -/

theorem fieldName_data (s : List UInt8) : fieldName (dataName ++ [colon, space] ++ s) = dataName :=
  rfl

theorem fieldValue_data (s : List UInt8) : fieldValue (dataName ++ [colon, space] ++ s) = s := rfl

/-- No byte ends a line. -/
def Plain (s : List UInt8) : Prop := ∀ b ∈ s, b ≠ lf ∧ b ≠ cr

instance (s : List UInt8) : Decidable (Plain s) :=
  List.decidableBAll (fun b => b ≠ lf ∧ b ≠ cr) s

theorem feedAll_plain (hr : r.afterCr = false) (hs : Plain s) :
    r.feedAll s = { r with line := r.line ++ s } := by
  induction s generalizing r with
  | nil => simp [feedAll]
  | cons b s ih =>
      have hb := hs b List.mem_cons_self
      have hfeed : r.feed b = { r with line := r.line ++ [b] } := by
        simp [feed, hb.1, hb.2, hr]
      show (r.feed b).feedAll s = _
      rw [hfeed, ih (r := { r with line := r.line ++ [b] }) hr
        fun c hc => hs c (List.mem_cons_of_mem _ hc)]
      simp

/-- `data: `, a value and the end of the line. -/
def dataLine (value : List UInt8) : List UInt8 := dataName ++ [colon, space] ++ value ++ [lf]

/-- The line and an empty one. -/
def event (value : List UInt8) : List UInt8 := dataLine value ++ [lf]

/-- Nothing is collected. -/
structure Clear (r : Reader) : Prop where
  line : r.line = []
  afterCr : r.afterCr = false
  data : r.data = []
  kind : r.kind = []

theorem feedAll_dataLine (hr : r.Clear) (hs : Plain s) :
    r.feedAll (dataLine s) = { r with data := s ++ [lf] } := by
  have hplain : Plain (dataName ++ [colon, space] ++ s) := by
    intro b hb
    rcases List.mem_append.mp hb with hb | hb
    · exact (by decide : Plain (dataName ++ [colon, space])) b hb
    · exact hs b hb
  rw [dataLine, feedAll_append, feedAll_plain hr.afterCr hplain, hr.line, List.nil_append]
  show feed _ lf = _
  rw [feed, if_pos rfl, if_neg (by simp [hr.afterCr]), endLine, if_neg (by simp)]
  simp only [fieldName_data, fieldValue_data, if_true, hr.data, List.nil_append]

/-- **An event is one message.** -/
theorem feedAll_event (hr : r.Clear) (hs : Plain s) :
    r.feedAll (event s) = { r with messages := r.messages ++ [s] } := by
  rw [event, feedAll_append, feedAll_dataLine hr hs]
  show feed _ lf = _
  simp [feed, hr.afterCr, endLine, hr.line, dispatch, hr.kind, hr.data]

theorem Clear.event (hr : r.Clear) (hs : Plain s) : (r.feedAll (event s)).Clear := by
  rw [feedAll_event hr hs]
  exact ⟨hr.line, hr.afterCr, hr.data, hr.kind⟩

/-- Events one after the other. -/
theorem feedAll_events {values : List (List UInt8)} (hr : r.Clear) (hs : ∀ s ∈ values, Plain s) :
    r.feedAll (values.flatMap Reader.event)
      = { r with messages := r.messages ++ values } := by
  induction values generalizing r with
  | nil => simp [feedAll]
  | cons s values ih =>
      have hplain := hs s List.mem_cons_self
      rw [List.flatMap_cons, feedAll_append,
        ih (hr.event hplain) fun t ht => hs t (List.mem_cons_of_mem _ ht),
        feedAll_event hr hplain]
      simp

/-- An event that is cut short is no message. -/
theorem messages_cut (hr : r.Clear) (hs : Plain s) (ht : t <+: Reader.event s)
    (hne : t ≠ Reader.event s) : (r.feedAll t).messages = r.messages := by
  -- without its last byte, the event is a line that is collected
  have hline : t <+: dataLine s := by
    rcases List.prefix_concat_iff.mp ht with heq | hpre
    · exact absurd heq hne
    · exact hpre
  have hup := messages_mono (r := r) hline
  rw [feedAll_dataLine hr hs] at hup
  exact hup.eq_of_length_le (messages_feedAll r t).length_le

end Reader

end EventStream
