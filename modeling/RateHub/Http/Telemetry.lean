import RateHub.Http.TextProof
import RateHub.Lib.Json

/-!
# The telemetry text as JSON

`telemetryObject` is the JSON object that a snapshot stands for: every field under its
name, and the points of the sources in their order. What `format_telemetry_json` writes is
that object without a blank, so a JSON reader gets the object back.
-/

namespace RateHub.Http

open Json

/-! ## The object -/

/-- The object of a source. -/
def pointObject (src : SourcePoint) : Value :=
  .obj
    [("id", .num src.id.toNat), ("x", .num src.x.toInt), ("y", .num src.y.toInt),
      ("p", .num src.publishes.toNat), ("seq", .num src.sequence.toNat)]

/-- The first `source_count` points of a snapshot, in order. -/
def sourcePoints (snap : TelemetrySnapshot) (hcount : snap.sourceCount ≤ kMaxPoints) :
    List SourcePoint :=
  List.ofFn fun i : Fin snap.sourceCount => snap.sources (i.castLE hcount)

/-- The object of a snapshot. -/
def telemetryObject (snap : TelemetrySnapshot) (hcount : snap.sourceCount ≤ kMaxPoints) : Value :=
  .obj
    [("ts_ns", .num snap.tsNs.toNat), ("generation", .num snap.generation.toNat),
      ("shutdown", .num snap.shutdown.toNat), ("fault", .num snap.fault.toNat),
      ("idle", .num snap.idle.toNat),
      ("ring", .obj
        [("occupied", .num snap.ringOccupied.toNat), ("capacity", .num snap.ringCapacity.toNat)]),
      ("overrun", .obj
        [("fast", .num snap.overrunFast.toNat), ("window", .num snap.overrunWindow.toNat),
          ("snapshot", .num snap.overrunSnapshot.toNat)]),
      ("done", .obj
        [("ingest", .num snap.ingestDone.toNat), ("fast", .num snap.fastDone.toNat),
          ("window", .num snap.windowDone.toNat), ("snapshot", .num snap.snapshotDone.toNat),
          ("compute", .num snap.computeDone.toNat)]),
      ("hb", .obj
        [("ingest", .num snap.hbIngest.toNat), ("compute", .num snap.hbCompute.toNat),
          ("publish", .num snap.hbPublish.toNat), ("fast", .num snap.hbFast.toNat),
          ("window", .num snap.hbWindow.toNat), ("snapshot", .num snap.hbSnapshot.toNat)]),
      ("pids", .obj
        [("ingest", .num snap.ingestPid.toNat), ("compute", .num snap.computePid.toNat),
          ("publish", .num snap.publishPid.toNat), ("observe", .num snap.observePid.toNat)]),
      ("exits", .obj
        [("ingest", .num snap.ingestExit.toNat), ("compute", .num snap.computeExit.toNat),
          ("publish", .num snap.publishExit.toNat)]),
      ("sources", .arr ((sourcePoints snap hcount).map pointObject))]

/-! ## Characters -/

/-- The characters of a text in ASCII. -/
def chars (s : List UInt8) : List Char := s.map fun b => Char.ofNat b.toNat

theorem chars_append (s t : List UInt8) : chars (s ++ t) = chars s ++ chars t := List.map_append

theorem chars_map_byte {s : List Char} (h : ∀ c ∈ s, c.toNat < 128) : chars (s.map byte) = s := by
  rw [chars, List.map_map]
  conv_rhs => rw [← List.map_id s]
  refine List.map_congr_left ?_
  intro c hc
  have hlt := h c hc
  have hbyte : (byte c).toNat = c.toNat := by
    rw [byte, UInt8.toNat_ofNat']
    omega
  rw [Function.comp_apply, hbyte, Char.ofNat_toNat]
  rfl

/-- Every character of a literal is in ASCII. -/
def ascii (s : String) : Bool := s.toList.all fun c => decide (c.toNat < 128)

theorem chars_text {s : String} (h : ascii s = true) : chars (text s) = s.toList := by
  refine chars_map_byte ?_
  intro c hc
  exact of_decide_eq_true (List.all_eq_true.mp h c hc)

theorem chars_decimal (n : Nat) : chars (decimal n) = Nat.toDigits 10 n := by
  refine chars_map_byte ?_
  intro c hc
  have hdigit := Nat.isDigit_of_mem_toDigits (by decide) (by decide) hc
  rw [Char.isDigit, Bool.and_eq_true, decide_eq_true_eq, decide_eq_true_eq] at hdigit
  have hhigh : c.toNat ≤ 57 := UInt32.le_iff_toNat_le.mp hdigit.2
  omega

theorem chars_signed (n : Int) : chars (signed n) = renderInt n := by
  cases n with
  | ofNat n => exact chars_decimal n
  | negSucc n =>
      rw [signed, renderInt, ← chars_decimal]
      rfl

/-- A format, as characters. -/
theorem chars_printed {parts : List (String × Int)} {rest : String}
    (hparts : (parts.map Prod.fst).all ascii = true) (hrest : ascii rest = true) :
    chars (printed parts rest)
      = (parts.flatMap fun part => part.1.toList ++ renderInt part.2) ++ rest.toList := by
  rw [printed, chars_append, chars_text hrest]
  congr 1
  induction parts with
  | nil => rfl
  | cons part parts ih =>
      rw [List.map_cons, List.all_cons, Bool.and_eq_true] at hparts
      rw [List.flatMap_cons, List.flatMap_cons, chars_append, chars_append, chars_text hparts.1,
        chars_signed, ih hparts.2]

theorem chars_pointJson (src : SourcePoint) : chars (pointJson src) = render (pointObject src) := by
  rw [pointJson, chars_printed (by simp only [List.map_cons, List.map_nil]; decide) (by decide)]
  simp only [pointObject, render, renderMembers, quote, List.flatMap_cons, List.flatMap_nil,
    List.append_assoc, List.cons_append, List.nil_append, List.append_nil, String.reduceToList]

/-- The points with their commas, and the end of the array and of the object. -/
theorem chars_points (srcs : List SourcePoint) :
    '[' :: chars ((srcs.mapIdx fun i src =>
        (if i = 0 then text "" else text ",") ++ pointJson src).flatten ++ text "]\x7d")
      = render (.arr (srcs.map pointObject)) ++ ['}'] := by
  have htail : ∀ rest : List SourcePoint,
      chars ((rest.map fun src => text "," ++ pointJson src).flatten ++ text "]\x7d")
        = renderItems (rest.map pointObject) ++ ['}'] := by
    intro rest
    induction rest with
    | nil =>
        simp only [List.map_nil, renderItems]
        decide
    | cons src rest ih =>
        rw [List.map_cons, List.flatten_cons, List.append_assoc, chars_append, ih, chars_append,
          chars_text (by decide), chars_pointJson, List.map_cons, renderItems]
        simp only [String.reduceToList, List.cons_append, List.nil_append, List.append_assoc]
  cases srcs with
  | nil =>
      rw [List.map_nil, render]
      decide
  | cons src rest =>
      have hcommas : (rest.mapIdx fun i src =>
          (if i + 1 = 0 then text "" else text ",") ++ pointJson src)
            = rest.map fun src => text "," ++ pointJson src :=
        List.ext_getElem (by simp) (by simp)
      rw [List.mapIdx_cons, if_pos rfl, hcommas, List.flatten_cons, List.append_assoc, chars_append,
        htail, chars_append, chars_text (by decide), chars_pointJson, List.map_cons, render]
      simp only [String.reduceToList, List.nil_append, List.cons_append, List.append_assoc]

theorem points_eq (snap : TelemetrySnapshot) (hcount : snap.sourceCount ≤ kMaxPoints) :
    points snap = sourcePoints snap hcount := by
  refine List.ext_getElem ?_ ?_
  · simp [points, sourcePoints, hcount]
  · intro i hi hi'
    simp [points, sourcePoints]

set_option maxRecDepth 8000 in
/-- **The text is the object without a blank.** -/
theorem chars_jsonText (snap : TelemetrySnapshot) (hcount : snap.sourceCount ≤ kMaxPoints) :
    chars (jsonText snap) = render (telemetryObject snap hcount) := by
  rw [jsonText, jsonPieces, List.cons_append, List.flatten_cons, List.flatten_append,
    List.flatten_singleton, chars_append, points_eq snap hcount, jsonHead,
    chars_printed (by simp only [List.map_cons, List.map_nil]; decide) (by decide)]
  have hpoints := chars_points (sourcePoints snap hcount)
  simp only [List.flatMap_cons, List.flatMap_nil, List.append_assoc, List.append_nil,
    telemetryObject, render, renderMembers, quote, List.cons_append, List.nil_append]
  simp only [String.reduceToList, List.cons_append, List.nil_append, hpoints]

theorem writable_pointObject (src : SourcePoint) : writable (pointObject src) = true := by
  simp only [pointObject, writable, writableMembers, Bool.and_true]
  decide

theorem distinct_pointObject (src : SourcePoint) : distinct (pointObject src) = true := by
  simp only [pointObject, distinct, distinctMembers, Bool.and_true, List.map_cons, List.map_nil]
  decide

theorem writable_telemetryObject (snap : TelemetrySnapshot)
    (hcount : snap.sourceCount ≤ kMaxPoints) : writable (telemetryObject snap hcount) = true := by
  have hpoints : writableItems ((sourcePoints snap hcount).map pointObject) = true := by
    refine writableItems_of_forall (List.forall_mem_map.mpr ?_)
    exact fun src _ => writable_pointObject src
  simp only [telemetryObject, writable, writableMembers, hpoints, Bool.and_true]
  decide

theorem distinct_telemetryObject (snap : TelemetrySnapshot)
    (hcount : snap.sourceCount ≤ kMaxPoints) : distinct (telemetryObject snap hcount) = true := by
  have hpoints : distinctItems ((sourcePoints snap hcount).map pointObject) = true := by
    refine distinctItems_of_forall (List.forall_mem_map.mpr ?_)
    exact fun src _ => distinct_pointObject src
  simp only [telemetryObject, distinct, distinctMembers, hpoints, Bool.and_true, List.map_cons,
    List.map_nil]
  decide

/--
**The telemetry text is faithful.**

For every snapshot with at most `kMaxPoints` points, whatever was in the buffer, and every
`cap` beyond the text: what is in the buffer is one JSON text without control characters,
and read as JSON it is the object of the snapshot, in which no name occurs twice.
-/
theorem telemetry_faithful (snap : TelemetrySnapshot) (hcount : snap.sourceCount ≤ kMaxPoints)
    (out : List UInt8) (cap : Nat) (hcap : (jsonText snap).length < cap) :
    parse (chars ((formatTelemetryJson snap out cap).1.take (formatTelemetryJson snap out cap).2))
        = some (telemetryObject snap hcount)
      ∧ distinct (telemetryObject snap hcount) = true
      ∧ Printable ((formatTelemetryJson snap out cap).1.take (formatTelemetryJson snap out cap).2) := by
  obtain ⟨hlen, htake⟩ := (formatTelemetryJson_spec snap out cap).1 hcap
  rw [hlen, htake]
  refine ⟨?_, distinct_telemetryObject snap hcount, printable_jsonText snap⟩
  rw [chars_jsonText snap hcount]
  exact parse_render (writable_telemetryObject snap hcount)

/-- Two sources, one of them at a negative place. -/
def twoPoints : TelemetrySnapshot :=
  { tsNs := 7, ringCapacity := 255, sourceCount := 2
    sources := fun i => { id := UInt32.ofNat i.val, x := -100, publishes := 4294967295 } }

/-- The text of two sources is read back. -/
theorem telemetry_faithful_two :
    twoPoints.sourceCount ≤ kMaxPoints ∧ (jsonText twoPoints).length < 4096
      ∧ ∃ v, parse (chars ((formatTelemetryJson twoPoints [] 4096).1.take
          (formatTelemetryJson twoPoints [] 4096).2)) = some v := by
  have hlt := length_jsonText_lt twoPoints
  exact ⟨by decide, hlt, _, (telemetry_faithful twoPoints (by decide) [] 4096 hlt).1⟩

end RateHub.Http
