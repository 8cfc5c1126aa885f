import Mathlib.Data.List.TakeWhile
import RateHub.MakeReplay
import RateHub.Proof.FrameCodec
import RateHub.Proof.IngestRefines

/-!
# What the writer writes is what ingest reads

`replayRecords` cuts a file into frames of 38 bytes and keeps the records of the good ones.
Frames are not delimited, so all depends on where a frame begins: as long as whole frames
precede it, a frame is read by itself, whatever the frames around it hold.
-/

namespace RateHub

/-- A file of whole frames and what follows it are read one after the other. -/
theorem cutFrames_append (n : Nat) : ∀ {bytes : List UInt8} (more : List UInt8),
    bytes.length = kFrameBytes * n →
      cutFrames (bytes ++ more) = cutFrames bytes ++ cutFrames more := by
  induction n with
  | zero =>
      intro bytes more hlen
      obtain rfl := List.eq_nil_of_length_eq_zero hlen
      rfl
  | succ n ih =>
      intro bytes more hlen
      rw [Nat.mul_succ] at hlen
      have hge : kFrameBytes ≤ bytes.length := by omega
      have hboth : ¬ (bytes ++ more).length < kFrameBytes := by rw [List.length_append]; omega
      have hfirst : ¬ bytes.length < kFrameBytes := Nat.not_lt.mpr hge
      rw [cutFrames_cons hboth, cutFrames_cons hfirst,
        List.take_append_of_le_length hge, List.drop_append_of_le_length hge,
        ih more (by rw [List.length_drop]; omega), List.cons_append]

theorem replayRecords_append {n : Nat} {bytes : List UInt8} (more : List UInt8)
    (h : bytes.length = kFrameBytes * n) :
    replayRecords (bytes ++ more) = replayRecords bytes ++ replayRecords more := by
  unfold replayRecords
  rw [cutFrames_append n more h, List.filterMap_append]

/-- One frame. -/
theorem replayRecords_frame {bytes : List UInt8} (h : bytes.length = kFrameBytes) :
    replayRecords bytes = (goodRecord bytes).toList := by
  have hshort : cutFrames (bytes.drop kFrameBytes) = [] :=
    cutFrames_short (by rw [List.length_drop, h]; decide)
  unfold replayRecords
  rw [cutFrames_cons (by omega), hshort, List.take_of_length_le (by omega)]
  cases hgood : goodRecord bytes with
  | none => simp [hgood]
  | some record => simp [hgood]

/-- A record's own frame. -/
theorem goodRecord_frameBytes (record : Record) (h : record.sourceId.toNat < kMaxSources) :
    goodRecord (frameBytes record) = some record := by
  have hdec := decodeFrame_frameBytes record [] {} h
  rw [List.append_nil] at hdec
  simp [goodRecord, hdec]

/-! ## The writer -/

/-- The frames of a list of records. -/
def framesBytes (records : List Record) : List UInt8 := records.flatMap frameBytes

theorem framesBytes_length (records : List Record) :
    (framesBytes records).length = kFrameBytes * records.length := by
  induction records with
  | nil => rfl
  | cons record records ih =>
      rw [framesBytes, List.flatMap_cons, List.length_append, frameBytes_length, List.length_cons]
      unfold framesBytes at ih
      rw [ih, Nat.mul_succ]
      omega

theorem replayRecords_framesBytes {records : List Record}
    (h : ∀ r ∈ records, r.sourceId.toNat < kMaxSources) :
    replayRecords (framesBytes records) = records := by
  induction records with
  | nil => rfl
  | cons record records ih =>
      have hhead := h record (List.mem_cons_self ..)
      rw [framesBytes, List.flatMap_cons,
        replayRecords_append (n := 1) _ (frameBytes_length record),
        replayRecords_frame (frameBytes_length record), goodRecord_frameBytes record hhead]
      unfold framesBytes at ih
      rw [ih fun r hr => h r (List.mem_cons_of_mem record hr)]
      rfl

/-- The record can be encoded. -/
def Record.encodable (record : Record) : Bool := decide (record.sourceId.toNat < kMaxSources)

/-- **The writing loop**: the frames up to the first record that cannot be encoded. -/
theorem writeFrames_eq (junk : Nat → Vector UInt8 kFrameBytes) (records : List Record) :
    ∀ out, writeFrames junk records out
      = (records.all Record.encodable, out ++ framesBytes (records.takeWhile Record.encodable)) := by
  induction records with
  | nil => intro out; simp [writeFrames, framesBytes]
  | cons record records ih =>
      intro out
      unfold writeFrames
      by_cases hid : record.sourceId.toNat < kMaxSources
      · obtain ⟨hok, hbytes⟩ := encodeFrame_bytes record (junk out.length) hid
        have hyes : record.encodable = true := by simpa [Record.encodable] using hid
        have hpair : encodeFrame record (junk out.length)
            = (true, (encodeFrame record (junk out.length)).2) := by rw [← hok]
        rw [hpair]
        simp only
        rw [ih, hbytes, List.all_cons, hyes, List.takeWhile_cons_of_pos hyes]
        simp [framesBytes, List.append_assoc]
      · have hno : record.encodable = false := by simpa [Record.encodable] using hid
        rw [encodeFrame_refused record _ (not_lt.mp hid)]
        simp [hno, framesBytes]

theorem mem_takeWhile_encodable {records : List Record} {r : Record}
    (h : r ∈ records.takeWhile Record.encodable) : r.sourceId.toNat < kMaxSources := by
  have := List.mem_takeWhile_imp h
  simpa [Record.encodable] using this

/-- Records that can all be encoded. -/
theorem writeFrames_encodable (junk : Nat → Vector UInt8 kFrameBytes) {records : List Record}
    (h : ∀ r ∈ records, r.sourceId.toNat < kMaxSources) :
    writeFrames junk records [] = (true, framesBytes records) := by
  have hall : ∀ r ∈ records, r.encodable = true := by
    intro r hr
    simpa [Record.encodable] using h r hr
  rw [writeFrames_eq, List.all_eq_true.mpr hall, List.takeWhile_eq_self_iff.mpr hall,
    List.nil_append]

/--
**The replay file round trip.**

For every list of records and whatever the writer's buffers held: the file is read back as the
records up to the first whose source id is not below 64, a torn last frame changes nothing,
and the writer reports success exactly when there is no such record. And a damaged frame
costs that frame and no other: whatever 38 bytes stand in its place, the records before and
after it are read as they were written.
-/
theorem replay_file_round_trip (junk : Nat → Vector UInt8 kFrameBytes) (records : List Record) :
    ((writeFrames junk records []).1 = true ↔ ∀ r ∈ records, r.sourceId.toNat < kMaxSources)
      ∧ (∀ torn : List UInt8, torn.length < kFrameBytes →
          replayRecords ((writeFrames junk records []).2 ++ torn)
            = records.takeWhile Record.encodable)
      ∧ ∀ (before after : List Record) (was : Record) (frame : List UInt8),
          records = before ++ was :: after → (writeFrames junk records []).1 = true →
          frame.length = kFrameBytes →
          replayRecords ((writeFrames junk before []).2 ++ frame ++ (writeFrames junk after []).2)
            = before ++ (goodRecord frame).toList ++ after := by
  refine ⟨?_, ?_, ?_⟩
  · rw [writeFrames_eq]
    simp [Record.encodable]
  · intro torn htorn
    rw [writeFrames_eq, List.nil_append, replayRecords_append _ (framesBytes_length _),
      replayRecords_framesBytes fun r hr => mem_takeWhile_encodable hr]
    unfold replayRecords
    rw [cutFrames_short htorn, List.filterMap_nil, List.append_nil]
  · intro before after was frame hrecords hok hframe
    rw [writeFrames_eq] at hok
    simp only [hrecords, List.all_append, List.all_cons, Bool.and_eq_true] at hok
    obtain ⟨hbefore, _, hafter⟩ := hok
    have hin : ∀ {rs : List Record}, rs.all Record.encodable = true →
        ∀ r ∈ rs, r.sourceId.toNat < kMaxSources := by
      intro rs hall r hr
      simpa [Record.encodable] using List.all_eq_true.mp hall r hr
    rw [writeFrames_encodable junk (hin hbefore), writeFrames_encodable junk (hin hafter),
      List.append_assoc, replayRecords_append _ (framesBytes_length before),
      replayRecords_append (n := 1) _ hframe, replayRecords_frame hframe,
      replayRecords_framesBytes (hin hbefore), replayRecords_framesBytes (hin hafter),
      List.append_assoc]

/-- One damaged byte in the second of three frames: the two others are read. -/
theorem replay_file_round_trip_damaged :
    replayRecords ((writeFrames (fun _ => Vector.replicate _ 0) [{ sourceId := 5 }] []).2
        ++ (frameBytes { sourceId := 6 }).set 7 1
        ++ (writeFrames (fun _ => Vector.replicate _ 0) [{ sourceId := 7 }] []).2)
      = [{ sourceId := 5 }, { sourceId := 7 }] := by
  have h := (replay_file_round_trip (fun _ => Vector.replicate _ 0)
    [{ sourceId := 5 }, { sourceId := 6 }, { sourceId := 7 }]).2.2 [{ sourceId := 5 }]
    [{ sourceId := 7 }] { sourceId := 6 } ((frameBytes { sourceId := 6 }).set 7 1) rfl
    ((replay_file_round_trip _ _).1.mpr (by decide))
    (by rw [List.length_set, frameBytes_length])
  have hbad : goodRecord ((frameBytes { sourceId := 6 }).set 7 1) = none := by decide +kernel
  rw [hbad] at h
  exact h

/-! ## The tool -/

theorem demoRecords_encodable : ∀ r ∈ demoRecords, r.sourceId.toNat < kMaxSources := by
  intro r hr
  simp only [demoRecords, List.mem_flatMap, List.mem_map, List.mem_range] at hr
  obtain ⟨k, _, id, hid, rfl⟩ := hr
  have hlt : id < 8 := hid
  show (UInt32.ofNat id).toNat < 64
  rw [UInt32.toNat_ofNat_of_lt' (Nat.lt_trans hlt (by decide))]
  omega

/-- Whatever the command line, a file that can be opened gets the records it asks for. -/
theorem makeReplay_records (refusal : String → Option String)
    (junk : Nat → Vector UInt8 kFrameBytes) (args : List String)
    (h : refusal (replayArgs args).1 = none) :
    (makeReplay refusal junk args).code = 0
      ∧ replayRecords (makeReplay refusal junk args).bytes
        = if (replayArgs args).2 then demoRecords else plainRecords := by
  have hplain : ∀ r ∈ plainRecords, r.sourceId.toNat < kMaxSources := by decide
  unfold makeReplay
  cases hdemo : (replayArgs args).2 with
  | true =>
      simp only [h, hdemo, if_true, writeFrames_encodable junk demoRecords_encodable]
      exact ⟨trivial, replayRecords_framesBytes demoRecords_encodable⟩
  | false =>
      simp only [h, hdemo, Bool.false_eq_true, if_false, writeFrames_encodable junk hplain]
      exact ⟨trivial, replayRecords_framesBytes hplain⟩

end RateHub
