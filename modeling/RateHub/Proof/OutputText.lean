import RateHub.Lib.Table
import RateHub.Process.Publish
import RateHub.Proof.Replayed

/-!
# What the output file says

The file is a line with the generation and a table of integers, one line for each source
whose count of published states is not zero. `readOutput` reads it back. Read back, the file
that `expected` makes of a list of records gives for each source a sum over the records of
that source which `integrate` accepted.
-/

namespace RateHub

/-! ## Reading the file -/

/-- The generation and the lines below it. -/
def readOutput (text : String) : Option (Int × List (List Int)) :=
  if text.toList.take 11 = "generation ".toList then
    match Table.read (text.toList.drop 11) with
    | some ([generation] :: rows) => some (generation, rows)
    | _ => none
  else none

/-- The line of a source, as numbers. -/
def WindowState.cells (id : Fin kMaxSources) (row : WindowState) : List Int :=
  [id.val, row.posX.toInt, row.posY.toInt, row.publishes.toNat]

/-- What the file shows of a snapshot's rows. -/
def Snapshot.shown (snap : Snapshot) : List (List Int) :=
  (List.finRange kMaxSources).filterMap fun id =>
    if (snap.rows id).publishes = 0 then none else some ((snap.rows id).cells id)

theorem renderInt_nat (n : Nat) : Json.renderInt n = Nat.toDigits 10 n := rfl

theorem toList_word (x : UInt32) : (toString x).toList = Json.renderInt x.toNat := by
  simp [toString, Json.renderInt]

theorem toList_int (x : Int32) : (toString x).toList = Json.renderInt x.toInt := by
  show (Int.repr x.toInt).toList = _
  cases x.toInt with
  | ofNat n => simp [Int.repr, Json.renderInt]
  | negSucc n => simp [Int.repr, Json.renderInt]

/-- One line of the file. -/
theorem line_toList (id : Fin kMaxSources) (row : WindowState) :
    (row.line id).toList
      = if row.publishes = 0 then [] else Table.line (row.cells id) ++ ['\n'] := by
  unfold WindowState.line
  split
  · rfl
  · simp [String.toList_append, renderInt_nat, toList_word, toList_int, Table.line,
      WindowState.cells, List.append_assoc]

/-- The lines below the generation. -/
theorem rows_toList (snap : Snapshot) (ids : List (Fin kMaxSources)) :
    (String.join (ids.map fun id => (snap.rows id).line id)).toList
      = Table.text (ids.filterMap fun id =>
          if (snap.rows id).publishes = 0 then none else some ((snap.rows id).cells id)) := by
  rw [String.toList_join]
  induction ids with
  | nil => rfl
  | cons id ids ih =>
      rw [List.map_cons, List.flatMap_cons, ih, line_toList, List.filterMap_cons]
      by_cases hz : (snap.rows id).publishes = 0
      · simp [hz]
      · simp [hz, Table.text]

/-- **The file, as characters.** -/
theorem render_toList (snap : Snapshot) :
    snap.render.toList
      = "generation ".toList ++ Table.text ([(snap.generation.toNat : Int)] :: snap.shown) := by
  unfold Snapshot.render
  rw [String.toList_append, String.toList_append, String.toList_append, rows_toList, toList_word]
  simp [Table.text, Table.line, Snapshot.shown, List.append_assoc]

/-- The file is read back as what the snapshot shows. -/
theorem readOutput_render (snap : Snapshot) :
    readOutput snap.render = some ((snap.generation.toNat : Int), snap.shown) := by
  have hrows : ∀ row ∈ [(snap.generation.toNat : Int)] :: snap.shown, row ≠ [] := by
    intro row hrow
    rcases List.mem_cons.mp hrow with rfl | hrow
    · simp
    · obtain ⟨id, _, hid⟩ := List.mem_filterMap.mp hrow
      split at hid
      · cases hid
      · obtain rfl := Option.some.inj hid
        simp [WindowState.cells]
  have hlen : "generation ".toList.length = 11 := by decide
  unfold readOutput
  rw [render_toList, List.take_left' hlen, if_pos rfl, List.drop_left' hlen,
    Table.read_text hrows]

/-! ## What it says of the records -/

/-- The records of a source that `integrate` accepts. -/
def acceptedOf (records : List Record) (id : Fin kMaxSources) : List Record :=
  (FleetRun.accepted kFastPeriodNs .init records).filter
    fun r => decide (r.sourceId = UInt32.ofNat id.val)

/-- The line of a source: where its first accepted record stood, moved by every accepted one,
and the number of those. -/
def account (records : List Record) (id : Fin kMaxSources) : Option (List Int) :=
  if (acceptedOf records id).length % 2 ^ 32 = 0 then none
  else (acceptedOf records id).head?.map fun first =>
    [id.val, first.posX.toInt + travelled Record.velX kFastPeriodNs (acceptedOf records id),
      first.posY.toInt + travelled Record.velY kFastPeriodNs (acceptedOf records id),
      ((acceptedOf records id).length % 2 ^ 32 : Nat)]

theorem closedForm_replayed (records : List Record) (id : Fin kMaxSources) :
    ClosedForm kFastPeriodNs ((replayed records).row id) (acceptedOf records id) := by
  have hdt : 0 ≤ kFastPeriodNs.toInt := by decide
  unfold acceptedOf replayed
  rw [← FleetRun.row_of_table, FleetRun.foldl_table _ _ hdt, Keyed.foldl_move, FleetRun.init_table,
    FleetRun.accepted_eq _ _ hdt, Keyed.filter_tableAccepted, FleetRun.init_table]
  refine Keyed.accepted_induction (closedForm_nil kFastPeriodNs) ?_ _
  intro row row' r before h hs
  exact h.step hdt hs

/--
**What the output file says.**

For every list of records and every attempt number: the file made of `expected` reads back as
the attempt number modulo `2^32` and, in the order of the ids, one line for each source whose
accepted records do not number a multiple of `2^32`. The line holds the id, the position of
the source's first accepted record moved on each axis by `vel * dt_ns / 10^9`, truncated
toward zero, for every accepted one, and their number modulo `2^32`. Nothing is shown of any
other source.
-/
theorem output_says_account (n : Nat) (records : List Record) :
    readOutput (expected n records).render
      = some (((n % 2 ^ 32 : Nat) : Int), (List.finRange kMaxSources).filterMap (account records)) := by
  rw [readOutput_render]
  have hgen : (expected n records).generation.toNat = n % 2 ^ 32 := UInt32.toNat_ofNat
  rw [hgen]
  congr 2
  unfold Snapshot.shown
  congr 1
  funext id
  have hform := closedForm_replayed records id
  have hpub : ((expected n records).rows id).publishes.toNat
      = (acceptedOf records id).length % 2 ^ 32 := hform.publishes
  have hzero : ((expected n records).rows id).publishes = 0
      ↔ (acceptedOf records id).length % 2 ^ 32 = 0 := by
    rw [← hpub, ← UInt32.toNat_inj]
    rfl
  unfold account
  by_cases hz : (acceptedOf records id).length % 2 ^ 32 = 0
  · rw [if_pos hz, if_pos (hzero.mpr hz)]
  · rw [if_neg hz, if_neg fun h => hz (hzero.mp h)]
    cases hhead : (acceptedOf records id).head? with
    | none =>
        rw [List.head?_eq_none_iff] at hhead
        rw [hhead] at hz
        exact absurd rfl hz
    | some first =>
        have hx : ((expected n records).rows id).posX.toInt = _ := hform.posX first hhead
        have hy : ((expected n records).rows id).posY.toInt = _ := hform.posY first hhead
        simp only [WindowState.cells, hpub, hx, hy, Option.map_some]

example : readOutput "generation 2\n1 1010 0 1\n63 -5 7 4294967295\n"
    = some (2, [[1, 1010, 0, 1], [63, -5, 7, 4294967295]]) := by decide +kernel

end RateHub
