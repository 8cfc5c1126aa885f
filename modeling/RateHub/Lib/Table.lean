import RateHub.Lib.Json

/-!
# Tables of integers as text

One row a line, the cells of a row separated by one space, every line ended by a newline.
`read` reads such a text back, and what it reads is what was written.
-/

namespace Table

/-- An optional sign and digits, and nothing else. -/
def cell : List Char → Option Int
  | '-' :: digits =>
      match Json.number digits with
      | some (n, []) => some (-(n : Int))
      | _ => none
  | digits =>
      match Json.number digits with
      | some (n, []) => some n
      | _ => none

/-- The text of a row. -/
def line (cells : List Int) : List Char := [' '].intercalate (cells.map Json.renderInt)

/-- A row, read. -/
def readLine (s : List Char) : Option (List Int) := (s.splitOn ' ').mapM cell

/-- The text of a table. -/
def text (rows : List (List Int)) : List Char := rows.flatMap fun row => line row ++ ['\n']

/-- A table, read. Nothing may follow the last newline. -/
def read (s : List Char) : Option (List (List Int)) :=
  if (s.splitOn '\n').getLast? = some [] then (s.splitOn '\n').dropLast.mapM readLine else none

/-! ## Cells -/

theorem mem_renderInt {n : Int} {c : Char} (h : c ∈ Json.renderInt n) :
    c = '-' ∨ c.isDigit = true := by
  cases n with
  | ofNat n => exact Or.inr (Nat.isDigit_of_mem_toDigits (by decide) (by decide) h)
  | negSucc n =>
      rcases List.mem_cons.mp h with rfl | hc
      · exact Or.inl rfl
      · exact Or.inr (Nat.isDigit_of_mem_toDigits (by decide) (by decide) hc)

theorem space_notMem (n : Int) : ' ' ∉ Json.renderInt n := by
  intro h
  rcases mem_renderInt h with h | h <;> exact absurd h (by decide)

theorem newline_notMem (n : Int) : '\n' ∉ Json.renderInt n := by
  intro h
  rcases mem_renderInt h with h | h <;> exact absurd h (by decide)

theorem number_digits (n : Nat) : Json.number (Nat.toDigits 10 n) = some (n, []) := by
  have hend : ∀ c, ([] : List Char).head? = some c → c.isDigit = false := by simp
  have h := Json.number_toDigits n hend
  rwa [List.append_nil] at h

theorem cell_renderInt (n : Int) : cell (Json.renderInt n) = some n := by
  cases n with
  | negSucc n =>
      simp only [Json.renderInt, cell, number_digits]
      rfl
  | ofNat n =>
      simp only [Json.renderInt]
      unfold cell
      split
      · -- digits do not start with a sign
        rename_i digits hsign
        have hd : '-'.isDigit = true := Nat.isDigit_of_mem_toDigits (b := 10) (n := n) (by decide)
          (by decide) (by rw [hsign]; exact List.mem_cons_self ..)
        exact absurd hd (by decide)
      · rw [number_digits]
        rfl

/-! ## Rows -/

theorem newline_notMem_line (cells : List Int) : '\n' ∉ line cells := by
  induction cells with
  | nil => simp [line]
  | cons n cells ih =>
      cases cells with
      | nil => simpa [line] using newline_notMem n
      | cons m cells =>
          simp only [line, List.map_cons, List.intercalate_cons_cons] at ih ⊢
          intro h
          rcases List.mem_append.mp h with h | h
          · rcases List.mem_append.mp h with h | h
            · exact newline_notMem n h
            · exact absurd h (by decide)
          · exact ih h

theorem mapM_map {α β : Type} {f : α → β} {g : β → Option α} (hg : ∀ a, g (f a) = some a)
    (l : List α) : (l.map f).mapM g = some l := by
  induction l with
  | nil => rfl
  | cons a l ih =>
      rw [List.map_cons, List.mapM_cons, hg, ih]
      rfl

theorem readLine_line {cells : List Int} (h : cells ≠ []) : readLine (line cells) = some cells := by
  have hsplit : (line cells).splitOn ' ' = cells.map Json.renderInt := by
    refine List.splitOn_intercalate ' ' ?_ (by simpa using h)
    intro l hl
    obtain ⟨n, _, rfl⟩ := List.mem_map.mp hl
    exact space_notMem n
  rw [readLine, hsplit]
  exact mapM_map cell_renderInt cells

/-! ## Tables -/

theorem splitOn_text (rows : List (List Int)) :
    (text rows).splitOn '\n' = rows.map line ++ [[]] := by
  induction rows with
  | nil => rfl
  | cons row rows ih =>
      have hcons : text (row :: rows) = line row ++ '\n' :: text rows := by
        simp [text]
      rw [hcons, List.splitOn_append_cons_self_of_not_mem (newline_notMem_line row), ih]
      rfl

/-- **What is read is what was written.** -/
theorem read_text {rows : List (List Int)} (h : ∀ row ∈ rows, row ≠ []) :
    read (text rows) = some rows := by
  rw [read, splitOn_text, List.getLast?_concat, if_pos rfl, List.dropLast_concat]
  induction rows with
  | nil => rfl
  | cons row rows ih =>
      rw [List.map_cons, List.mapM_cons, readLine_line (h row (List.mem_cons_self ..)),
        ih fun r hr => h r (List.mem_cons_of_mem row hr)]
      rfl

end Table
