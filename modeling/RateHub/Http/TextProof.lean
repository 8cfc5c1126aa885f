import Mathlib.Data.List.TakeWhile
import RateHub.Http.Text

/-!
# The telemetry text in its buffer

The text is the concatenation of what the calls of `put` are given, and it is made of
printable characters only: no NUL would end it early and no line feed would break the line
of an event. When it is shorter than the buffer, `formatTelemetryJson` returns its length
and leaves it at the start of the buffer; otherwise it returns 0. In neither case does it
write outside the buffer, and every text is shorter than the buffer of `observe`.

The lemmas on `cstr` are about any memory: the string is what stands before the first NUL.
-/

namespace RateHub.Http

/-- The whole text of a snapshot. -/
def jsonText (snap : TelemetrySnapshot) : List UInt8 := (jsonPieces snap).flatten

/-! ## Printable characters -/

/-- No control character, and nothing beyond ASCII. -/
def Printable (s : List UInt8) : Prop := ∀ b ∈ s, 32 ≤ b ∧ b < 127

instance (s : List UInt8) : Decidable (Printable s) :=
  List.decidableBAll (fun b => 32 ≤ b ∧ b < 127) s

theorem Printable.append {s t : List UInt8} (hs : Printable s) (ht : Printable t) :
    Printable (s ++ t) := by
  intro b hb
  rcases List.mem_append.mp hb with h | h
  · exact hs b h
  · exact ht b h

theorem printable_flatten {l : List (List UInt8)} (h : ∀ s ∈ l, Printable s) :
    Printable l.flatten := by
  intro b hb
  obtain ⟨s, hs, hmem⟩ := List.mem_flatten.mp hb
  exact h s hs b hmem

theorem printable_decimal (n : Nat) : Printable (decimal n) := by
  intro b hb
  obtain ⟨c, hc, rfl⟩ := List.mem_map.mp hb
  have hdigit := Nat.isDigit_of_mem_toDigits (by decide) (by decide) hc
  rw [Char.isDigit, Bool.and_eq_true, decide_eq_true_eq, decide_eq_true_eq] at hdigit
  have hlow : 48 ≤ c.toNat := UInt32.le_iff_toNat_le.mp hdigit.1
  have hhigh : c.toNat ≤ 57 := UInt32.le_iff_toNat_le.mp hdigit.2
  have hbyte : (byte c).toNat = c.toNat := by
    rw [byte, UInt8.toNat_ofNat']
    omega
  rw [UInt8.le_iff_toNat_le, UInt8.lt_iff_toNat_lt, hbyte]
  exact ⟨by show 32 ≤ c.toNat; omega, by show c.toNat < 127; omega⟩

theorem printable_signed : ∀ i : Int, Printable (signed i)
  | .ofNat n => printable_decimal n
  | .negSucc n => by
      intro b hb
      rcases List.mem_cons.mp hb with rfl | hmem
      · decide
      · exact printable_decimal _ b hmem

theorem printable_printed {parts : List (String × Int)} {rest : String}
    (hparts : ∀ s ∈ parts.map Prod.fst, Printable (text s)) (hrest : Printable (text rest)) :
    Printable (printed parts rest) := by
  refine Printable.append ?_ hrest
  intro b hb
  obtain ⟨part, hpart, hmem⟩ := List.mem_flatMap.mp hb
  exact (hparts _ (List.mem_map_of_mem hpart)).append (printable_signed _) b hmem

theorem printable_jsonHead (snap : TelemetrySnapshot) : Printable (jsonHead snap) := by
  refine printable_printed ?_ (by decide)
  simp only [List.map_cons, List.map_nil]
  decide

theorem printable_pointJson (src : SourcePoint) : Printable (pointJson src) := by
  refine printable_printed ?_ (by decide)
  simp only [List.map_cons, List.map_nil]
  decide

/-- **The text has no control characters.** -/
theorem printable_jsonText (snap : TelemetrySnapshot) : Printable (jsonText snap) := by
  refine printable_flatten ?_
  intro s hs
  rw [jsonPieces, List.cons_append, List.mem_cons, List.mem_append, List.mem_singleton] at hs
  rcases hs with rfl | hpoint | rfl
  · exact printable_jsonHead snap
  · obtain ⟨i, hi, rfl⟩ := List.mem_mapIdx.mp hpoint
    refine Printable.append ?_ (printable_pointJson _)
    split <;> decide
  · decide

theorem zero_notMem_of_printable {s : List UInt8} (hs : Printable s) : 0 ∉ s := by
  intro hmem
  exact absurd (hs 0 hmem).1 (by decide)

/-! ## C strings -/

theorem cstr_append {s : List UInt8} (hs : 0 ∉ s) (t : List UInt8) :
    cstr (s ++ t) = s ++ cstr t := by
  refine List.takeWhile_append_of_pos ?_
  intro b hb
  rw [bne_iff_ne]
  rintro rfl
  exact hs hb

/-- A text without a NUL is a C string to its end. -/
theorem cstr_self {s : List UInt8} (hs : 0 ∉ s) : cstr s = s := by
  simpa [cstr] using cstr_append hs []

/-- The string ends at its first NUL. -/
theorem cstr_nul {s : List UInt8} (hs : 0 ∉ s) (rest : List UInt8) : cstr (s ++ 0 :: rest) = s := by
  have hnil : cstr (0 :: rest) = [] := List.takeWhile_cons_of_neg (by decide)
  rw [cstr_append hs, hnil, List.append_nil]

/-- What follows a NUL does not count. -/
theorem cstr_append_nul (s rest : List UInt8) : cstr (s ++ 0 :: rest) = cstr s := by
  by_cases hnul : 0 ∈ s
  · obtain ⟨t, u, rfl, ht⟩ := List.eq_append_cons_of_mem hnul
    rw [List.append_assoc, List.cons_append, cstr_nul ht, cstr_nul ht]
  · rw [cstr_nul hnul, cstr_self hnul]

/-- A buffer with a NUL in it is its string, the NUL and the rest. -/
theorem exists_cstr {mem : List UInt8} (hnul : 0 ∈ mem) :
    ∃ rest, mem = cstr mem ++ 0 :: rest ∧ 0 ∉ cstr mem := by
  obtain ⟨s, rest, rfl, hs⟩ := List.eq_append_cons_of_mem hnul
  rw [cstr_nul hs]
  exact ⟨rest, rfl, hs⟩

theorem zero_notMem_cstr (mem : List UInt8) : 0 ∉ cstr mem := by
  intro hmem
  exact absurd (List.mem_takeWhile_imp hmem) (by decide)

/-! ## Into the buffer -/

/-- A text shorter than the buffer is in it. -/
theorem snprintf_fits {mem s : List UInt8} {cap : Nat} (hlt : s.length < cap)
    (hint : s.length < 2 ^ 31) :
    (snprintf mem cap s).2 = s.length ∧ (snprintf mem cap s).1.take s.length = s
      ∧ s.length < (snprintf mem cap s).1.length := by
  have hcap : cap ≠ 0 := by omega
  have htake : s.take (cap - 1) = s := List.take_of_length_le (by omega)
  refine ⟨if_pos hint, ?_⟩
  simp only [snprintf, if_neg hcap, htake]
  refine ⟨List.take_left, ?_⟩
  simp only [List.length_append, List.length_cons]
  omega

/-- `put` of a text that fits appends it to what is in the buffer. -/
theorem put_fits {out s : List UInt8} {cap p : Nat} (hint : s.length < 2 ^ 31)
    (hp : p ≤ out.length) (hlt : p + s.length < cap) :
    ∃ out', put out cap p s = (out', some (p + s.length))
      ∧ out'.take (p + s.length) = out.take p ++ s ∧ p + s.length ≤ out'.length := by
  obtain ⟨hn, htake, hlen⟩ :=
    @snprintf_fits (out.drop p) s (cap - p) (by omega) hint
  have htaken : (out.take p).length = p := List.length_take_of_le hp
  refine ⟨out.take p ++ (snprintf (out.drop p) (cap - p) s).1, ?_, ?_, ?_⟩
  · rw [put, if_neg (by omega)]
    simp only [hn]
    rw [if_neg (by omega), Int.toNat_natCast]
  · rw [List.take_append, htaken, Nat.add_sub_cancel_left, htake,
      List.take_of_length_le (by omega)]
  · rw [List.length_append, htaken]
    omega

/-- What `snprintf` returns is negative, or at least the length of the text. -/
theorem snprintf_ret (mem s : List UInt8) (cap : Nat) :
    (snprintf mem cap s).2 < 0 ∨ (snprintf mem cap s).2 = s.length := by
  by_cases hint : s.length < 2 ^ 31
  · exact .inr (if_pos hint)
  · left
    rw [show (snprintf mem cap s).2 = -1 from if_neg hint]
    decide

/-- `put` of a text that does not fit fails. -/
theorem put_full {out s : List UInt8} {cap p : Nat} (hlt : cap ≤ p + s.length) :
    (put out cap p s).2 = none := by
  rw [put]
  split
  · rfl
  · have hfail : (snprintf (out.drop p) (cap - p) s).2 < 0
        ∨ (cap : Int) ≤ p + (snprintf (out.drop p) (cap - p) s).2 := by
      rcases snprintf_ret (out.drop p) s (cap - p) with hneg | hlen
      · exact .inl hneg
      · right
        omega
    simp only [if_pos hfail]

theorem putAll_fits {cap : Nat} :
    ∀ (pieces : List (List UInt8)) (out : List UInt8) (p : Nat), pieces.flatten.length < 2 ^ 31 →
      p ≤ out.length → p + pieces.flatten.length < cap →
      ∃ out', putAll cap pieces out p = (out', some (p + pieces.flatten.length))
        ∧ out'.take (p + pieces.flatten.length) = out.take p ++ pieces.flatten := by
  intro pieces
  induction pieces with
  | nil =>
      intro out p _ _ _
      exact ⟨out, by simp [putAll], by simp⟩
  | cons s rest ih =>
      intro out p hint hp hlt
      rw [List.flatten_cons, List.length_append] at hint
      rw [List.flatten_cons, List.length_append, ← Nat.add_assoc] at hlt ⊢
      have hfirst : p + s.length < cap := by omega
      obtain ⟨out₁, hput, htake, hlen⟩ := put_fits (by omega) hp hfirst
      obtain ⟨out₂, hall, htake₂⟩ := ih out₁ _ (by omega) hlen hlt
      refine ⟨out₂, ?_, ?_⟩
      · rw [putAll, hput]
        exact hall
      · rw [htake₂, htake, List.append_assoc]

theorem putAll_full {cap : Nat} :
    ∀ (pieces : List (List UInt8)) (out : List UInt8) (p : Nat), pieces.flatten.length < 2 ^ 31 →
      p ≤ out.length → p < cap → cap ≤ p + pieces.flatten.length →
      (putAll cap pieces out p).2 = none := by
  intro pieces
  induction pieces with
  | nil =>
      intro out p _ _ hp hle
      simp only [List.flatten_nil, List.length_nil] at hle
      omega
  | cons s rest ih =>
      intro out p hint hp hpc hle
      rw [List.flatten_cons, List.length_append] at hint
      rw [List.flatten_cons, List.length_append, ← Nat.add_assoc] at hle
      by_cases hlt : p + s.length < cap
      · obtain ⟨out₁, hput, -, hlen⟩ := put_fits (by omega) hp hlt
        rw [putAll, hput]
        exact ih out₁ _ (by omega) hlen hlt hle
      · have hnone := @put_full out s cap p (Nat.le_of_not_lt hlt)
        rw [putAll]
        split
        · rename_i heq
          rw [heq] at hnone
          exact absurd hnone (by simp)
        · rfl

/-! ## Nothing outside the buffer -/

/-- The memory `out'` is `out` with changes in its first `cap` bytes only. -/
structure Within (cap : Nat) (out out' : List UInt8) : Prop where
  length : out'.length = out.length
  rest : out'.drop cap = out.drop cap

theorem Within.trans {cap : Nat} {out out' out'' : List UInt8} (h : Within cap out out')
    (h' : Within cap out' out'') : Within cap out out'' :=
  ⟨h'.length.trans h.length, h'.rest.trans h.rest⟩

/-- `snprintf` stores at most `cap` bytes, with the NUL. -/
theorem snprintf_within {mem : List UInt8} {cap : Nat} (hcap : cap ≤ mem.length) (s : List UInt8) :
    Within cap mem (snprintf mem cap s).1 := by
  rw [snprintf]
  by_cases hzero : cap = 0
  · simp only [if_pos hzero]
    exact ⟨rfl, rfl⟩
  · have hmin : min s.length (cap - 1) + 1 ≤ cap := by omega
    have htake : (s.take (cap - 1)).length = min s.length (cap - 1) := by
      rw [List.length_take, Nat.min_comm]
    simp only [if_neg hzero]
    refine ⟨?_, ?_⟩
    · rw [List.length_append, htake, List.length_cons, List.length_drop]
      omega
    · obtain ⟨k, hk⟩ : ∃ k, cap = min s.length (cap - 1) + (k + 1) :=
        ⟨cap - (min s.length (cap - 1) + 1), by omega⟩
      rw [List.drop_append, List.drop_of_length_le (by omega), List.nil_append, htake,
        show cap - min s.length (cap - 1) = k + 1 by omega, List.drop_succ_cons, List.drop_drop]
      congr 1
      omega

theorem put_within {out : List UInt8} {cap : Nat} (hcap : cap ≤ out.length) (p : Nat)
    (s : List UInt8) : Within cap out (put out cap p s).1 := by
  rw [put]
  by_cases hp : cap ≤ p
  · rw [if_pos hp]
    exact ⟨rfl, rfl⟩
  · have hsnp := @snprintf_within (out.drop p) (cap - p) (by rw [List.length_drop]; omega) s
    have htaken : (out.take p).length = p := List.length_take_of_le (by omega)
    have hwithin : Within cap out (out.take p ++ (snprintf (out.drop p) (cap - p) s).1) := by
      refine ⟨?_, ?_⟩
      · rw [List.length_append, htaken, hsnp.length, List.length_drop]
        omega
      · rw [List.drop_append, List.drop_of_length_le (by omega), List.nil_append, htaken,
          hsnp.rest, List.drop_drop]
        congr 1
        omega
    simp only [if_neg hp]
    split <;> exact hwithin

theorem putAll_within {cap : Nat} (pieces : List (List UInt8)) {out : List UInt8}
    (hcap : cap ≤ out.length) (p : Nat) : Within cap out (putAll cap pieces out p).1 := by
  induction pieces generalizing out p with
  | nil => exact ⟨rfl, rfl⟩
  | cons s rest ih =>
      have hfirst := put_within hcap p s
      rw [putAll]
      split
      · rename_i out' p' hput
        rw [hput] at hfirst
        exact hfirst.trans (ih (by rw [hfirst.length]; exact hcap) p')
      · rename_i out' hput
        rw [hput] at hfirst
        exact hfirst

/-- **`format_telemetry_json` stores into `out[0 .. cap)` only.** -/
theorem formatTelemetryJson_within (snap : TelemetrySnapshot) {out : List UInt8} {cap : Nat}
    (hcap : cap ≤ out.length) : Within cap out (formatTelemetryJson snap out cap).1 := by
  rw [formatTelemetryJson]
  split
  · exact ⟨rfl, rfl⟩
  · exact putAll_within (jsonPieces snap) hcap 0

/-! ## The longest text -/

/-- A number below `10^20` has at most 21 characters, with its sign. -/
theorem length_signed {n : Int} (h : n.natAbs < 10 ^ 20) : (signed n).length ≤ 21 := by
  have hdec : ∀ m : Nat, m < 10 ^ 20 → (decimal m).length ≤ 20 := by
    intro m hm
    rw [decimal, List.length_map]
    exact (Nat.length_toDigits_le_iff (by decide) (by decide)).mpr hm
  cases n with
  | ofNat m => exact Nat.le_succ_of_le (hdec m h)
  | negSucc m => exact Nat.succ_le_succ (hdec (m + 1) h)

/-- The width of a format: its characters, and 21 for each number. -/
def width : List String → Nat
  | [] => 0
  | s :: rest => (text s).length + 21 + width rest

theorem length_printed {parts : List (String × Int)} (rest : String)
    (h : ∀ part ∈ parts, part.2.natAbs < 10 ^ 20) :
    (printed parts rest).length ≤ width (parts.map Prod.fst) + (text rest).length := by
  rw [printed, List.length_append]
  refine Nat.add_le_add_right ?_ _
  induction parts with
  | nil => exact Nat.le_refl 0
  | cons part parts ih =>
      have hpart := length_signed (h part List.mem_cons_self)
      have hrest := ih fun q hq => h q (List.mem_cons_of_mem _ hq)
      rw [List.flatMap_cons, List.length_append, List.length_append, List.map_cons, width]
      omega

theorem word_lt (x : UInt32) : (x.toNat : Int).natAbs < 10 ^ 20 := by
  have := x.toNat_lt
  omega

theorem long_lt (x : UInt64) : (x.toNat : Int).natAbs < 10 ^ 20 := by
  have := x.toNat_lt
  omega

theorem int_lt (x : Int32) : x.toInt.natAbs < 10 ^ 20 := by
  have := x.le_toInt
  have := x.toInt_lt
  omega

theorem length_jsonHead (snap : TelemetrySnapshot) : (jsonHead snap).length ≤ 1024 := by
  refine (length_printed _ ?_).trans ?_
  · simp only [List.forall_mem_cons, word_lt, long_lt, List.not_mem_nil, false_imp_iff, implies_true,
      and_self]
  · simp only [List.map_cons, List.map_nil]
    decide +kernel

theorem length_pointJson (src : SourcePoint) : (pointJson src).length ≤ 140 := by
  refine (length_printed _ ?_).trans ?_
  · simp only [List.forall_mem_cons, word_lt, int_lt, List.not_mem_nil, false_imp_iff, implies_true,
      and_self]
  · simp only [List.map_cons, List.map_nil]
    decide +kernel

theorem length_points (snap : TelemetrySnapshot) : (points snap).length ≤ kMaxPoints := by
  rw [points, List.length_map, List.length_take, List.length_finRange]
  exact Nat.min_le_right _ _

theorem length_flatten_le {l : List (List UInt8)} {n : Nat} (h : ∀ s ∈ l, s.length ≤ n) :
    l.flatten.length ≤ n * l.length := by
  induction l with
  | nil => exact Nat.zero_le _
  | cons s l ih =>
      have hs := h s List.mem_cons_self
      have hl := ih fun t ht => h t (List.mem_cons_of_mem _ ht)
      rw [List.flatten_cons, List.length_append, List.length_cons, Nat.mul_succ]
      omega

/-- **The longest text**: 16 sources and every number as wide as it gets. -/
theorem length_jsonText_lt (snap : TelemetrySnapshot) : (jsonText snap).length < 4096 := by
  have hhead := length_jsonHead snap
  have hcount := length_points snap
  have hpoints : (((points snap).mapIdx fun i src =>
      (if i = 0 then text "" else text ",") ++ pointJson src).flatten).length
        ≤ 141 * (points snap).length := by
    refine (length_flatten_le ?_).trans (Nat.le_of_eq (by rw [List.length_mapIdx]))
    intro s hs
    obtain ⟨i, hi, rfl⟩ := List.mem_mapIdx.mp hs
    have hcomma : (if i = 0 then text "" else text ",").length ≤ 1 := by
      split <;> decide
    have hpoint := length_pointJson (points snap)[i]
    rw [List.length_append]
    omega
  rw [jsonText, jsonPieces, List.cons_append, List.flatten_cons, List.flatten_append,
    List.length_append, List.length_append]
  have hlast : ([text "]\x7d"].flatten).length = 2 := by decide
  rw [hlast]
  simp only [kMaxPoints] at hcount
  omega

/-- The closing brackets are always there. -/
theorem two_le_length_jsonText (snap : TelemetrySnapshot) : 2 ≤ (jsonText snap).length := by
  rw [jsonText, jsonPieces, List.flatten_append, List.length_append]
  have hlast : ([text "]\x7d"].flatten).length = 2 := by decide
  omega

/-- **The buffer after `format_telemetry_json`**: the length returned is that of the text
and the text is at its start, or the length is 0. -/
theorem formatTelemetryJson_spec (snap : TelemetrySnapshot) (out : List UInt8) (cap : Nat) :
    ((jsonText snap).length < cap →
        (formatTelemetryJson snap out cap).2 = (jsonText snap).length
          ∧ (formatTelemetryJson snap out cap).1.take (jsonText snap).length = jsonText snap)
      ∧ (cap ≤ (jsonText snap).length → (formatTelemetryJson snap out cap).2 = 0) := by
  have hlong := length_jsonText_lt snap
  have hint : (jsonPieces snap).flatten.length < 2 ^ 31 := by
    rw [← jsonText]
    omega
  refine ⟨fun hlt => ?_, fun hle => ?_⟩
  · have htwo := two_le_length_jsonText snap
    obtain ⟨out', hall, htake⟩ := putAll_fits (jsonPieces snap) out 0 hint (Nat.zero_le _)
      (by rw [Nat.zero_add]; exact hlt)
    rw [Nat.zero_add] at hall htake
    rw [formatTelemetryJson, if_neg (by omega)]
    simp only [hall, Option.getD_some]
    exact ⟨rfl, htake⟩
  · rw [formatTelemetryJson]
    split
    · rfl
    · have hnone := @putAll_full cap (jsonPieces snap) out 0 hint (Nat.zero_le _) (by omega)
        (by rw [Nat.zero_add]; exact hle)
      simp only [hnone, Option.getD_none]

end RateHub.Http
