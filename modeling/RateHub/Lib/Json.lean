import Mathlib.Data.List.TakeWhile

/-!
# JSON texts

A reader for JSON texts and the shortest way to write one, over characters. The reader
takes blanks wherever JSON allows them. Numbers are integers and are read exactly; a
fraction, an exponent or a leading zero is refused, and so is an escape in a string. What
it accepts is therefore a JSON text, and the value is the one JSON gives it.

What is written without blanks is read back as the value it was written from
(`parse_render`).
-/

namespace Json

/-- A JSON value. The members of an object stand in the order of the text. -/
inductive Value where
  | null
  | bool (b : Bool)
  | num (n : Int)
  | str (s : String)
  | arr (items : List Value)
  | obj (members : List (String × Value))

/-! ## Reading -/

/-- The four blanks. -/
def blank (c : Char) : Bool := c == ' ' || c == '\t' || c == '\n' || c == '\r'

def skip (s : List Char) : List Char := s.dropWhile blank

/-- A character that stands for itself in a string. -/
def plain (c : Char) : Bool := decide (32 ≤ c.toNat) && c != '"' && c != '\\'

/-- A string, behind its opening quote. -/
def string (s : List Char) : Option (String × List Char) :=
  match s.dropWhile plain with
  | '"' :: rest => some (String.ofList (s.takeWhile plain), rest)
  | _ => none

/-- The digits of a number: at least one, and no zero in front of others. -/
def number (s : List Char) : Option (Nat × List Char) :=
  match s.takeWhile Char.isDigit with
  | [] => none
  | '0' :: _ :: _ => none
  | digits => some (Nat.ofDigitChars 10 digits 0, s.dropWhile Char.isDigit)

mutual

/-- A value, and what follows it. -/
def value : Nat → List Char → Option (Value × List Char)
  | 0, _ => none
  | fuel + 1, s =>
    match skip s with
    | 'n' :: 'u' :: 'l' :: 'l' :: rest => some (.null, rest)
    | 't' :: 'r' :: 'u' :: 'e' :: rest => some (.bool true, rest)
    | 'f' :: 'a' :: 'l' :: 's' :: 'e' :: rest => some (.bool false, rest)
    | '"' :: rest => (string rest).map fun r => (.str r.1, r.2)
    | '[' :: rest =>
        match skip rest with
        | ']' :: rest => some (.arr [], rest)
        | rest => (items fuel rest).map fun r => (.arr r.1, r.2)
    | '{' :: rest =>
        match skip rest with
        | '}' :: rest => some (.obj [], rest)
        | rest => (members fuel rest).map fun r => (.obj r.1, r.2)
    | '-' :: rest => (number rest).map fun r => (.num (-r.1), r.2)
    | rest => (number rest).map fun r => (.num r.1, r.2)

/-- The values of an array, up to its end. -/
def items : Nat → List Char → Option (List Value × List Char)
  | 0, _ => none
  | fuel + 1, s =>
    match value fuel s with
    | none => none
    | some (v, rest) =>
        match skip rest with
        | ',' :: rest => (items fuel rest).map fun r => (v :: r.1, r.2)
        | ']' :: rest => some ([v], rest)
        | _ => none

/-- The members of an object, up to its end. -/
def members : Nat → List Char → Option (List (String × Value) × List Char)
  | 0, _ => none
  | fuel + 1, s =>
    match skip s with
    | '"' :: rest =>
        match string rest with
        | none => none
        | some (name, rest) =>
            match skip rest with
            | ':' :: rest =>
                match value fuel rest with
                | none => none
                | some (v, rest) =>
                    match skip rest with
                    | ',' :: rest => (members fuel rest).map fun r => ((name, v) :: r.1, r.2)
                    | '}' :: rest => some ([(name, v)], rest)
                    | _ => none
            | _ => none
    | _ => none

end

/-- A whole text: one value, and nothing but blanks around it. -/
def parse (s : List Char) : Option Value :=
  match value (2 * s.length) s with
  | some (v, rest) => if skip rest = [] then some v else none
  | none => none

/-! ## Writing -/

def quote (s : String) : List Char := '"' :: (s.toList ++ ['"'])

def renderInt : Int → List Char
  | .ofNat n => Nat.toDigits 10 n
  | .negSucc n => '-' :: Nat.toDigits 10 (n + 1)

mutual

/-- The text of a value, without a blank. -/
def render : Value → List Char
  | .null => ['n', 'u', 'l', 'l']
  | .bool true => ['t', 'r', 'u', 'e']
  | .bool false => ['f', 'a', 'l', 's', 'e']
  | .num n => renderInt n
  | .str s => quote s
  | .arr [] => ['[', ']']
  | .arr (v :: rest) => '[' :: (render v ++ renderItems rest)
  | .obj [] => ['{', '}']
  | .obj ((name, v) :: rest) => '{' :: (quote name ++ ':' :: (render v ++ renderMembers rest))

/-- Further values of an array, and its end. -/
def renderItems : List Value → List Char
  | [] => [']']
  | v :: rest => ',' :: (render v ++ renderItems rest)

/-- Further members of an object, and its end. -/
def renderMembers : List (String × Value) → List Char
  | [] => ['}']
  | (name, v) :: rest => ',' :: (quote name ++ ':' :: (render v ++ renderMembers rest))

end

mutual

/-- The strings of a value need no escape. -/
def writable : Value → Bool
  | .str s => s.toList.all plain
  | .arr items => writableItems items
  | .obj members => writableMembers members
  | _ => true

def writableItems : List Value → Bool
  | [] => true
  | v :: rest => writable v && writableItems rest

def writableMembers : List (String × Value) → Bool
  | [] => true
  | (name, v) :: rest => name.toList.all plain && writable v && writableMembers rest

end

mutual

/-- No object names two of its members alike. -/
def distinct : Value → Bool
  | .arr items => distinctItems items
  | .obj members => decide (members.map Prod.fst).Nodup && distinctMembers members
  | _ => true

def distinctItems : List Value → Bool
  | [] => true
  | v :: rest => distinct v && distinctItems rest

def distinctMembers : List (String × Value) → Bool
  | [] => true
  | (_, v) :: rest => distinct v && distinctMembers rest

end

theorem writableItems_of_forall {vs : List Value} (h : ∀ v ∈ vs, writable v = true) :
    writableItems vs = true := by
  induction vs with
  | nil => rfl
  | cons v vs ih =>
      rw [List.forall_mem_cons] at h
      rw [writableItems, h.1, ih h.2, Bool.and_self]

theorem distinctItems_of_forall {vs : List Value} (h : ∀ v ∈ vs, distinct v = true) :
    distinctItems vs = true := by
  induction vs with
  | nil => rfl
  | cons v vs ih =>
      rw [List.forall_mem_cons] at h
      rw [distinctItems, h.1, ih h.2, Bool.and_self]

/-! ## Reading what was written -/

theorem skip_cons {c : Char} (hc : blank c = false) (s : List Char) : skip (c :: s) = c :: s := by
  rw [skip, List.dropWhile_cons_of_neg (by rw [hc]; decide)]

/-- A run of characters with a property, and the first one without. -/
theorem takeWhile_run {p : Char → Bool} {s : List Char} (hs : s.all p = true)
    {rest : List Char} (hrest : ∀ c, rest.head? = some c → p c = false) :
    (s ++ rest).takeWhile p = s ∧ (s ++ rest).dropWhile p = rest := by
  rw [List.all_eq_true] at hs
  cases rest with
  | nil =>
      rw [List.append_nil, List.takeWhile_eq_self_iff, List.dropWhile_eq_nil_iff]
      exact ⟨hs, hs⟩
  | cons c rest =>
      have hc : ¬ p c = true := by rw [hrest c rfl]; decide
      rw [List.takeWhile_append_of_pos hs, List.dropWhile_append_of_pos hs,
        List.takeWhile_cons_of_neg hc, List.dropWhile_cons_of_neg hc, List.append_nil]
      exact ⟨rfl, rfl⟩

theorem string_quote {s : String} (hs : s.toList.all plain = true) (rest : List Char) :
    string (s.toList ++ '"' :: rest) = some (s, rest) := by
  have hquote : ∀ c, ('"' :: rest).head? = some c → plain c = false := by
    intro c hc
    obtain rfl := Option.some.inj hc
    decide
  obtain ⟨htake, hdrop⟩ := takeWhile_run hs hquote
  rw [string, htake, hdrop, String.ofList_toList]
  rfl

/-- Only zero starts with a zero. -/
theorem toDigits_head {n : Nat} (h : (Nat.toDigits 10 n).head? = some '0') : n = 0 := by
  induction n using Nat.strongRecOn with
  | ind n ih =>
    by_cases hlt : n < 10
    · rw [Nat.toDigits_of_lt_base hlt] at h
      have hall : ∀ m < 10, [m.digitChar].head? = some '0' → m = 0 := by decide
      exact hall n hlt h
    · obtain ⟨c, s, hs⟩ := List.exists_cons_of_ne_nil (Nat.toDigits_ne_nil (n := n / 10) (b := 10))
      rw [Nat.toDigits_of_base_le (by decide) (by omega), hs, List.cons_append, List.head?_cons] at h
      have := ih (n / 10) (by omega) (by rw [hs, List.head?_cons, h])
      omega

/-- The digits of a number are read as that number. -/
theorem number_toDigits (n : Nat) {rest : List Char}
    (hrest : ∀ c, rest.head? = some c → c.isDigit = false) :
    number (Nat.toDigits 10 n ++ rest) = some (n, rest) := by
  have hall : (Nat.toDigits 10 n).all Char.isDigit = true := by
    rw [List.all_eq_true]
    exact fun c hc => Nat.isDigit_of_mem_toDigits (by decide) (by decide) hc
  obtain ⟨htake, hdrop⟩ := takeWhile_run hall hrest
  rw [number, htake, hdrop]
  split
  · rename_i hnil
    exact absurd hnil Nat.toDigits_ne_nil
  · rename_i d ds hzero
    have hn : n = 0 := toDigits_head (by rw [hzero]; rfl)
    subst hn
    cases hzero
  · rw [Nat.ofDigitChars_ten_toDigits]

/-- What a text of a value can start with. -/
structure Starts (c : Char) : Prop where
  blank : blank c = false
  items : c ≠ ']'
  members : c ≠ '}'

theorem starts_digit {c : Char} (hc : c.isDigit = true) : Starts c := by
  have hne : ∀ d : Char, d.isDigit = false → c ≠ d := by
    rintro d hd rfl
    rw [hc] at hd
    cases hd
  refine ⟨?_, hne _ (by decide), hne _ (by decide)⟩
  simp [Json.blank, hne ' ' (by decide), hne '\t' (by decide), hne '\n' (by decide),
    hne '\r' (by decide)]

theorem render_starts (v : Value) : ∃ c s, render v = c :: s ∧ Starts c := by
  have hdigits : ∀ n, ∃ c s, Nat.toDigits 10 n = c :: s ∧ c.isDigit = true := by
    intro n
    obtain ⟨c, s, hs⟩ := List.exists_cons_of_ne_nil (Nat.toDigits_ne_nil (n := n) (b := 10))
    exact ⟨c, s, hs, Nat.isDigit_of_mem_toDigits (by decide) (by decide) (hs ▸ List.mem_cons_self)⟩
  cases v with
  | num n =>
      cases n with
      | ofNat n =>
          obtain ⟨c, s, hs, hc⟩ := hdigits n
          exact ⟨c, s, by rw [render, renderInt, hs], starts_digit hc⟩
      | negSucc n => exact ⟨'-', _, by rw [render, renderInt], by decide, by decide, by decide⟩
  | null => exact ⟨'n', _, by rw [render], by decide, by decide, by decide⟩
  | bool b => cases b <;> exact ⟨_, _, by rw [render], by decide, by decide, by decide⟩
  | str s => exact ⟨'"', _, by rw [render, quote], by decide, by decide, by decide⟩
  | arr items =>
      cases items <;> exact ⟨'[', _, by rw [render], by decide, by decide, by decide⟩
  | obj members =>
      cases members <;> exact ⟨_, _, by rw [render], by decide, by decide, by decide⟩

theorem length_render_pos (v : Value) : 0 < (render v).length := by
  obtain ⟨c, s, hs, -⟩ := render_starts v
  rw [hs]
  exact Nat.succ_pos _

/-- A number, from its first digit on. -/
theorem value_digits (n : Nat) {fuel : Nat} {rest : List Char}
    (hrest : ∀ c, rest.head? = some c → c.isDigit = false) :
    value (fuel + 1) (Nat.toDigits 10 n ++ rest) = some (.num n, rest) := by
  have hnum := number_toDigits n hrest
  obtain ⟨c, s, hs, hstart⟩ := render_starts (.num (.ofNat n))
  rw [render, renderInt] at hs
  have hdigit : c.isDigit = true :=
    Nat.isDigit_of_mem_toDigits (by decide) (by decide) (hs ▸ List.mem_cons_self)
  rw [value, hs, List.cons_append, skip_cons hstart.blank]
  rw [hs, List.cons_append] at hnum
  -- no other case starts with a digit
  split
  case h_8 => rw [hnum, Option.map_some]
  all_goals
    rename_i heq
    obtain rfl := (List.cons.inj heq).1
    exact absurd hdigit (by decide)

/-- What follows a value in an array or an object is no digit. -/
theorem head_renderItems (vs : List Value) (rest : List Char) :
    ∀ c, (renderItems vs ++ rest).head? = some c → c.isDigit = false := by
  cases vs with
  | nil =>
      rw [renderItems]
      rintro c ⟨⟩
      decide
  | cons v vs =>
      rw [renderItems]
      rintro c ⟨⟩
      decide

theorem head_renderMembers (ms : List (String × Value)) (rest : List Char) :
    ∀ c, (renderMembers ms ++ rest).head? = some c → c.isDigit = false := by
  cases ms with
  | nil =>
      rw [renderMembers]
      rintro c ⟨⟩
      decide
  | cons m ms =>
      rw [renderMembers]
      rintro c ⟨⟩
      decide

/-- A member whose value has been read, with the end of the object behind it. -/
theorem members_last {name : String} (hname : name.toList.all plain = true) {fuel : Nat}
    {s rest : List Char} {v : Value} (hv : value fuel s = some (v, '}' :: rest)) :
    members (fuel + 1) (quote name ++ ':' :: s) = some ([(name, v)], rest) := by
  rw [members, quote, List.cons_append, skip_cons (by decide), List.append_assoc,
    List.singleton_append]
  simp only [string_quote hname, skip_cons (show blank ':' = false by decide), hv,
    skip_cons (show blank '}' = false by decide)]

/-- A member whose value has been read, with another one behind it. -/
theorem members_next {name : String} (hname : name.toList.all plain = true) {fuel : Nat}
    {s rest : List Char} {v : Value} (hv : value fuel s = some (v, ',' :: rest)) :
    members (fuel + 1) (quote name ++ ':' :: s)
      = (members fuel rest).map fun r => ((name, v) :: r.1, r.2) := by
  rw [members, quote, List.cons_append, skip_cons (by decide), List.append_assoc,
    List.singleton_append]
  simp only [string_quote hname, skip_cons (show blank ':' = false by decide), hv,
    skip_cons (show blank ',' = false by decide)]

mutual

/-- **A value is read back**, whatever follows it that does not go on with a digit. -/
theorem value_render : ∀ (v : Value) (fuel : Nat) (rest : List Char), writable v = true →
    2 * (render v).length ≤ fuel → (∀ c, rest.head? = some c → c.isDigit = false) →
    value fuel (render v ++ rest) = some (v, rest)
  | v, 0, rest, _, hfuel, _ => by
      have := length_render_pos v
      omega
  | .null, fuel + 1, rest, _, _, _ => by
      rw [render, value]
      rfl
  | .bool true, fuel + 1, rest, _, _, _ => by
      rw [render, value]
      rfl
  | .bool false, fuel + 1, rest, _, _, _ => by
      rw [render, value]
      rfl
  | .num (.ofNat n), fuel + 1, rest, _, _, hrest => value_digits n hrest
  | .num (.negSucc n), fuel + 1, rest, _, _, hrest => by
      rw [render, renderInt, List.cons_append, value, skip_cons (by decide)]
      simp only [number_toDigits _ hrest, Option.map_some]
      rfl
  | .str s, fuel + 1, rest, hw, _, _ => by
      rw [writable] at hw
      rw [render, quote, value, List.cons_append, skip_cons (by decide), List.append_assoc,
        List.singleton_append]
      simp only [string_quote hw, Option.map_some]
  | .arr [], fuel + 1, rest, _, _, _ => by
      rw [render, value]
      rfl
  | .arr (v :: vs), fuel + 1, rest, hw, hfuel, _ => by
      rw [writable, writableItems, Bool.and_eq_true] at hw
      rw [render, List.length_cons, List.length_append] at hfuel
      obtain ⟨fuel, rfl⟩ : ∃ k, fuel = k + 1 := ⟨fuel - 1, by omega⟩
      have hfirst := value_render v fuel (renderItems vs ++ rest) hw.1 (by omega)
        (head_renderItems vs rest)
      have hall := items_render vs hfirst hw.2 (by omega)
      obtain ⟨c, s, hs, hstart⟩ := render_starts v
      rw [hs, List.cons_append] at hall
      rw [render, hs, value, List.cons_append, skip_cons (by decide)]
      simp only [List.cons_append, List.append_assoc, skip_cons hstart.blank]
      split
      · rename_i heq
        exact absurd (List.cons.inj heq).1 hstart.items
      · rw [hall, Option.map_some]
  | .obj [], fuel + 1, rest, _, _, _ => by
      rw [render, value]
      rfl
  | .obj ((name, v) :: ms), fuel + 1, rest, hw, hfuel, _ => by
      rw [writable, writableMembers, Bool.and_eq_true, Bool.and_eq_true] at hw
      rw [render, List.length_cons, List.length_append, List.length_cons, List.length_append] at hfuel
      obtain ⟨fuel, rfl⟩ : ∃ k, fuel = k + 1 := ⟨fuel - 1, by omega⟩
      have hfirst := value_render v fuel (renderMembers ms ++ rest) hw.1.2 (by omega)
        (head_renderMembers ms rest)
      have hall := members_render ms hw.1.1 hfirst hw.2 (by omega)
      rw [render, value, List.cons_append, skip_cons (by decide)]
      rw [quote, List.cons_append] at hall ⊢
      simp only [List.cons_append, List.append_assoc, skip_cons (show blank '"' = false by decide)]
        at hall ⊢
      split
      · rename_i heq
        exact absurd (List.cons.inj heq).1 (by decide)
      · rw [hall, Option.map_some]

/-- The rest of an array, once its first value has been read. -/
theorem items_render : ∀ (vs : List Value) {fuel : Nat} {s rest : List Char} {v : Value},
    value fuel s = some (v, renderItems vs ++ rest) → writableItems vs = true →
    2 * (renderItems vs).length ≤ fuel + 1 → items (fuel + 1) s = some (v :: vs, rest)
  | [], fuel, s, rest, v, hv, _, _ => by
      rw [items, hv, renderItems]
      rfl
  | v' :: vs, fuel, s, rest, v, hv, hw, hfuel => by
      rw [writableItems, Bool.and_eq_true] at hw
      rw [renderItems, List.length_cons, List.length_append] at hfuel
      have hpos := length_render_pos v'
      obtain ⟨fuel, rfl⟩ : ∃ k, fuel = k + 1 := ⟨fuel - 1, by omega⟩
      have hnext := value_render v' fuel (renderItems vs ++ rest) hw.1 (by omega)
        (head_renderItems vs rest)
      have hall := items_render vs hnext hw.2 (by omega)
      rw [items, hv, renderItems, List.cons_append, List.append_assoc]
      simp only [skip_cons (show blank ',' = false by decide), hall, Option.map_some]

/-- The rest of an object, once its first member has been read. -/
theorem members_render : ∀ (ms : List (String × Value)) {fuel : Nat} {s rest : List Char}
    {name : String} {v : Value}, name.toList.all plain = true →
    value fuel s = some (v, renderMembers ms ++ rest) → writableMembers ms = true →
    2 * (renderMembers ms).length ≤ fuel + 1 →
    members (fuel + 1) (quote name ++ ':' :: s) = some ((name, v) :: ms, rest)
  | [], fuel, s, rest, name, v, hname, hv, _, _ => by
      rw [renderMembers] at hv
      exact members_last hname hv
  | (name', v') :: ms, fuel, s, rest, name, v, hname, hv, hw, hfuel => by
      rw [writableMembers, Bool.and_eq_true, Bool.and_eq_true] at hw
      rw [renderMembers, List.length_cons, List.length_append, List.length_cons,
        List.length_append] at hfuel
      have hpos := length_render_pos v'
      obtain ⟨fuel, rfl⟩ : ∃ k, fuel = k + 1 := ⟨fuel - 1, by omega⟩
      have hnext := value_render v' fuel (renderMembers ms ++ rest) hw.1.2 (by omega)
        (head_renderMembers ms rest)
      have hall := members_render ms hw.1.1 hnext hw.2 (by omega)
      rw [renderMembers, List.cons_append, List.append_assoc, List.cons_append,
        List.append_assoc] at hv
      rw [members_next hname hv, hall, Option.map_some]

end

/-- **What is written is read back.** -/
theorem parse_render {v : Value} (hv : writable v = true) : parse (render v) = some v := by
  have hval := value_render v (2 * (render v).length) [] hv (Nat.le_refl _) (by simp)
  rw [List.append_nil] at hval
  rw [parse, hval]
  rfl

/-- Blanks are skipped; a comma before the end or a leading zero is refused. -/
example : (parse " [ 1 , -20 ]\n".toList).isSome = true
    ∧ (parse "[1,]".toList).isSome = false ∧ (parse "[01]".toList).isSome = false := by
  decide +kernel

end Json
