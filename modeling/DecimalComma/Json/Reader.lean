import DecimalComma.Decimal.Numeral
import DecimalComma.Json.Basic
import DecimalComma.Text.Digit

/-! JSON documents of texts, by the strict grammar and with words for the numbers that are not finite:
no other text is a document. Every reader answers what it read with the rest of the text, which is
shorter than the whole. -/
namespace DecimalComma.Json

/-- A thing read at the start of a text, and the rest. -/
structure Read (α : Type) (s : List Char) where
  value : α
  rest : List Char
  shorter : rest.length < s.length

/-- The text without the blanks at its start. -/
def skipBlanks (s : List Char) : List Char :=
  s.dropWhile fun c => c = ' ' || c = '\t' || c = '\n' || c = '\r'

theorem length_skipBlanks_le (s : List Char) : (skipBlanks s).length ≤ s.length :=
  (List.dropWhile_suffix _).length_le

theorem length_lt_of_skipBlanks {s r : List Char} {c : Char} (h : skipBlanks s = c :: r) :
    r.length < s.length := by
  have := length_skipBlanks_le s
  rw [h, List.length_cons] at this
  omega

/-- The number that so many hexadecimal digits denote after a number read so far, and the rest. -/
def takeHex : Nat → Nat → List Char → Option (Nat × List Char)
  | 0, n, s => some (n, s)
  | _ + 1, _, [] => none
  | k + 1, n, c :: s => do takeHex k (n * 16 + (← Text.hexValue? c)) s

/-- The low half of a pair of surrogates. -/
def takeLow : List Char → Option (Nat × List Char)
  | '\\' :: 'u' :: s =>
    (takeHex 4 0 s).filter fun (n, _) => 0xDC00 ≤ n && n < 0xE000
  | _ => none

/-- The character of an escape by number. Code points beyond the first plane take two escapes, a
high and a low surrogate, neither of which may stand alone. -/
def takeUnicode (s : List Char) : Option (Char × List Char) := do
  let (n, s) ← takeHex 4 0 s
  if n < 0xD800 ∨ 0xE000 ≤ n then some (Char.ofNat n, s)
  else if 0xDC00 ≤ n then none
  else do
    let (m, s) ← takeLow s
    some (Char.ofNat (0x10000 + (n - 0xD800) * 0x400 + (m - 0xDC00)), s)

/-- One character of a string, escaped or not. -/
def takeChar : List Char → Option (Char × List Char)
  | [] => none
  | c :: s =>
    if c ≠ '\\' then if c.toNat < 0x20 then none else some (c, s)
    else match s with
      | [] => none
      | e :: s => if e = 'u' then takeUnicode s else (escapes.lookup e).map (·, s)

theorem length_of_takeHex {k n m : Nat} {s r : List Char} (h : takeHex k n s = some (m, r)) :
    r.length ≤ s.length := by
  fun_induction takeHex k n s with
  | case1 => cases h; exact Nat.le_refl _
  | case2 => cases h
  | case3 n k c s ih =>
    simp only [Option.bind_eq_bind, Option.bind_eq_some_iff] at h
    obtain ⟨d, _, h⟩ := h
    have := ih d h
    simp only [List.length_cons]; omega

theorem length_of_takeLow {n : Nat} {s r : List Char} (h : takeLow s = some (n, r)) :
    r.length ≤ s.length := by
  unfold takeLow at h
  split at h
  · rw [Option.filter_eq_some_iff] at h
    have := length_of_takeHex h.1
    simp only [List.length_cons]; omega
  · cases h

theorem length_of_takeUnicode {s r : List Char} {c : Char} (h : takeUnicode s = some (c, r)) :
    r.length ≤ s.length := by
  simp only [takeUnicode, Option.bind_eq_bind, Option.bind_eq_some_iff] at h
  obtain ⟨⟨n, t⟩, hn, h⟩ := h
  have := length_of_takeHex hn
  split at h
  · simp only [Option.some.injEq, Prod.mk.injEq] at h
    exact h.2 ▸ this
  · split at h
    · exact absurd h (by simp)
    · simp only [Option.bind_eq_some_iff, Option.some.injEq, Prod.mk.injEq] at h
      obtain ⟨⟨m, u⟩, hm, _, rfl⟩ := h
      exact Nat.le_trans (length_of_takeLow hm) this

theorem length_of_takeChar {s r : List Char} {c : Char} (h : takeChar s = some (c, r)) :
    r.length < s.length := by
  cases s with
  | nil => cases h
  | cons a s =>
    simp only [takeChar] at h
    split at h
    · split at h
      · cases h
      · cases h; simp
    · cases s with
      | nil => cases h
      | cons e s =>
        simp only at h
        split at h
        · have := length_of_takeUnicode h
          simp only [List.length_cons]; omega
        · obtain ⟨_, _, h⟩ := Option.map_eq_some_iff.mp h
          cases h; simp only [List.length_cons]; omega

/-- The characters up to the closing quote. -/
def takeString (s : List Char) : Option (Read (List Char) s) :=
  match s with
  | [] => none
  | c :: r =>
    if c = '"' then some ⟨[], r, by simp⟩
    else
      match h : takeChar (c :: r) with
      | none => none
      | some (d, r') =>
        match takeString r' with
        | none => none
        | some t => some ⟨d :: t.value, t.rest, Nat.lt_trans t.shorter (length_of_takeChar h)⟩
termination_by s.length
decreasing_by exact length_of_takeChar h

/-- The value of a numeral; zero written as an integer has no sign. -/
def numberOf (n : Numeral) : Float :=
  if n.isIntegral && n.decimal.coefficient = 0 then n.decimal.toDouble false else n.toDouble

/-- The most characters that a number may have before its point, a sign included. -/
def numberWidth : Nat := 4300

def isNumber (n : Numeral) : Bool :=
  n.isStrict && n.whole.length + (if n.isNegative then 1 else 0) ≤ numberWidth

/-- A word or a number. -/
def takeAtom (s : List Char) : Option (Read Json s) :=
  let (j?, r) := match words.find? fun (w, _) => w.isPrefixOf s with
    | some (w, j) => (some j, s.drop w.length)
    | none =>
      let (n, r) := Numeral.take s
      (if isNumber n then some (.number (numberOf n)) else none, r)
  match j? with
  | none => none
  | some j => if h : r.length < s.length then some ⟨j, r, h⟩ else none

mutual

/-- A document, with blanks before it. -/
def takeValue (s : List Char) : Option (Read Json s) :=
  match h : skipBlanks s with
  | [] => none
  | c :: r =>
    have hr := length_lt_of_skipBlanks h
    if c = '"' then
      match takeString r with
      | none => none
      | some t => some ⟨.string (String.ofList t.value), t.rest, Nat.lt_trans t.shorter hr⟩
    else if c = '[' then
      match takeItems r with
      | none => none
      | some t => some ⟨.array t.value, t.rest, Nat.lt_trans t.shorter hr⟩
    else if c = '\x7b' then
      match takeMembers r with
      | none => none
      | some t => some ⟨.object t.value, t.rest, Nat.lt_trans t.shorter hr⟩
    else
      match takeAtom (c :: r) with
      | none => none
      | some t => some ⟨t.value, t.rest, by have := t.shorter; simp at this; omega⟩
termination_by (s.length, 0)
decreasing_by all_goals exact Prod.Lex.left _ _ hr

/-- Items up to the closing bracket. -/
def takeItems (s : List Char) : Option (Read (List Json) s) :=
  match h : skipBlanks s with
  | [] => none
  | c :: r =>
    have hr := length_lt_of_skipBlanks h
    if c = ']' then some ⟨[], r, hr⟩
    else
      match takeValue s with
      | none => none
      | some j =>
        match takeMoreItems j.rest with
        | none => none
        | some t => some ⟨j.value :: t.value, t.rest, Nat.lt_trans t.shorter j.shorter⟩
termination_by (s.length, 1)
decreasing_by
  · exact Prod.Lex.right _ (by decide)
  · exact Prod.Lex.left _ _ j.shorter

/-- Items up to the closing bracket, each behind a comma. -/
def takeMoreItems (s : List Char) : Option (Read (List Json) s) :=
  match h : skipBlanks s with
  | [] => none
  | c :: r =>
    have hr := length_lt_of_skipBlanks h
    if c = ']' then some ⟨[], r, hr⟩
    else if c = ',' then
      match takeValue r with
      | none => none
      | some j =>
        match takeMoreItems j.rest with
        | none => none
        | some t => some ⟨j.value :: t.value, t.rest,
            Nat.lt_trans t.shorter (Nat.lt_trans j.shorter hr)⟩
    else none
termination_by (s.length, 0)
decreasing_by
  · exact Prod.Lex.left _ _ hr
  · exact Prod.Lex.left _ _ (Nat.lt_trans j.shorter hr)

/-- A member: a name, a colon and a document. -/
def takeMember (s : List Char) : Option (Read (String × Json) s) :=
  match h : skipBlanks s with
  | [] => none
  | c :: r =>
    have hr := length_lt_of_skipBlanks h
    if c = '"' then
      match takeString r with
      | none => none
      | some n =>
        match hn : skipBlanks n.rest with
        | [] => none
        | c' :: r' =>
          have hr' := Nat.lt_trans (length_lt_of_skipBlanks hn) (Nat.lt_trans n.shorter hr)
          if c' = ':' then
            match takeValue r' with
            | none => none
            | some j => some ⟨(String.ofList n.value, j.value), j.rest, Nat.lt_trans j.shorter hr'⟩
          else none
    else none
termination_by (s.length, 0)
decreasing_by exact Prod.Lex.left _ _ hr'

/-- Members up to the closing brace. -/
def takeMembers (s : List Char) : Option (Read (List (String × Json)) s) :=
  match h : skipBlanks s with
  | [] => none
  | c :: r =>
    have hr := length_lt_of_skipBlanks h
    if c = '\x7d' then some ⟨[], r, hr⟩
    else
      match takeMember s with
      | none => none
      | some m =>
        match takeMoreMembers m.rest with
        | none => none
        | some t => some ⟨m.value :: t.value, t.rest, Nat.lt_trans t.shorter m.shorter⟩
termination_by (s.length, 1)
decreasing_by
  · exact Prod.Lex.right _ (by decide)
  · exact Prod.Lex.left _ _ m.shorter

/-- Members up to the closing brace, each behind a comma. -/
def takeMoreMembers (s : List Char) : Option (Read (List (String × Json)) s) :=
  match h : skipBlanks s with
  | [] => none
  | c :: r =>
    have hr := length_lt_of_skipBlanks h
    if c = '\x7d' then some ⟨[], r, hr⟩
    else if c = ',' then
      match takeMember r with
      | none => none
      | some m =>
        match takeMoreMembers m.rest with
        | none => none
        | some t => some ⟨m.value :: t.value, t.rest,
            Nat.lt_trans t.shorter (Nat.lt_trans m.shorter hr)⟩
    else none
termination_by (s.length, 0)
decreasing_by
  · exact Prod.Lex.left _ _ hr
  · exact Prod.Lex.left _ _ (Nat.lt_trans m.shorter hr)

end

/-- The one document that a text holds, with blanks around it. -/
def read? (s : String) : Option Json :=
  match takeValue s.toList with
  | none => none
  | some t => if skipBlanks t.rest = [] then some t.value else none

end DecimalComma.Json
