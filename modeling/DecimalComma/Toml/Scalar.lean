import DecimalComma.Text.Digit

/-! The forms of TOML's numbers, dates and times. A matcher answers the text behind what it matches.
-/
namespace DecimalComma.Toml

/-- Two digits at the start of a text. -/
def takePair : List Char → Option (Nat × List Char)
  | a :: b :: s =>
    if a.isDigit && b.isDigit then some (Nat.ofDigitChars 10 [a, b] 0, s) else none
  | _ => none

def dropChar (p : Char → Bool) : List Char → Option (List Char)
  | [] => none
  | c :: s => if p c then some s else none

/-- An hour and a minute. -/
def dropClock (s : List Char) : Option (List Char) := do
  let (h, s) ← takePair s
  let (m, s) ← takePair (← dropChar (· = ':') s)
  if h < 24 ∧ m < 60 then some s else none

/-- The fraction of a second, if there is one. -/
def skipFraction (s : List Char) : List Char :=
  match s with
  | '.' :: r => if (r.head?.any Char.isDigit) then r.dropWhile Char.isDigit else s
  | _ => s

def dropTime (s : List Char) : Option (List Char) := do
  let (n, s) ← takePair (← dropChar (· = ':') (← dropClock s))
  if n < 60 then some (skipFraction s) else none

/-- The offset of a time zone, if there is one. -/
def skipOffset (s : List Char) : List Char :=
  match s with
  | [] => s
  | c :: r =>
    if c = 'Z' ∨ c = 'z' then r
    else if c = '+' ∨ c = '-' then (dropClock r).getD s
    else s

def isLeap (year : Nat) : Bool := year % 4 = 0 && (year % 100 ≠ 0 || year % 400 = 0)

def daysIn (year month : Nat) : Nat :=
  if month = 2 then if isLeap year then 29 else 28
  else if month ∈ [4, 6, 9, 11] then 30 else 31

/-- The parts of a date; months and days are in their ranges, but the day may be missing from the
month. -/
def takeDate (s : List Char) : Option ((Nat × Nat × Nat) × List Char) := do
  let (c, s) ← takePair s
  let (y, s) ← takePair s
  let (m, s) ← takePair (← dropChar (· = '-') s)
  let (d, s) ← takePair (← dropChar (· = '-') s)
  if 1 ≤ m ∧ m ≤ 12 ∧ 1 ≤ d ∧ d ≤ 31 then some ((c * 100 + y, m, d), s) else none

/-- The time behind a date, if there is one. -/
def skipTime (s : List Char) : List Char :=
  match s with
  | [] => s
  | c :: r =>
    if c = 'T' ∨ c = 't' ∨ c = ' ' then ((dropTime r).map skipOffset).getD s else s

/-- Digits of a kind, with single underscores between them. -/
def dropDigits (p : Char → Bool) : List Char → Option (List Char)
  | [] => none
  | c :: s => if p c then some (more s) else none
where
  more : List Char → List Char
    | [] => []
    | '_' :: c :: s => if p c then more s else '_' :: c :: s
    | c :: s => if p c then more s else c :: s

/-- A number in another base. -/
def dropBased (s : List Char) : Option (List Char) :=
  match s with
  | '0' :: 'x' :: r => dropDigits (fun c => (Text.hexValue? c).isSome) r
  | '0' :: 'o' :: r => dropDigits (fun c => c.isDigit && c ≤ '7') r
  | '0' :: 'b' :: r => dropDigits (fun c => c = '0' || c = '1') r
  | _ => none

def skipSign (s : List Char) : List Char := (dropChar (fun c => c = '+' || c = '-') s).getD s

/-- A decimal number: no zero before other digits, a fraction and a power of ten at will. -/
def dropDecimal (s : List Char) : Option (List Char) := do
  let s := skipSign s
  let s ← match s with
    | '0' :: r => some r
    | _ => dropDigits Char.isDigit s
  let s := ((dropChar (· = '.') s).bind (dropDigits Char.isDigit)).getD s
  return ((dropChar (fun c => c = 'e' || c = 'E') s).bind
    fun r => dropDigits Char.isDigit (skipSign r)).getD s

/-- An infinity or a NaN. -/
def dropSpecial (s : List Char) : Option (List Char) :=
  match skipSign s with
  | 'i' :: 'n' :: 'f' :: r => some r
  | 'n' :: 'a' :: 'n' :: r => some r
  | _ => none

/-- A number, a date or a time. A date that is on no calendar is an error, not a number. -/
def dropScalar (s : List Char) : Option (List Char) :=
  match takeDate s with
  | some ((y, m, d), r) => if 1 ≤ y ∧ d ≤ daysIn y m then some (skipTime r) else none
  | none => dropTime s <|> dropBased s <|> dropDecimal s <|> dropSpecial s

end DecimalComma.Toml
