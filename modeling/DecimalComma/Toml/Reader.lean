import DecimalComma.Toml.Basic
import DecimalComma.Toml.Scalar

/-! Reading TOML. Readers answer what they read and the rest of the text; their first argument
bounds the steps and is the length of the text at the start, of which every step consumes a
character. -/
namespace DecimalComma.Toml

/-- Controls stand nowhere; the tab and, where lines may break, the line break are excepted. -/
def isIllegal (multiline : Bool) (c : Char) : Bool :=
  (c.toNat < 0x20 || c.toNat = 0x7F) && c ≠ '\t' && !(multiline && c = '\n')

def isSpace (c : Char) : Bool := c = ' ' || c = '\t'

def isSpaceOrBreak (c : Char) : Bool := isSpace c || c = '\n'

def skipSpaces (s : List Char) : List Char := s.dropWhile isSpace

/-- A comment up to the end of its line, if there is one. -/
def skipComment (s : List Char) : Option (List Char) :=
  match s with
  | '#' :: r =>
    if (r.takeWhile (· ≠ '\n')).any (isIllegal false) then none
    else some (r.dropWhile (· ≠ '\n'))
  | _ => some s

/-- Spaces, line breaks and comments between the items of a list. -/
def skipFiller : Nat → List Char → Option (List Char)
  | 0, s => some s
  | n + 1, s =>
    match s.dropWhile isSpaceOrBreak with
    | '#' :: r => do skipFiller n (← skipComment ('#' :: r))
    | r => some r

/-- A character by its code point in so many hexadecimal digits. -/
def takeCodePoint (width : Nat) (s : List Char) : Option (Char × List Char) := do
  let ds ← (s.take width).mapM Text.hexValue?
  let n := ds.foldl (fun n d => 16 * n + d) 0
  if ds.length = width ∧ n.isValidChar then some (Char.ofNat n, s.drop width) else none

/-- The characters that a letter behind a backslash stands for. -/
def escapes : List (Char × Char) :=
  [('b', '\x08'), ('t', '\t'), ('n', '\n'), ('f', '\x0c'), ('r', '\r'), ('"', '"'), ('\\', '\\')]

/-- What a backslash begins: a character, or in a text of several lines a break that is left out
with the blanks after it. -/
def takeEscape (multiline : Bool) : List Char → Option (List Char × List Char)
  | [] => none
  | c :: s =>
    if multiline && isSpaceOrBreak c then
      match (c :: s).dropWhile isSpace with
      | [] => some ([], [])
      | '\n' :: r => some ([], r.dropWhile isSpaceOrBreak)
      | _ => none
    else if c = 'u' then do let (d, s) ← takeCodePoint 4 s; some ([d], s)
    else if c = 'U' then do let (d, s) ← takeCodePoint 8 s; some ([d], s)
    else do some ([← escapes.lookup c], s)

/-- The characters of a text in double quotes, up to one quote or up to three. -/
def takeBasic (multiline : Bool) : Nat → List Char → Option (List Char × List Char)
  | 0, _ => none
  | _, [] => none
  | n + 1, c :: s =>
    if c = '"' && !multiline then some ([], s)
    else if c = '"' && ['"', '"'].isPrefixOf s then some ([], s.drop 2)
    else if c = '\\' then do
      let (t, s) ← takeEscape multiline s
      let (u, s) ← takeBasic multiline n s
      some (t ++ u, s)
    else if isIllegal multiline c then none
    else do
      let (u, s) ← takeBasic multiline n s
      some (c :: u, s)

/-- The characters of a text in single quotes, up to one quote or up to three. -/
def takeLiteral (multiline : Bool) : List Char → Option (List Char × List Char)
  | [] => none
  | c :: s =>
    if c = '\'' && !multiline then some ([], s)
    else if c = '\'' && ['\'', '\''].isPrefixOf s then some ([], s.drop 2)
    else if isIllegal multiline c then none
    else do
      let (u, s) ← takeLiteral multiline s
      some (c :: u, s)

/-- Up to two quotes that belong to the text although the closing quotes seem to begin with them. -/
def takeQuotes (q : Char) (t s : List Char) : List Char × List Char :=
  let extra := ((s.takeWhile (· = q)).take 2)
  (t ++ extra, s.drop extra.length)

/-- A text, from its opening quote on. -/
def takeText (s : List Char) : Option (String × List Char) := do
  let (t, s) ← match s with
    | '"' :: '"' :: '"' :: r => do
      let (t, s) ← takeBasic true s.length ((dropChar (· = '\n') r).getD r)
      some (takeQuotes '"' t s)
    | '"' :: r => takeBasic false s.length r
    | '\'' :: '\'' :: '\'' :: r => do
      let (t, s) ← takeLiteral true ((dropChar (· = '\n') r).getD r)
      some (takeQuotes '\'' t s)
    | '\'' :: r => takeLiteral false r
    | _ => none
  return (String.ofList t, s)

def isBareKeyChar (c : Char) : Bool := c.isAlphanum || c = '-' || c = '_'

/-- One part of a key: bare, or a text on one line. -/
def takeKeyPart (s : List Char) : Option (String × List Char) :=
  match s with
  | [] => none
  | c :: r =>
    if isBareKeyChar c then
      some (String.ofList (s.takeWhile isBareKeyChar), s.dropWhile isBareKeyChar)
    else do
      let (t, s) ← if c = '"' then takeBasic false s.length r
        else if c = '\'' then takeLiteral false r else none
      some (String.ofList t, s)

/-- A key: parts with dots between them, and spaces at will. -/
def takeKey : Nat → List Char → Option (Path × List Char)
  | 0, _ => none
  | n + 1, s => do
    let (k, s) ← takeKeyPart s
    match skipSpaces s with
    | '.' :: s => do
      let (ks, s) ← takeKey n (skipSpaces s)
      some (k :: ks, s)
    | s => some ([k], s)

/-- The members of an inline table and the paths in it that are closed. -/
structure Inline where
  table : Table := []
  frozen : List Path := []

def Inline.assign (t : Inline) (key : Path) (v : Value) : Option Inline := do
  let k ← key.getLast?
  if t.frozen.any (·.isPrefixOf key) then none
  else
    let table ← Table.alter false (Table.add? k v) key.dropLast t.table
    some ⟨table, if v.isClosed then key :: t.frozen else t.frozen⟩

mutual

def takeValue : Nat → List Char → Option (Value × List Char)
  | 0, _ => none
  | n + 1, s =>
    match s with
    | [] => none
    | c :: r =>
      if c = '"' ∨ c = '\'' then do let (t, s) ← takeText s; some (.text t, s)
      else if "true".toList.isPrefixOf s then some (.scalar, s.drop 4)
      else if "false".toList.isPrefixOf s then some (.scalar, s.drop 5)
      else if c = '[' then do
        let (vs, s) ← takeItems n (← skipFiller s.length r)
        some (.list vs, s)
      else if c = '\x7b' then do
        match skipSpaces r with
        | '\x7d' :: s => some (.table [], s)
        | s => do let (t, s) ← takeMembers n ⟨[], []⟩ s; some (.table t, s)
      else do some (.scalar, ← dropScalar s)

/-- The items of a list up to its bracket; a comma may stand behind the last one. -/
def takeItems : Nat → List Char → Option (List Value × List Char)
  | 0, _ => none
  | _, ']' :: s => some ([], s)
  | n + 1, s => do
    let (v, s) ← takeValue n s
    match ← skipFiller s.length s with
    | ']' :: s => some ([v], s)
    | ',' :: s => do
      let (vs, s) ← takeItems n (← skipFiller s.length s)
      some (v :: vs, s)
    | _ => none

/-- A key, an equals sign and a value. -/
def takeMember : Nat → List Char → Option (Path × Value × List Char)
  | 0, _ => none
  | n + 1, s => do
    let (k, s) ← takeKey s.length s
    match s with
    | '=' :: s => do
      let (v, s) ← takeValue n (skipSpaces s)
      some (k, v, s)
    | _ => none

/-- The members of an inline table up to its brace, at least one. -/
def takeMembers : Nat → Inline → List Char → Option (Table × List Char)
  | 0, _, _ => none
  | n + 1, t, s => do
    let (k, v, s) ← takeMember n s
    let t ← t.assign k v
    match skipSpaces s with
    | '\x7d' :: s => some (t.table, s)
    | ',' :: s => takeMembers n t (skipSpaces s)
    | _ => none

end

/-- A header, from its brackets on: the path it opens. -/
def takeHeader (d : Document) (s : List Char) : Option (Path × Document × List Char) :=
  match s with
  | '[' :: '[' :: r => do
    let (p, s) ← takeKey s.length (skipSpaces r)
    let d ← d.settle.openItem p
    match s with
    | ']' :: ']' :: s => some (p, d, s)
    | _ => none
  | '[' :: r => do
    let (p, s) ← takeKey s.length (skipSpaces r)
    let d ← d.settle.openTable p
    match s with
    | ']' :: s => some (p, d, s)
    | _ => none
  | _ => none

/-- What stands on a line before its comment: nothing, a header, or a key with a value. -/
def takeStatement (header : Path) (d : Document) (s : List Char) :
    Option (Path × Document × List Char) :=
  match s with
  | [] => some (header, d, s)
  | c :: _ =>
    if c = '\n' ∨ c = '#' then some (header, d, s)
    else if c = '[' then takeHeader d s
    else do
      let (k, v, s') ← takeMember (2 * s.length + 2) s
      some (header, ← d.assign header k v, s')

/-- The statements of a document, line after line. -/
def readLines : Nat → Path → Document → List Char → Option Table
  | 0, _, _, _ => none
  | n + 1, header, d, s => do
    let (header, d, s) ← takeStatement header d (skipSpaces s)
    match ← skipComment (skipSpaces s) with
    | [] => some d.root
    | '\n' :: s => readLines n header d s
    | _ => none

/-- The root table of a document, if the text is one. -/
def read? (s : List Char) : Option Table := readLines (s.length + 1) [] {} s

end DecimalComma.Toml
