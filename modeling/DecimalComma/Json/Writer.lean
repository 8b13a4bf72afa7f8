import DecimalComma.Decimal.Layout
import DecimalComma.Json.Basic
import DecimalComma.Text.Quoted

/-! JSON texts of documents: without any space, or with a line for each item, indented by its depth.
-/
namespace DecimalComma.Json

/-- One character of a string: escaped by its letter if it has one, by number if it is a control.
The solidus needs no escape. -/
def escape (c : Char) : List Char :=
  match escapes.find? fun (_, d) => d = c && c ≠ '/' with
  | some (e, _) => ['\\', e]
  | none => if c.toNat < 0x20 then '\\' :: 'u' :: Text.hex 4 c.toNat else [c]

def writeString (s : String) : String :=
  String.ofList ('"' :: s.toList.flatMap escape ++ ['"'])

/-- Numbers that are not finite have no text and become nulls. -/
def writeNumber (x : Float) : String :=
  if Double.isFinite x then Layout.json.render x else "null"

/-- What goes before an item at a depth. -/
def lineBreak (indent : Option Nat) (depth : Nat) : String :=
  match indent with
  | none => ""
  | some n => String.ofList ('\n' :: List.replicate (n * depth) ' ')

mutual

/-- The text of a document that stands at a depth. -/
def write (indent : Option Nat) (depth : Nat) : Json → String
  | .null => "null"
  | .bool b => if b then "true" else "false"
  | .number x => writeNumber x
  | .string s => writeString s
  | .array [] => "[]"
  | .array (j :: js) =>
    "[" ++ lineBreak indent (depth + 1) ++ write indent (depth + 1) j ++
      writeItems indent (depth + 1) js ++ lineBreak indent depth ++ "]"
  | .object [] => "\x7b\x7d"
  | .object ((n, j) :: ms) =>
    "\x7b" ++ lineBreak indent (depth + 1) ++ writeString n ++
      (if indent.isSome then ": " else ":") ++ write indent (depth + 1) j ++
      writeMembers indent (depth + 1) ms ++ lineBreak indent depth ++ "\x7d"

/-- The items after the first one. -/
def writeItems (indent : Option Nat) (depth : Nat) : List Json → String
  | [] => ""
  | j :: js => "," ++ lineBreak indent depth ++ write indent depth j ++ writeItems indent depth js

/-- The members after the first one. -/
def writeMembers (indent : Option Nat) (depth : Nat) : List (String × Json) → String
  | [] => ""
  | (n, j) :: ms =>
    "," ++ lineBreak indent depth ++ writeString n ++ (if indent.isSome then ": " else ":") ++
      write indent depth j ++ writeMembers indent depth ms

end

/-- The text of a document, indented by a number of spaces for each level or not at all. -/
def render (indent : Option Nat) (j : Json) : String := write indent 0 j

end DecimalComma.Json
