import DecimalComma.Decimal.FloatText
import DecimalComma.Expr.Basic
import DecimalComma.Json.Reader
import DecimalComma.Json.Writer

/-! Expressions as documents: an object for each node, whose member `type` tells the nodes apart. A
document that is no expression has a list of faults, each with the path that leads to it. -/
namespace DecimalComma

/-- The document of an expression. A number that is not finite has no document but null. -/
def Expr.document : Expr → Json
  | number x => .object [("type", .string "number"),
      ("value", if Double.isFinite x then .number x else .null)]
  | group e => .object [("type", .string "parentheses"), ("content", e.document)]
  | binary op l r => .object [("left", l.document), ("right", r.document), ("type", .string op.tag)]

/-- The text of the document, indented by a number of spaces for each level or not at all. -/
def Expr.dump (indent : Option Nat) (e : Expr) : String := e.document.render indent

namespace Document

/-- What can be wrong with a document. -/
inductive Problem where
  | notJson
  | notObject
  | tagMissing
  | tagUnknown
  | fieldMissing
  | numberUnreadable
  | numberExpected
deriving DecidableEq, Repr

/-- A problem and the tags and fields on the way to it, from the root down. -/
structure Fault where
  problem : Problem
  path : List String
deriving DecidableEq, Repr

/-- The value of a number node. Booleans count as one and zero, texts as the numbers they hold. -/
def readValue : Json → Except Problem Float
  | .number x => .ok x
  | .bool b => .ok (Double.ofOrdinal false (if b then Double.oneOrdinal else 0))
  | .string s => match FloatText.read? s.toList with
    | some x => .ok x
    | none => .error .numberUnreadable
  | _ => .error .numberExpected

/-- What a tag asks for. -/
inductive Shape where
  | number
  | group
  | binary (op : Operation)

def Shape.ofTag? (s : String) : Option Shape :=
  if s = "number" then some .number
  else if s = "parentheses" then some .group
  else (Operation.ofTag? s).map .binary

/-- The faults of two operands, those of the left one first, or the expression they make. -/
def combine (op : Operation) :
    Except (List Fault) Expr → Except (List Fault) Expr → Except (List Fault) Expr
  | .ok l, .ok r => .ok (.binary op l r)
  | .ok _, .error fs => .error fs
  | .error fs, .ok _ => .error fs
  | .error fs, .error gs => .error (fs ++ gs)

/-- The expression of a document that stands at a path, or all its faults. -/
def check (path : List String) (j : Json) : Except (List Fault) Expr :=
  match j with
  | .object ms =>
    match Json.member? "type" ms with
    | none => .error [⟨.tagMissing, path⟩]
    | some (.string tag) =>
      match Shape.ofTag? tag with
      | none => .error [⟨.tagUnknown, path⟩]
      | some .number =>
        let place := path ++ [tag, "value"]
        match Json.member? "value" ms with
        | none => .error [⟨.fieldMissing, place⟩]
        | some v => match readValue v with
          | .ok x => .ok (.number x)
          | .error p => .error [⟨p, place⟩]
      | some .group =>
        let place := path ++ [tag, "content"]
        match _h : Json.member? "content" ms with
        | none => .error [⟨.fieldMissing, place⟩]
        | some c => (check place c).map .group
      | some (.binary op) =>
        let left := match _h : Json.member? "left" ms with
          | none => .error [⟨.fieldMissing, path ++ [tag, "left"]⟩]
          | some l => check (path ++ [tag, "left"]) l
        let right := match _h : Json.member? "right" ms with
          | none => .error [⟨.fieldMissing, path ++ [tag, "right"]⟩]
          | some r => check (path ++ [tag, "right"]) r
        combine op left right
    | some _ => .error [⟨.tagUnknown, path⟩]
  | _ => .error [⟨.notObject, path⟩]
termination_by sizeOf j
decreasing_by all_goals have := Json.sizeOf_member_lt _h; simp only [Json.object.sizeOf_spec]; omega

/-- The depth to which documents are read by default. -/
def depthLimit : Nat := 200

end Document

/-- The expression that a JSON text holds, or all the faults of the text. A text nested deeper than
the limit, if there is one, counts as no document. -/
def Expr.ofText (depthLimit : Option Nat) (s : String) : Except (List Document.Fault) Expr :=
  match Json.read? s with
  | none => .error [⟨.notJson, []⟩]
  | some j =>
    if depthLimit.any (· < j.depth) then .error [⟨.notJson, []⟩] else Document.check [] j

end DecimalComma
