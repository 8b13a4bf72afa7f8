import DecimalComma.Double.Basic

/-! JSON documents. Numbers are binary64 values, and the members of an object keep their order. -/
namespace DecimalComma

inductive Json where
  | null
  | bool (value : Bool)
  | number (value : Float)
  | string (value : String)
  | array (items : List Json)
  | object (members : List (String × Json))

namespace Json

/-- The value of a member; of several members of one name the last counts. -/
def member? (name : String) : List (String × Json) → Option Json
  | [] => none
  | (n, j) :: ms => (member? name ms).or (if n = name then some j else none)

theorem sizeOf_member_lt {name : String} {ms : List (String × Json)} {j : Json}
    (h : member? name ms = some j) : sizeOf j < sizeOf ms := by
  induction ms with
  | nil => simp [member?] at h
  | cons m ms ih =>
    obtain ⟨n, k⟩ := m
    simp only [member?] at h
    cases hm : member? name ms with
    | some i =>
      have := ih (by simpa [hm] using h)
      simp only [List.cons.sizeOf_spec]; omega
    | none =>
      simp only [hm, Option.none_or] at h
      split at h
      · cases h; simp only [List.cons.sizeOf_spec, Prod.mk.sizeOf_spec]; omega
      · cases h

mutual

/-- How deep arrays and objects are nested, those that hold nothing not counted. -/
def depth : Json → Nat
  | .array js => depthOfItems js
  | .object ms => depthOfMembers ms
  | _ => 0

def depthOfItems : List Json → Nat
  | [] => 0
  | j :: js => max (j.depth + 1) (depthOfItems js)

def depthOfMembers : List (String × Json) → Nat
  | [] => 0
  | (_, j) :: ms => max (j.depth + 1) (depthOfMembers ms)

end

/-- The words that are documents by themselves, those for numbers that are not finite among them. -/
def words : List (List Char × Json) :=
  [("null".toList, null), ("true".toList, bool true), ("false".toList, bool false),
    ("NaN".toList, number Double.nan), ("Infinity".toList, number (Double.infinity false)),
    ("-Infinity".toList, number (Double.infinity true))]

/-- The characters that a letter behind a backslash stands for. -/
def escapes : List (Char × Char) :=
  [('"', '"'), ('\\', '\\'), ('/', '/'), ('b', '\x08'), ('f', '\x0c'), ('n', '\n'), ('r', '\r'),
    ('t', '\t')]

end DecimalComma.Json
