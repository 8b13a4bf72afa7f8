/-! Cursors: a position over a fixed sequence that may leave it on either side. Outside the sequence
there is nothing to read; a position never wraps around. -/
namespace DecimalComma

structure Cursor (α : Type) where
  items : Array α
  position : Int := 0

namespace Cursor
variable {α : Type}

/-- The item at an index, if the index is inside. -/
def item? (c : Cursor α) (i : Int) : Option α := if 0 ≤ i then c.items[i.toNat]? else none

def first (c : Cursor α) : Option α := c.item? 0

def last (c : Cursor α) : Option α := c.item? (c.items.size - 1)

def current (c : Cursor α) : Option α := c.item? c.position

/-- A position with an item is inside. -/
theorem position_lt_of_current {c : Cursor α} {a : α} (h : c.current = some a) :
    0 ≤ c.position ∧ c.position < c.items.size := by
  unfold current item? at h
  split at h
  · have := (Array.getElem?_eq_some_iff.mp h).1
    omega
  · exact absurd h nofun

def forward (c : Cursor α) : Cursor α := { c with position := c.position + 1 }

def back (c : Cursor α) : Cursor α := { c with position := c.position - 1 }

/-- The items from the position on; none if the position is outside. -/
def rest (c : Cursor α) : List α :=
  if 0 ≤ c.position then c.items.toList.drop c.position.toNat else []

/-- The cursor on the first of a tail of its rest. -/
def moveTo (c : Cursor α) (tail : List α) : Cursor α :=
  { c with position := c.position + (c.rest.length - tail.length : Nat) }

def describe (c : Cursor α) : String :=
  s!"Cursor(position={toString c.position}, length={toString c.items.size})"

/-- The moves that a caller can make. -/
inductive Move where
  | forward
  | back
  | assign (position : Int)

def move (c : Cursor α) : Move → Cursor α
  | .forward => c.forward
  | .back => c.back
  | .assign p => { c with position := p }

/-- What a caller sees of a cursor over items of which some may be absent: an absent item reads like
the outside. A step answers the item it arrives at, an assignment answers nothing. -/
structure View (α : Type) where
  returned : Option α
  position : Int
  current : Option α
  first : Option α
  last : Option α
  isEnd : Bool
  text : String

def view (c : Cursor (Option α)) (returned : Option α) : View α :=
  ⟨returned, c.position, c.current.join, c.first.join, c.last.join, c.current.join.isNone,
    c.describe⟩

/-- The views before the first move and after each one. -/
def views (c : Cursor (Option α)) (moves : List Move) : List (View α) :=
  c.view none :: go c moves
where
  go (c : Cursor (Option α)) : List Move → List (View α)
    | [] => []
    | m :: ms =>
      let d := c.move m
      let returned := match m with
        | .assign _ => none
        | _ => d.current.join
      d.view returned :: go d ms

end DecimalComma.Cursor
