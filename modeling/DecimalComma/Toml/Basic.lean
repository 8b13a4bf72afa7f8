/-! TOML documents while they are read: nested tables, and which of their paths may still be opened
or extended. -/
namespace DecimalComma.Toml

/-- A value. Numbers, truth values, dates and times are told apart from the rest and not from each
other, since nothing asks for them. -/
inductive Value where
  | text (value : String)
  | scalar
  | list (items : List Value)
  | table (members : List (String × Value))

abbrev Table := List (String × Value)

/-- The keys from the root to a value. -/
abbrev Path := List String

def Table.set (k : String) (v : Value) (t : Table) : Table :=
  if (t.lookup k).isSome then t.map fun m => if m.1 = k then (k, v) else m else t ++ [(k, v)]

/-- Changes the table at a path, making the tables on the way that are missing. A list of tables
stands for its last one where lists may be passed. Fails where something else than a table is in the
way. -/
def Table.alter (throughLists : Bool) (change : Table → Option Table) : Path → Table → Option Table
  | [], t => change t
  | k :: ks, t =>
    match t.lookup k with
    | none => do return t.set k (.table (← alter throughLists change ks []))
    | some (.table u) => do return t.set k (.table (← alter throughLists change ks u))
    | some (.list vs) =>
      match throughLists, vs.getLast? with
      | true, some (.table u) => do
        return t.set k (.list (vs.dropLast ++ [.table (← alter throughLists change ks u)]))
      | _, _ => none
    | some _ => none

/-- Adds a member to a table, unless it is there. -/
def Table.add? (k : String) (v : Value) (t : Table) : Option Table :=
  if (t.lookup k).isSome then none else some (t ++ [(k, v)])

/-- Adds an empty table to the list under a key. -/
def Table.grow? (k : String) (t : Table) : Option Table :=
  match t.lookup k with
  | none => some (t ++ [(k, .list [.table []])])
  | some (.list vs) => some (t.set k (.list (vs ++ [.table []])))
  | some _ => none

def Value.isClosed : Value → Bool
  | list _ => true
  | table _ => true
  | _ => false

/-- The document read so far. Nothing can be added below a frozen path; an opened path cannot be
opened again by a header nor extended by a dotted key; a pending one is opened when the next header
comes. -/
structure Document where
  root : Table := []
  frozen : List Path := []
  opened : List Path := []
  pending : List Path := []

namespace Document

def isFrozen (d : Document) (p : Path) : Bool := d.frozen.any (·.isPrefixOf p)

/-- The document as the next header finds it. -/
def settle (d : Document) : Document := { d with opened := d.pending ++ d.opened, pending := [] }

/-- The header of a table. -/
def openTable (d : Document) (p : Path) : Option Document :=
  if p ∈ d.opened || d.isFrozen p then none
  else do
    let root ← Table.alter true some p d.root
    return { d with root, opened := p :: d.opened }

/-- The header of a table in a list: what was said about the tables before it no longer counts. -/
def openItem (d : Document) (p : Path) : Option Document :=
  match p.getLast? with
  | none => none
  | some k =>
    if d.isFrozen p then none
    else do
      let root ← Table.alter true (Table.grow? k) p.dropLast d.root
      let keep (q : Path) : Bool := !p.isPrefixOf q
      return { d with root, frozen := d.frozen.filter keep, opened := p :: d.opened.filter keep }

/-- A key with its value under a header. The tables that a dotted key runs through are pending. -/
def assign (d : Document) (header key : Path) (v : Value) : Option Document :=
  match key.getLast? with
  | none => none
  | some k =>
    let through := (List.range (key.length - 1)).map fun i => header ++ key.take (i + 1)
    let parent := header ++ key.dropLast
    if through.any (· ∈ d.opened) || d.isFrozen parent then none
    else do
      let root ← Table.alter true (Table.add? k v) parent d.root
      return { d with
        root
        pending := through ++ d.pending
        frozen := if v.isClosed then (header ++ key) :: d.frozen else d.frozen }

end DecimalComma.Toml.Document
