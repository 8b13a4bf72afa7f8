import DecimalComma.Expr.Document
import DecimalComma.Proofs.Decimal.FloatText

/-! The nodes of a document: objects whose tag says which members they need, and below them the
operands. The reader answers node by node, from the type and the needed members alone, so that other
members change nothing. -/
namespace DecimalComma

/-- Induction over documents along the members of objects. -/
theorem Json.member_induction {P : Json → Prop}
    (h : ∀ j, (∀ ms field c, j = .object ms → member? field ms = some c → P c) → P j) (j : Json) :
    P j := by
  apply h
  intro ms field c hj hc
  have hlt : sizeOf c < sizeOf j := by
    rw [hj, Json.object.sizeOf_spec]
    have := sizeOf_member_lt hc
    omega
  exact member_induction h c
termination_by sizeOf j

namespace Json

variable {ms ns : List (String × Json)} {name field : String} {v c : Json}

theorem member?_append (name : String) (ms ns : List (String × Json)) :
    member? name (ms ++ ns) = (member? name ns).or (member? name ms) := by
  induction ms with
  | nil => simp [member?]
  | cons m ms ih =>
    obtain ⟨n, j⟩ := m
    rw [List.cons_append, member?, ih, member?, Option.or_assoc]

theorem member?_insert (h : field ≠ name) :
    member? field (ms ++ (name, v) :: ns) = member? field (ms ++ ns) := by
  rw [member?_append, member?_append, member?, if_neg h.symm, Option.or_none]

theorem member?_of_last (h : member? field ns = none) :
    member? field (ms ++ (field, c) :: ns) = some c := by
  rw [member?_append, member?, h, if_pos rfl]
  rfl

end Json

namespace Document

/-- The tag that asks for a shape. -/
def Shape.tag : Shape → String
  | number => "number"
  | group => "parentheses"
  | binary op => op.tag

/-- The members that hold the nodes below. -/
def Shape.operands : Shape → List String
  | number => []
  | group => ["content"]
  | binary _ => ["left", "right"]

/-- The members that have to be there. -/
def Shape.fields : Shape → List String
  | number => ["value"]
  | shape => shape.operands

/-- The members are those of a node with a valid tag. -/
def Tagged (ms : List (String × Json)) (shape : Shape) : Prop :=
  Json.member? "type" ms = some (.string shape.tag)

variable {path place : List String} {ms ns : List (String × Json)} {shape : Shape}
  {field name tag : String} {op : Operation} {j c v : Json} {x : Float} {e : Expr}

theorem ofTag?_tag (shape : Shape) : Shape.ofTag? shape.tag = some shape := by
  cases shape with
  | number => rfl
  | group => rfl
  | binary op => cases op <;> rfl

theorem eq_tag_of_ofTag? (h : Shape.ofTag? tag = some shape) : tag = shape.tag := by
  unfold Shape.ofTag? at h
  split_ifs at h with hn hg
  · cases h
    exact hn
  · cases h
    exact hg
  · obtain ⟨op, hop, rfl⟩ := Option.map_eq_some_iff.mp h
    exact (by simpa using List.find?_some hop : op.tag = tag).symm

theorem Tagged.unique {shape' : Shape} (h : Tagged ms shape) (h' : Tagged ms shape') :
    shape = shape' := by
  have htag : shape.tag = shape'.tag := by simpa using h.symm.trans h'
  have hof := ofTag?_tag shape
  rw [htag, ofTag?_tag] at hof
  exact (Option.some.inj hof).symm

/-- What the reader answers at a field that holds a node. -/
def operand (place : List String) (field : String) (ms : List (String × Json)) :
    Except (List Fault) Expr :=
  match Json.member? field ms with
  | none => .error [⟨.fieldMissing, place⟩]
  | some c => check place c

theorem operand_of_none (h : Json.member? field ms = none) :
    operand place field ms = .error [⟨.fieldMissing, place⟩] := by
  unfold operand
  rw [h]

theorem operand_of_some (h : Json.member? field ms = some c) :
    operand place field ms = check place c := by
  unfold operand
  rw [h]

theorem match_member?_eq_operand :
    (match _h : Json.member? field ms with
      | none => .error [⟨.fieldMissing, place⟩]
      | some c => check place c) = operand place field ms := by
  split
  · rename_i hnone
    exact (operand_of_none hnone).symm
  · rename_i hsome
    exact (operand_of_some hsome).symm

/-- What the reader answers at a node with a valid tag. -/
def checkFields (path : List String) (ms : List (String × Json)) :
    Shape → Except (List Fault) Expr
  | .number => match Json.member? "value" ms with
    | none => .error [⟨.fieldMissing, path ++ ["number", "value"]⟩]
    | some v =>
      ((readValue v).map .number).mapError fun p => [⟨p, path ++ ["number", "value"]⟩]
  | .group => (operand (path ++ ["parentheses", "content"]) "content" ms).map .group
  | .binary op =>
    combine op (operand (path ++ [op.tag, "left"]) "left" ms)
      (operand (path ++ [op.tag, "right"]) "right" ms)

theorem check_of_tagged (h : Tagged ms shape) :
    check path (.object ms) = checkFields path ms shape := by
  have htype : Json.member? "type" ms = some (.string shape.tag) := h
  rw [check]
  simp only [htype, ofTag?_tag]
  cases shape with
  | number =>
    dsimp only [checkFields, Shape.tag]
    cases Json.member? "value" ms with
    | none => rfl
    | some v =>
      dsimp only
      cases readValue v <;> rfl
  | group =>
    dsimp only [checkFields, Shape.tag]
    split
    · rename_i hnone
      rw [operand_of_none hnone]
      rfl
    · rename_i hsome
      rw [operand_of_some hsome]
  | binary op => exact congrArg₂ (combine op) match_member?_eq_operand match_member?_eq_operand

theorem check_number {v : Json} (ht : Json.member? "type" ms = some (.string "number"))
    (hv : Json.member? "value" ms = some v) :
    check path (.object ms) =
      ((readValue v).map .number).mapError fun p => [⟨p, path ++ ["number", "value"]⟩] := by
  have htag : Tagged ms .number := ht
  rw [check_of_tagged htag, checkFields, hv]

theorem check_group {c : Json} (ht : Json.member? "type" ms = some (.string "parentheses"))
    (hc : Json.member? "content" ms = some c) :
    check path (.object ms) = (check (path ++ ["parentheses", "content"]) c).map .group := by
  have htag : Tagged ms .group := ht
  rw [check_of_tagged htag, checkFields, operand_of_some hc]

theorem check_binary {op : Operation} {l r : Json}
    (ht : Json.member? "type" ms = some (.string op.tag)) (hl : Json.member? "left" ms = some l)
    (hr : Json.member? "right" ms = some r) :
    check path (.object ms) =
      combine op (check (path ++ [op.tag, "left"]) l) (check (path ++ [op.tag, "right"]) r) := by
  have htag : Tagged ms (.binary op) := ht
  rw [check_of_tagged htag, checkFields, operand_of_some hl, operand_of_some hr]

/-- The ways in which an object has no valid tag, or that it has one. -/
theorem type_cases (ms : List (String × Json)) :
    Json.member? "type" ms = none ∨
      (∃ t, Json.member? "type" ms = some t ∧ ∀ shape : Shape, t ≠ .string shape.tag) ∨
      ∃ shape, Tagged ms shape := by
  cases ht : Json.member? "type" ms with
  | none => exact .inl rfl
  | some t =>
    by_cases h : ∃ shape : Shape, t = .string shape.tag
    · obtain ⟨shape, rfl⟩ := h
      exact .inr (.inr ⟨shape, ht⟩)
    · exact .inr (.inl ⟨t, rfl, fun shape heq => h ⟨shape, heq⟩⟩)

theorem check_of_notObject (h : ∀ ms, j ≠ .object ms) :
    check path j = .error [⟨.notObject, path⟩] := by
  rw [check]
  exact h

theorem check_of_tagMissing (h : Json.member? "type" ms = none) :
    check path (.object ms) = .error [⟨.tagMissing, path⟩] := by
  rw [check]
  simp only [h]

theorem check_of_tagUnknown {t : Json} (h : Json.member? "type" ms = some t)
    (ht : ∀ shape : Shape, t ≠ .string shape.tag) :
    check path (.object ms) = .error [⟨.tagUnknown, path⟩] := by
  rw [check]
  simp only [h]
  cases t with
  | string s =>
    cases hs : Shape.ofTag? s with
    | none => simp only [hs]
    | some shape => exact absurd (congrArg Json.string (eq_tag_of_ofTag? hs)) (ht shape)
  | _ => rfl

/-- The documents that stand for a number, among them the texts that hold one. -/
inductive HoldsNumber : Json → Float → Prop where
  | number (x : Float) : HoldsNumber (.number x) x
  | bool (b : Bool) :
      HoldsNumber (.bool b) (Double.ofOrdinal false (if b then Double.oneOrdinal else 0))
  | text {s : String} {x : Float} (h : FloatText.Denotes s.toList x) : HoldsNumber (.string s) x

/-- What is wrong with a document that stands for no number. -/
def numberProblem : Json → Problem
  | .string _ => .numberUnreadable
  | _ => .numberExpected

theorem readValue_string (s : String) :
    readValue (.string s) =
      match FloatText.read? s.toList with
      | some x => .ok x
      | none => .error .numberUnreadable := rfl

theorem readValue_eq_ok_iff : readValue v = .ok x ↔ HoldsNumber v x := by
  constructor
  · intro h
    cases v with
    | number y =>
      cases h
      exact .number _
    | bool b =>
      cases h
      exact .bool _
    | string s =>
      rw [readValue_string] at h
      cases hr : FloatText.read? s.toList with
      | none => simp [hr] at h
      | some y =>
        rw [hr] at h
        cases h
        exact .text (FloatText.read?_eq_some_iff.mp hr)
    | null => cases h
    | array js => cases h
    | object ms => cases h
  · intro h
    cases h with
    | number => rfl
    | bool => rfl
    | text h => rw [readValue_string, FloatText.read?_eq_some_iff.mpr h]

theorem readValue_of_not (h : ∀ x, ¬ HoldsNumber v x) :
    readValue v = .error (numberProblem v) := by
  cases v with
  | number x => exact absurd (.number x) (h x)
  | bool b => exact absurd (.bool b) (h _)
  | string s =>
    rw [readValue_string]
    cases hr : FloatText.read? s.toList with
    | none => rfl
    | some x => exact absurd (.text (FloatText.read?_eq_some_iff.mp hr)) (h x)
  | null => rfl
  | array js => rfl
  | object ms => rfl

/-- The expression with the nodes of a document. -/
inductive Mirrors : Json → Expr → Prop where
  | number {ms : List (String × Json)} {v : Json} {x : Float} (ht : Tagged ms .number)
      (hv : Json.member? "value" ms = some v) (hx : HoldsNumber v x) :
      Mirrors (.object ms) (.number x)
  | group {ms : List (String × Json)} {c : Json} {e : Expr} (ht : Tagged ms .group)
      (hc : Json.member? "content" ms = some c) (he : Mirrors c e) :
      Mirrors (.object ms) (.group e)
  | binary {ms : List (String × Json)} {op : Operation} {l r : Json} {a b : Expr}
      (ht : Tagged ms (.binary op)) (hl : Json.member? "left" ms = some l)
      (hr : Json.member? "right" ms = some r) (ha : Mirrors l a) (hb : Mirrors r b) :
      Mirrors (.object ms) (.binary op a b)

theorem check_of_mirrors (h : Mirrors j e) (path : List String) : check path j = .ok e := by
  induction h generalizing path with
  | number ht hv hx =>
    rw [check_number ht hv, readValue_eq_ok_iff.mpr hx]
    rfl
  | group ht hc he ih =>
    rw [check_group ht hc, ih]
    rfl
  | binary ht hl hr ha hb iha ihb =>
    rw [check_binary ht hl hr, iha, ihb]
    rfl

/-- A member is added to a node, under a name that the tag of the node has no use for. -/
inductive Padded : Json → Json → Prop where
  | root {ms ns : List (String × Json)} {name : String} (v : Json) (hn : name ≠ "type")
      (hf : ∀ shape, Tagged (ms ++ ns) shape → name ∉ shape.fields) :
      Padded (.object (ms ++ ns)) (.object (ms ++ (name, v) :: ns))
  | operand {ms ns : List (String × Json)} {shape : Shape} {field : String} {c d : Json}
      (ht : Tagged (ms ++ (field, c) :: ns) shape) (hf : field ∈ shape.operands)
      (hn : Json.member? field ns = none) (h : Padded c d) :
      Padded (.object (ms ++ (field, c) :: ns)) (.object (ms ++ (field, d) :: ns))

/-- A node is answered by its type, its value if it is a number, and its operands. -/
theorem check_congr (ht : Json.member? "type" ns = Json.member? "type" ms)
    (hv : Tagged ms .number → Json.member? "value" ns = Json.member? "value" ms)
    (ho : ∀ shape, Tagged ms shape → ∀ field ∈ shape.operands, ∀ place,
      operand place field ns = operand place field ms) :
    check path (.object ns) = check path (.object ms) := by
  rcases type_cases ms with h | ⟨t, h, hs⟩ | ⟨shape, h⟩
  · rw [check_of_tagMissing h, check_of_tagMissing (ht.trans h)]
  · rw [check_of_tagUnknown h hs, check_of_tagUnknown (ht.trans h) hs]
  · have hns : Tagged ns shape := ht.trans h
    rw [check_of_tagged h, check_of_tagged hns]
    have hop := ho shape h
    cases shape with
    | number => rw [checkFields, checkFields, hv h]
    | group => rw [checkFields, checkFields, hop "content" (by simp [Shape.operands])]
    | binary op =>
      rw [checkFields, checkFields, hop "left" (by simp [Shape.operands]),
        hop "right" (by simp [Shape.operands])]

theorem operand_congr (h : Json.member? field ns = Json.member? field ms) :
    operand place field ns = operand place field ms := by
  unfold operand
  rw [h]

theorem operands_subset_fields (shape : Shape) : shape.operands ⊆ shape.fields := by
  cases shape with
  | number => exact List.nil_subset _
  | group => exact List.Subset.refl _
  | binary op => exact List.Subset.refl _

theorem type_notMem_operands (shape : Shape) : "type" ∉ shape.operands := by
  cases shape <;> simp [Shape.operands]

theorem Padded.check_eq {j j' : Json} (h : Padded j j') (path : List String) :
    check path j' = check path j := by
  induction h generalizing path with
  | root v hn hf =>
    rename_i ms ns name
    have hfield {field : String} (hne : field ≠ name) :
        Json.member? field (ms ++ (name, v) :: ns) = Json.member? field (ms ++ ns) :=
      Json.member?_insert hne
    have hne {shape : Shape} (ht : Tagged (ms ++ ns) shape) {field : String}
        (hmem : field ∈ shape.fields) : field ≠ name := fun h => hf shape ht (h ▸ hmem)
    apply check_congr (hfield hn.symm)
    · exact fun ht => hfield (hne ht (by simp [Shape.fields]))
    · intro shape ht field hmem place
      exact operand_congr (hfield (hne ht (operands_subset_fields shape hmem)))
  | operand ht hf hn h ih =>
    rename_i ms ns shape field c d
    have hother {name : String} (hne : name ≠ field) :
        Json.member? name (ms ++ (field, d) :: ns) = Json.member? name (ms ++ (field, c) :: ns) := by
      rw [Json.member?_insert hne, Json.member?_insert hne]
    have htype : "type" ≠ field := fun h => type_notMem_operands shape (h ▸ hf)
    apply check_congr (hother htype)
    · intro hnumber
      cases ht.unique hnumber
      cases hf
    · intro shape' ht' name hmem place
      by_cases hname : name = field
      · subst hname
        rw [operand_of_some (Json.member?_of_last hn), operand_of_some (Json.member?_of_last hn)]
        exact ih place
      · exact operand_congr (hother hname)

end Document
end DecimalComma
