import DecimalComma.Proofs.Expr.Node
import DecimalComma.Proofs.Expr.Rereading
import DecimalComma.Proofs.Json.Roundtrip

/-! Trees are read back from their documents. What has no document is a number that is not finite:
every such leaf is a fault of its own, which is found where the leaf stands. -/
namespace DecimalComma.Expr
open Document

/-- The numbers of a tree from left to right, each with the tags and fields on the way to it. -/
def places : Expr → List (List String × Float)
  | number x => [(["number", "value"], x)]
  | group e => e.places.map (Prod.map (["parentheses", "content"] ++ ·) id)
  | binary op a b =>
    a.places.map (Prod.map ([op.tag, "left"] ++ ·) id) ++
      b.places.map (Prod.map ([op.tag, "right"] ++ ·) id)

/-- The paths to the numbers that are not finite. -/
def unwritten (e : Expr) : List (List String) :=
  (e.places.filter fun p => !Double.isFinite p.2).map Prod.fst

/-- What a document at a path is read as. -/
def verdict (path : List String) (e : Expr) : Except (List Fault) Expr :=
  if e.unwritten = [] then .ok e
  else .error (e.unwritten.map fun p => ⟨.numberExpected, path ++ p⟩)

variable (path : List String)

theorem unwritten_number (x : Float) :
    (number x).unwritten = if Double.isFinite x then [] else [["number", "value"]] := by
  unfold unwritten places
  cases h : Double.isFinite x <;> simp [h]

theorem unwritten_map (ts : List String) (ps : List (List String × Float)) :
    ((ps.map (Prod.map (ts ++ ·) id)).filter fun p => !Double.isFinite p.2).map Prod.fst =
      ((ps.filter fun p => !Double.isFinite p.2).map Prod.fst).map (ts ++ ·) := by
  rw [List.filter_map, List.map_map, List.map_map]
  rfl

theorem unwritten_group (e : Expr) :
    (group e).unwritten = e.unwritten.map (["parentheses", "content"] ++ ·) :=
  unwritten_map _ _

theorem unwritten_binary (op : Operation) (a b : Expr) :
    (binary op a b).unwritten =
      a.unwritten.map ([op.tag, "left"] ++ ·) ++ b.unwritten.map ([op.tag, "right"] ++ ·) := by
  unfold unwritten
  rw [places, List.filter_append, List.map_append, unwritten_map, unwritten_map]

theorem unwritten_eq_nil_iff (e : Expr) :
    e.unwritten = [] ↔ e.Leaves fun x => Double.isFinite x = true := by
  induction e with
  | number x =>
    rw [unwritten_number]
    show _ ↔ Double.isFinite x = true
    split_ifs with h <;> simp [h]
  | group e ih =>
    rw [unwritten_group, List.map_eq_nil_iff]
    exact ih
  | binary op a b iha ihb =>
    rw [unwritten_binary, List.append_eq_nil_iff, List.map_eq_nil_iff, List.map_eq_nil_iff]
    exact and_congr iha ihb

theorem verdict_group (e : Expr) :
    (e.verdict (path ++ ["parentheses", "content"])).map .group = (group e).verdict path := by
  unfold verdict
  rw [unwritten_group]
  by_cases h : e.unwritten = []
  · rw [if_pos h, if_pos (by rw [h]; rfl)]
    rfl
  · rw [if_neg h, if_neg (by simpa using h), List.map_map]
    simp [Function.comp_def, Except.map]

theorem verdict_binary (op : Operation) (a b : Expr) :
    combine op (a.verdict (path ++ [op.tag, "left"])) (b.verdict (path ++ [op.tag, "right"])) =
      (binary op a b).verdict path := by
  unfold verdict
  rw [unwritten_binary]
  -- an operand with faults does not hide those of the other
  by_cases ha : a.unwritten = [] <;> by_cases hb : b.unwritten = [] <;>
    simp [ha, hb, combine, Function.comp_def]

theorem check_document (e : Expr) : check path e.document = e.verdict path := by
  induction e generalizing path with
  | number x =>
    rw [document, check_number rfl rfl]
    unfold verdict
    rw [unwritten_number]
    by_cases h : Double.isFinite x = true
    · rw [if_pos h, if_pos h, if_pos rfl]
      rfl
    · rw [if_neg h, if_neg h, if_neg (by simp)]
      rfl
  | group e ih => rw [document, check_group rfl rfl, ih, verdict_group]
  | binary op a b iha ihb => rw [document, check_binary rfl rfl rfl, iha, ihb, verdict_binary]

theorem finite_document (e : Expr) : e.document.Finite := by
  induction e with
  | number x =>
    have hvalue : (if Double.isFinite x then Json.number x else .null).Finite := by
      split_ifs with h
      · exact .number h
      · exact .null
    exact .object (List.forall_mem_cons.mpr ⟨.string _, List.forall_mem_singleton.mpr hvalue⟩)
  | group e ih =>
    exact .object (List.forall_mem_cons.mpr ⟨.string _, List.forall_mem_singleton.mpr ih⟩)
  | binary op a b iha ihb =>
    exact .object (List.forall_mem_cons.mpr ⟨iha, List.forall_mem_cons.mpr
      ⟨ihb, List.forall_mem_singleton.mpr (.string _)⟩⟩)

theorem ofText_dump_eq_verdict (indent : Option Nat) (e : Expr) :
    ofText none (e.dump indent) = e.verdict [] := by
  unfold ofText dump
  rw [Json.read?_render e.finite_document]
  show (if _ then _ else _) = _
  rw [if_neg (by simp), check_document]

/-- A tree is read back from the text of its document iff all its numbers are finite. Otherwise the
faults are the numbers that are not, from left to right. The indentation makes no difference. -/
theorem ofText_dump (indent : Option Nat) (e : Expr) :
    ((∃ e', ofText none (e.dump indent) = .ok e') ↔ e.Leaves fun x => Double.isFinite x = true) ∧
    ((e.Leaves fun x => Double.isFinite x = true) → ofText none (e.dump indent) = .ok e) ∧
    (¬ (e.Leaves fun x => Double.isFinite x = true) →
      ofText none (e.dump indent) =
        .error ((e.places.filter fun p => !Double.isFinite p.2).map
          fun p => ⟨.numberExpected, p.1⟩)) ∧
    ∀ indent', ofText none (e.dump indent') = ofText none (e.dump indent) := by
  simp only [ofText_dump_eq_verdict, ← unwritten_eq_nil_iff]
  refine ⟨⟨?_, ?_⟩, ?_, ?_, fun _ => trivial⟩
  · rintro ⟨e', h⟩
    by_contra hne
    rw [verdict, if_neg hne] at h
    cases h
  · intro h
    exact ⟨e, if_pos h⟩
  · intro h
    exact if_pos h
  · intro h
    rw [verdict, if_neg h, unwritten, List.map_map]
    rfl

end DecimalComma.Expr
