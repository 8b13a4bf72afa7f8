import DecimalComma.Proofs.Expr.Literal

/-! Trees as their texts are read. The text of an operation has parentheses around it, but a small
number in it is written as what reads as a difference, and takes the operands beside it apart. -/
namespace DecimalComma

/-- A condition on every number of a tree. -/
def Expr.Leaves (p : Float → Prop) : Expr → Prop
  | number x => p x
  | group e => e.Leaves p
  | binary _ a b => a.Leaves p ∧ b.Leaves p

namespace Expr
open Grammar Layout

theorem Leaves.mono {p q : Float → Prop} (hpq : ∀ x, p x → q x) {e : Expr} (h : e.Leaves p) :
    e.Leaves q := by
  induction e with
  | number x => exact hpq x h
  | group e ih => exact ih h
  | binary op a b iha ihb => exact ⟨iha h.1, ihb h.2⟩

/-- A tree with parentheses around every operation. -/
def wrap : Expr → Expr
  | number x => number x
  | group e => group e.wrap
  | binary op a b => group (binary op a.wrap b.wrap)

/-- A tree without any parentheses. -/
def ungrouped : Expr → Expr
  | number x => number x
  | group e => e.ungrouped
  | binary op a b => binary op a.ungrouped b.ungrouped

/-- The symbols that the text of a tree is read as. -/
def written : Expr → List Symbol
  | number x =>
    if isTypeable x then [.number x]
    else if Double.isFinite x then [.number (leading x), .operation .sub, .number (places x)]
    else []
  | group e => .opening :: (e.written ++ [.closing])
  | binary op a b => .opening :: (a.written ++ .operation op :: b.written ++ [.closing])

/-- An operation before a second operand that may be a bare difference. -/
def attach (op : Operation) (a : Expr) : Expr → Expr
  | binary .sub m k => match op with
    | .add | .sub => binary op a (binary .sub m k)
    | .mul | .div | .pow => binary .sub (binary op a m) k
  | b => binary op a b

/-- An operation between operands that may be bare differences. -/
def join (op : Operation) : Expr → Expr → Expr
  | binary .sub m k, b => binary .sub m (attach op k b)
  | a, b => attach op a b

/-- The tree that the text of a tree with finite numbers is read as. -/
def reread : Expr → Expr
  | number x =>
    if isTypeable x then number x else binary .sub (number (leading x)) (number (places x))
  | group e => group e.reread
  | binary op a b => group (join op a.reread b.reread)

theorem value_ungrouped (e : Expr) : e.ungrouped.value = e.value := by
  induction e with
  | number x => rfl
  | group e ih => exact ih
  | binary op a b iha ihb => rw [ungrouped, value, iha, ihb, value]

theorem ungrouped_wrap (e : Expr) : e.wrap.ungrouped = e.ungrouped := by
  induction e with
  | number x => rfl
  | group e ih => exact ih
  | binary op a b iha ihb =>
    show binary op a.wrap.ungrouped b.wrap.ungrouped = _
    rw [iha, ihb, ungrouped]

theorem value_wrap (e : Expr) : e.wrap.value = e.value := by
  rw [← value_ungrouped, ungrouped_wrap, value_ungrouped]

/-- An operand of a text: an atom or a bare difference of atoms. -/
inductive IsOperand : Expr → Prop where
  | atom {e : Expr} (h : e.Fits .atomic) : IsOperand e
  | difference {m k : Expr} (hm : m.Fits .atomic) (hk : k.Fits .atomic) :
      IsOperand (binary .sub m k)

theorem Fits.multiplicative {e : Expr} (h : e.Fits .atomic) : e.Fits .multiplicative :=
  .operand .multiplicative (.operand .power h)

theorem fits_difference {m k : Expr} (hm : m.Fits .multiplicative) (hk : k.Fits .additive) :
    (binary .sub m k).Fits .additive :=
  .chain .additive hm .sub hk

theorem attach_of_atom (op : Operation) (a : Expr) {b : Expr} (h : b.Fits .atomic) :
    attach op a b = binary op a b := by
  cases h with
  | number => rfl
  | group => rfl
  | operand hm => cases hm
  | chain hm => cases hm

theorem join_of_atom (op : Operation) {a : Expr} (b : Expr) (h : a.Fits .atomic) :
    join op a b = attach op a b := by
  cases h with
  | number => rfl
  | group => rfl
  | operand hm => cases hm
  | chain hm => cases hm

theorem fits_tight {op : Operation} (h : op = .mul ∨ op = .div ∨ op = .pow) {a b : Expr}
    (ha : a.Fits .atomic) (hb : b.Fits .atomic) : (binary op a b).Fits .multiplicative := by
  have ha' : a.Fits .power := .operand .power ha
  have hb' := hb.multiplicative
  rcases h with rfl | rfl | rfl
  · exact .chain .multiplicative ha' .mul hb'
  · exact .chain .multiplicative ha' .div hb'
  · exact .operand .multiplicative (.chain .power ha .pow (.operand .power hb))

theorem fits_binary (op : Operation) {a b : Expr} (ha : a.Fits .atomic) (hb : b.Fits .atomic) :
    (binary op a b).Fits .additive := by
  cases op with
  | add => exact .chain .additive ha.multiplicative .add hb.additive
  | sub => exact .chain .additive ha.multiplicative .sub hb.additive
  | mul => exact (fits_tight (.inl rfl) ha hb).additive
  | div => exact (fits_tight (.inr (.inl rfl)) ha hb).additive
  | pow => exact (fits_tight (.inr (.inr rfl)) ha hb).additive

theorem fits_attach (op : Operation) {a b : Expr} (ha : a.Fits .atomic) (hb : IsOperand b) :
    (attach op a b).Fits .additive := by
  cases hb with
  | atom hb =>
    rw [attach_of_atom op a hb]
    exact fits_binary op ha hb
  | difference hm hk =>
    have hdiff := fits_difference hm.multiplicative hk.additive
    cases op with
    | add => exact .chain .additive ha.multiplicative .add hdiff
    | sub => exact .chain .additive ha.multiplicative .sub hdiff
    | mul => exact fits_difference (fits_tight (.inl rfl) ha hm) hk.additive
    | div => exact fits_difference (fits_tight (.inr (.inl rfl)) ha hm) hk.additive
    | pow => exact fits_difference (fits_tight (.inr (.inr rfl)) ha hm) hk.additive

theorem fits_join (op : Operation) {a b : Expr} (ha : IsOperand a) (hb : IsOperand b) :
    (join op a b).Fits .additive := by
  cases ha with
  | atom ha =>
    rw [join_of_atom op b ha]
    exact fits_attach op ha hb
  | difference hm hk => exact fits_difference hm.multiplicative (fits_attach op hk hb)

theorem symbols_attach (op : Operation) (a b : Expr) :
    (attach op a b).symbols = a.symbols ++ .operation op :: b.symbols := by
  unfold attach
  split
  · cases op <;> simp [symbols]
  · rfl

theorem symbols_join (op : Operation) (a b : Expr) :
    (join op a b).symbols = a.symbols ++ .operation op :: b.symbols := by
  unfold join
  split
  · rw [symbols, symbols_attach, symbols, List.append_assoc, List.cons_append]
  · exact symbols_attach op _ _

theorem IsOperand.additive {e : Expr} (h : IsOperand e) : e.Fits .additive := by
  cases h with
  | atom h => exact h.additive
  | difference hm hk => exact fits_difference hm.multiplicative hk.additive

theorem isOperand_reread (e : Expr) : IsOperand e.reread := by
  induction e with
  | number x =>
    unfold reread
    split_ifs
    · exact .atom (.number x)
    · exact .difference (.number _) (.number _)
  | group e ih => exact .atom (.group ih.additive)
  | binary op a b iha ihb => exact .atom (.group (fits_join op iha ihb))

theorem fits_reread (e : Expr) : e.reread.Fits .additive := (isOperand_reread e).additive

/-- The text of a tree with finite numbers has the symbols of the tree that it is read as. -/
theorem symbols_reread {e : Expr} (h : e.Leaves fun x => Double.isFinite x = true) :
    e.reread.symbols = e.written := by
  induction e with
  | number x =>
    unfold reread written
    split_ifs with ht hf
    · rfl
    · rfl
    · exact absurd h hf
  | group e ih => rw [reread, symbols, ih h, written]
  | binary op a b iha ihb =>
    rw [reread, symbols, symbols_join, iha h.1, ihb h.2, written]

theorem fits_wrap (e : Expr) : e.wrap.Fits .atomic := by
  induction e with
  | number x => exact .number x
  | group e ih => exact .group ih.additive
  | binary op a b iha ihb => exact .group (fits_binary op iha ihb)

theorem reread_eq_wrap {e : Expr} (h : e.Leaves fun x => isTypeable x = true) :
    e.reread = e.wrap := by
  induction e with
  | number x => exact if_pos h
  | group e ih => rw [reread, wrap, ih h]
  | binary op a b iha ihb =>
    rw [reread, wrap, iha h.1, ihb h.2, join_of_atom op _ a.fits_wrap,
      attach_of_atom op _ b.fits_wrap]

end Expr
end DecimalComma
