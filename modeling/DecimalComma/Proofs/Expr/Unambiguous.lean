import DecimalComma.Proofs.Expr.Rendering

/-! The text of a tree tells the tree. Parentheses stand around groups and around operations, and the
texts of numbers have none; so the end of an operand is where its text and what follows it say, and
two trees have one text only if they have one form and their numbers have the same texts. -/
namespace DecimalComma

theorem Operation.symbol_injective : Function.Injective symbol := by
  intro a b h
  cases a <;> cases b <;> simp [symbol] at h ⊢

namespace Expr
open Double Layout

/-- Trees of one form, with numbers in the same places that are related. -/
inductive Matches (r : Float → Float → Prop) : Expr → Expr → Prop where
  | number {x y : Float} (h : r x y) : Matches r (number x) (number y)
  | group {a b : Expr} (h : Matches r a b) : Matches r (group a) (group b)
  | binary (op : Operation) {a a' b b' : Expr} (ha : Matches r a a') (hb : Matches r b b') :
      Matches r (binary op a b) (binary op a' b')

variable {r r' : Float → Float → Prop} {a b : Expr} {s t : List Char} {x y : Float}

theorem Matches.mono (h : Matches r a b) {p : Float → Prop} (ha : a.Leaves p)
    (hr : ∀ x y, p x → r x y → r' x y) : Matches r' a b := by
  induction h with
  | number h => exact .number (hr _ _ ha h)
  | group _ ih => exact .group (ih ha)
  | binary op _ _ iha ihb => exact .binary op (iha ha.1) (ihb ha.2)

theorem same_iff_matches : a.same b ↔ Matches (fun x y => Double.same x y) a b := by
  constructor
  · intro h
    induction a generalizing b with
    | number x => cases b with
      | number y => exact .number h
      | _ => cases h
    | group a ih => cases b with
      | group b => exact .group (ih h)
      | _ => cases h
    | binary op a₁ a₂ ih₁ ih₂ => cases b with
      | binary op' b₁ b₂ =>
        simp only [same, Bool.and_eq_true, decide_eq_true_eq] at h
        obtain ⟨⟨rfl, h₁⟩, h₂⟩ := h
        exact .binary op (ih₁ h₁) (ih₂ h₂)
      | _ => cases h
  · intro h
    induction h with
    | number h => exact h
    | group _ ih => exact ih
    | binary op _ _ ih₁ ih₂ => simp [same, ih₁, ih₂]

/-- What follows the text of a tree within another. -/
def Closes (s : List Char) : Prop := ∀ c ∈ s.head?, c = ' ' ∨ c = ')'

theorem takeWhile_renderLiteral (x : Float) (hs : Closes s) :
    ((renderLiteral x).toList ++ s).takeWhile (fun c => c ≠ ' ' ∧ c ≠ ')') =
      (renderLiteral x).toList := by
  apply Token.takeWhile_append_of_head
  · intro c hc
    rw [decide_eq_true_eq]
    constructor
    all_goals
      intro h
      subst h
      exact absurd (isAlphanum_or_of_mem_renderLiteral hc) (by decide)
  · intro c hc
    simpa [imp_iff_not_or] using hs c hc

theorem renderLiteral_append_inj (hs : Closes s) (ht : Closes t)
    (h : (renderLiteral x).toList ++ s = (renderLiteral y).toList ++ t) :
    renderLiteral x = renderLiteral y ∧ s = t := by
  have hx := takeWhile_renderLiteral x hs
  rw [h, takeWhile_renderLiteral y ht] at hx
  rw [hx] at h
  exact ⟨String.toList_inj.mp hx.symm, List.append_cancel_left h⟩

theorem renderLiteral_append_ne (x : Float) (hs : Closes s) (t : List Char) :
    (renderLiteral x).toList ++ s ≠ '(' :: t := by
  intro h
  cases hx : (renderLiteral x).toList with
  | nil =>
    rw [hx, List.nil_append] at h
    exact absurd (hs '(' (h ▸ rfl)) (by decide)
  | cons c cs =>
    rw [hx, List.cons_append] at h
    obtain ⟨rfl, -⟩ := List.cons.inj h
    have hc := isAlphanum_or_of_mem_renderLiteral (x := x) (hx ▸ List.mem_cons_self)
    exact absurd hc (by decide)

theorem closes_blank (s : List Char) : Closes (' ' :: s) := by simp [Closes]

theorem closes_closing (s : List Char) : Closes (')' :: s) := by simp [Closes]

theorem text_group_append (e : Expr) (s : List Char) :
    (group e).text.toList ++ s = '(' :: (e.text.toList ++ ')' :: s) := by
  simp [toList_text_group]

theorem text_binary_append (op : Operation) (a b : Expr) (s : List Char) :
    (binary op a b).text.toList ++ s = '(' :: (a.text.toList ++
      ' ' :: (op.symbol.toList ++ ' ' :: (b.text.toList ++ ')' :: s))) := by
  simp [toList_text_binary]

theorem symbol_append_inj {op op' : Operation}
    (h : op.symbol.toList ++ s = op'.symbol.toList ++ t) : op = op' ∧ s = t := by
  obtain ⟨c, -, hc⟩ := exists_symbol op
  obtain ⟨c', -, hc'⟩ := exists_symbol op'
  rw [hc, hc'] at h
  obtain ⟨rfl, hst⟩ := List.cons.inj h
  exact ⟨Operation.symbol_injective (String.toList_inj.mp (hc.trans hc'.symm)), hst⟩

/-- Texts of trees with something behind them are the same only if the trees match. -/
theorem matches_of_text_append (hs : Closes s) (ht : Closes t)
    (h : a.text.toList ++ s = b.text.toList ++ t) :
    Matches (fun x y => renderLiteral x = renderLiteral y) a b ∧ s = t := by
  induction a generalizing b s t with
  | number x => cases b with
    | number y =>
      obtain ⟨hxy, hst⟩ := renderLiteral_append_inj hs ht h
      exact ⟨.number hxy, hst⟩
    | group b =>
      rw [text_group_append] at h
      exact absurd h (renderLiteral_append_ne x hs _)
    | binary op b₁ b₂ =>
      rw [text_binary_append] at h
      exact absurd h (renderLiteral_append_ne x hs _)
  | group a ih =>
    rw [text_group_append] at h
    cases b with
    | number y => exact absurd h.symm (renderLiteral_append_ne y ht _)
    | group b =>
      rw [text_group_append] at h
      obtain ⟨hm, hrest⟩ := ih (closes_closing s) (closes_closing t) (List.cons.inj h).2
      exact ⟨.group hm, (List.cons.inj hrest).2⟩
    | binary op b₁ b₂ =>
      -- behind the first operand of an operation there is a blank
      rw [text_binary_append] at h
      obtain ⟨-, hrest⟩ := ih (closes_closing s) (closes_blank _) (List.cons.inj h).2
      exact absurd (List.cons.inj hrest).1 (by decide)
  | binary op a₁ a₂ ih₁ ih₂ =>
    rw [text_binary_append] at h
    cases b with
    | number y => exact absurd h.symm (renderLiteral_append_ne y ht _)
    | group b =>
      rw [text_group_append] at h
      obtain ⟨-, hrest⟩ := ih₁ (closes_blank _) (closes_closing t) (List.cons.inj h).2
      exact absurd (List.cons.inj hrest).1 (by decide)
    | binary op' b₁ b₂ =>
      rw [text_binary_append] at h
      obtain ⟨hm₁, hrest⟩ := ih₁ (closes_blank _) (closes_blank _) (List.cons.inj h).2
      obtain ⟨rfl, hright⟩ := symbol_append_inj (List.cons.inj hrest).2
      obtain ⟨hm₂, hend⟩ := ih₂ (closes_closing s) (closes_closing t) (List.cons.inj hright).2
      exact ⟨.binary op hm₁ hm₂, (List.cons.inj hend).2⟩

theorem text_eq_of_matches (h : Matches (fun x y => renderLiteral x = renderLiteral y) a b) :
    a.text = b.text := by
  induction h with
  | number h => exact h
  | group _ ih => rw [text, text, ih]
  | binary op _ _ ih₁ ih₂ => rw [text, text, ih₁, ih₂]

/-- Two trees have the same text iff they have one form and their numbers have the same texts. -/
theorem text_eq_iff_matches :
    a.text = b.text ↔ Matches (fun x y => renderLiteral x = renderLiteral y) a b := by
  constructor
  · intro h
    have hclose : Closes [] := by simp [Closes]
    exact (matches_of_text_append hclose hclose (congrArg (·.toList ++ []) h)).1
  · exact text_eq_of_matches

/-- Two trees have the same text iff they are of one form, with numbers that are equal or both not
numbers: for trees without a NaN, iff the trees are equal. -/
theorem text_eq_iff (a b : Expr) :
    (a.text = b.text ↔ Matches (fun x y => Double.same x y ∨ isNaN x ∧ isNaN y) a b) ∧
      ((a.Leaves fun x => ¬ isNaN x) → (a.text = b.text ↔ a.same b)) := by
  rw [text_eq_iff_matches, same_iff_matches]
  simp only [renderLiteral_eq_iff, true_and]
  intro ha
  constructor
  · intro h
    exact h.mono ha fun x y hx hxy => hxy.resolve_right fun hn => hx hn.1
  · intro h
    exact h.mono ha fun x y _ hxy => .inl hxy

/-- A zero in parentheses less a small number, which is written with an exponent. -/
def zeroLess (negative : Bool) : Expr :=
  binary .sub (group (number (ofOrdinal negative 0))) (number (Decimal.toDouble false ⟨1, -5⟩))

/-- The sign of the zero is not in the text, and the parentheses are. -/
theorem text_eq_iff_zeroLess : ((zeroLess true).Leaves fun x => ¬ isNaN x) ∧
    (zeroLess true).text = "((0) - 1e-05)" ∧ (zeroLess true).text = (zeroLess false).text ∧
      (zeroLess true).text ≠ (group (zeroLess false)).text := by
  have hzero : ¬ isNaN (ofOrdinal true 0) := by decide +kernel
  have hsmall : ¬ isNaN (Decimal.toDouble false ⟨1, -5⟩) := by decide +kernel
  have hl : (zeroLess true).Leaves fun x => ¬ isNaN x := ⟨hzero, hsmall⟩
  have hsame : (zeroLess true).same (zeroLess false) := by decide +kernel
  have hne : ¬ (zeroLess true).same (group (zeroLess false)) := by simp [zeroLess, same]
  have htext (b : Expr) : (zeroLess true).text = b.text ↔ (zeroLess true).same b :=
    (text_eq_iff _ b).2 hl
  exact ⟨hl, by decide +kernel, (htext _).mpr hsame, (htext _).not.mpr hne⟩

end Expr
end DecimalComma
