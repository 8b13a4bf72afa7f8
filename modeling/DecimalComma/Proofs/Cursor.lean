import DecimalComma.Cursor
import Mathlib.Tactic

/-! Cursors by the items ahead of them. The current item is the first of these, and a step past it
leaves the others. A cursor that only steps past items comes to their end at most. -/
namespace DecimalComma.Cursor

variable {α : Type} {c d e : Cursor α} {a : α} {as bs : List α} {j k : Nat}

theorem current_eq_head? (c : Cursor α) : c.current = c.rest.head? := by
  unfold current item? rest
  split_ifs
  · rw [List.head?_drop, Array.getElem?_toList]
  · rfl

theorem rest_eq_nil (h : c.current = none) : c.rest = [] := by
  rwa [current_eq_head?, List.head?_eq_none_iff] at h

theorem rest_of_current (h : c.current = some a) : c.rest = a :: c.forward.rest := by
  have hpos := (position_lt_of_current h).1
  have hnext : (c.position + 1).toNat = c.position.toNat + 1 := by omega
  have htail : c.forward.rest = c.rest.tail := by
    unfold rest forward
    rw [if_pos hpos, if_pos (by omega : 0 ≤ c.position + 1), hnext, List.tail_drop]
  rw [current_eq_head?, List.head?_eq_some_iff] at h
  obtain ⟨as, has⟩ := h
  rw [htail, has, List.tail_cons]

theorem forward_rest_suffix (h : c.current = some a) : c.forward.rest <:+ c.rest := by
  rw [rest_of_current h]
  exact List.suffix_cons a _

theorem current_eq_none_iff :
    c.current = none ↔ c.position < 0 ∨ (c.items.size : Int) ≤ c.position := by
  unfold current item?
  split_ifs with h
  · rw [Array.getElem?_eq_none_iff]
    omega
  · simp only [true_iff]
    omega

theorem moveTo_rest (c : Cursor α) : c.moveTo c.rest = c := by
  simp [moveTo]

theorem last_moveTo (c : Cursor α) (as : List α) : (c.moveTo as).last = c.last := rfl

theorem rest_moveTo (h : as <:+ c.rest) : (c.moveTo as).rest = as := by
  by_cases hpos : 0 ≤ c.position
  · have hlen := h.length_le
    have hdrop := List.suffix_iff_eq_drop.mp h
    have hto : (c.position + (c.rest.length - as.length : Nat)).toNat =
        c.position.toNat + (c.rest.length - as.length) := by omega
    conv_rhs => rw [hdrop]
    unfold moveTo
    generalize c.rest.length - as.length = k at hto ⊢
    unfold rest
    rw [if_pos (by omega : 0 ≤ c.position + (k : Int)), if_pos hpos, hto, List.drop_drop]
  · have hrest : c.rest = [] := if_neg hpos
    rw [hrest, List.suffix_nil] at h
    rw [h, ← hrest, moveTo_rest]

theorem moveTo_moveTo (h : as <:+ c.rest) (h' : bs <:+ as) :
    (c.moveTo as).moveTo bs = c.moveTo bs := by
  have hlen := h.length_le
  have hlen' := h'.length_le
  have hrest := rest_moveTo h
  unfold moveTo at hrest ⊢
  rw [hrest]
  congr 1
  dsimp only
  omega

theorem moveTo_forward_rest (h : c.current = some a) : c.moveTo c.forward.rest = c.forward := by
  have hlen := congrArg List.length (rest_of_current h)
  rw [List.length_cons] at hlen
  unfold moveTo
  rw [hlen, Nat.add_sub_cancel_left]
  rfl

/-- Steps forward, each past an item. -/
inductive Walk : Cursor α → Nat → Cursor α → Prop where
  | stay {c : Cursor α} : Walk c 0 c
  | step {c d : Cursor α} {a : α} {k : Nat} (h : c.current = some a) (later : Walk c.forward k d) :
      Walk c (k + 1) d

theorem Walk.one (h : c.current = some a) : Walk c 1 c.forward := .step h .stay

theorem Walk.trans (h : Walk c j d) (h' : Walk d k e) : Walk c (j + k) e := by
  induction h with
  | stay => rwa [Nat.zero_add]
  | step hc _ ih =>
    rw [Nat.add_right_comm]
    exact .step hc (ih h')

theorem Walk.items_eq (h : Walk c k d) : d.items = c.items := by
  induction h with
  | stay => rfl
  | step _ _ ih => exact ih

theorem Walk.position_eq (h : Walk c k d) : d.position = c.position + k := by
  induction h with
  | stay => simp
  | step _ _ ih =>
    rw [ih, forward]
    push_cast
    ring

theorem Walk.length_rest (h : Walk c k d) : c.rest.length = d.rest.length + k := by
  induction h with
  | stay => rfl
  | step hc _ ih => rw [rest_of_current hc, List.length_cons, ih, Nat.add_assoc]

/-- A walk does not go further than to the end. -/
theorem Walk.position_le (h : Walk c k d) (hc : c.position ≤ c.items.size) :
    d.position ≤ c.items.size := by
  induction h with
  | stay => exact hc
  | step hcur _ ih => exact ih (position_lt_of_current hcur).2

end DecimalComma.Cursor
