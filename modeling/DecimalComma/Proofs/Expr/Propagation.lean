import DecimalComma.Proofs.Arithmetic

/-! How far a NaN reaches. Every operation passes it on from either operand, but a power with a zero
exponent, which is one whatever its base. So a NaN anywhere in an expression is the value of the
whole, unless such a power holds it in its base. -/
namespace DecimalComma
open Double

namespace Double
open Float.Model Float.Model.UnpackedFloat

variable {x y : Float}

/-- An operation that passes a NaN on before packing does so after it. -/
theorem ofModel_pack_of_isNaN {f : UnpackedFloat → UnpackedFloat → UnpackedFloat}
    (hl : ∀ u, f .notANumber u = .notANumber) (hr : ∀ u, f u .notANumber = .notANumber)
    (h : isNaN x ∨ isNaN y) : Float.ofModel (pack (f x.toModel.unpack y.toModel.unpack)) = nan := by
  rcases h with hx | hy
  · rw [unpack_of_isNaN hx, hl]
    exact ofModel_notANumber
  · rw [unpack_of_isNaN hy, hr]
    exact ofModel_notANumber

theorem add_of_isNaN (h : isNaN x ∨ isNaN y) : x + y = nan :=
  ofModel_pack_of_isNaN (fun _ => rfl) (fun u => by cases u <;> rfl) h

theorem sub_of_isNaN (h : isNaN x ∨ isNaN y) : x - y = nan :=
  ofModel_pack_of_isNaN (fun _ => rfl) (fun u => by cases u <;> rfl) h

theorem mul_of_isNaN (h : isNaN x ∨ isNaN y) : x * y = nan :=
  ofModel_pack_of_isNaN (fun _ => rfl) (fun u => by cases u <;> rfl) h

theorem div_of_isNaN (h : isNaN x ∨ isNaN y) : x / y = nan :=
  ofModel_pack_of_isNaN (fun _ => rfl) (fun u => by cases u <;> rfl) h

theorem isNaN_nan : isNaN nan := by decide

theorem exponentiate_of_isZero (hy : isZero y) : exponentiate x y = one := by
  unfold exponentiate
  rw [if_neg (isFinite_iff_not.mp (isFinite_of_isZero hy)).1, if_pos hy]

theorem exponentiate_of_isNaN (h : isNaN y ∨ isNaN x ∧ ¬ isZero y) : exponentiate x y = nan := by
  unfold exponentiate
  by_cases hy : isNaN y
  · rw [if_pos hy]
  · obtain ⟨hx, hz⟩ := h.resolve_left hy
    rw [if_neg hy, if_neg hz, if_pos hx]

end Double

/-- A NaN on the right always comes through, one on the left unless it is raised to zero. -/
theorem Operation.apply_of_isNaN {op : Operation} {x y : Float}
    (h : isNaN y ∨ isNaN x ∧ (op = .pow → ¬ isZero y)) : op.apply x y = nan := by
  have hany : isNaN x ∨ isNaN y := h.symm.imp_left And.left
  cases op with
  | add => exact add_of_isNaN hany
  | sub => exact sub_of_isNaN hany
  | mul => exact mul_of_isNaN hany
  | div => exact (Arithmetic.divide_eq_div x y).trans (div_of_isNaN hany)
  | pow =>
    rw [apply, Arithmetic.power_eq_exponentiate]
    exact exponentiate_of_isNaN (h.imp_right fun hx => ⟨hx.1, hx.2 rfl⟩)

/-- A node around a subtree, without the subtree: a group, or an operation with the other operand. -/
inductive Expr.Frame where
  | group
  | left (op : Operation) (right : Expr)
  | right (op : Operation) (left : Expr)

namespace Expr

/-- The node, with the subtree in its place. -/
def Frame.fill : Frame → Expr → Expr
  | group, e => .group e
  | left op r, e => .binary op e r
  | right op l, e => .binary op l e

/-- Whether the node is a power that holds the subtree in its base and has a zero exponent. -/
def Frame.hides : Frame → Bool
  | left .pow r => isZero r.value
  | _ => false

/-- The tree of a subtree and its ancestors, the nearest one first. -/
def within (e : Expr) (ancestors : List Frame) : Expr := ancestors.foldl (fun e f => f.fill e) e

variable {e l r : Expr} {f : Frame} {ancestors : List Frame}

theorem Frame.isNaN_value_fill (hf : ¬ f.hides) (h : isNaN e.value) :
    isNaN (f.fill e).value := by
  cases f with
  | group => exact h
  | left op r =>
    have hop : op = .pow → ¬ isZero r.value := by
      rintro rfl
      exact hf
    rw [fill, value, Operation.apply_of_isNaN (.inr ⟨h, hop⟩)]
    exact isNaN_nan
  | right op l =>
    rw [fill, value, Operation.apply_of_isNaN (.inl h)]
    exact isNaN_nan

theorem isNaN_value_of_ancestors (ha : ∀ f ∈ ancestors, ¬ f.hides) (h : isNaN e.value) :
    isNaN (e.within ancestors).value := by
  induction ancestors generalizing e with
  | nil => exact h
  | cons f ancestors ih =>
    rw [List.forall_mem_cons] at ha
    exact ih ha.2 (Frame.isNaN_value_fill ha.1 h)

theorem value_pow_of_isZero (hr : isZero r.value) : (binary .pow l r).value = one := by
  rw [value, Operation.apply, Arithmetic.power_eq_exponentiate, exponentiate_of_isZero hr]

/-- A NaN is the value of every tree that it is in, unless one of its ancestors is a power that holds
it in the base and has a zero exponent; such a power is one whatever its base. -/
theorem isNaN_value_within :
    (∀ (e u : Expr) (ancestors : List Frame), e = u.within ancestors → isNaN u.value →
      (∀ f ∈ ancestors, ¬ f.hides) → isNaN e.value) ∧
    ∀ l r : Expr, isZero r.value → (binary .pow l r).value = one := by
  refine ⟨?_, fun l r => value_pow_of_isZero⟩
  rintro e u ancestors rfl hu ha
  exact isNaN_value_of_ancestors ha hu

/-- A power of one and a quotient by zero let a NaN through; a power with a zero exponent does not,
whatever the sign of the zero. -/
theorem isNaN_value_within_quotient :
    let zero := number (ofOrdinal false 0)
    let u := binary .div zero zero
    let ancestors : List Frame := [.right .pow (number one), .group, .left .div zero]
    isNaN u.value ∧ (∀ f ∈ ancestors, ¬ f.hides) ∧
      isNaN (binary .div (group (binary .pow (number one) u)) zero).value ∧
      (binary .pow u (number (ofOrdinal true 0))).value = one := by
  intro zero u ancestors
  have hu : isNaN u.value := by decide +kernel
  have ha : ∀ f ∈ ancestors, ¬ f.hides := by simp [ancestors, Frame.hides]
  exact ⟨hu, ha, isNaN_value_within.1 _ u ancestors rfl hu ha,
    isNaN_value_within.2 u _ (by decide)⟩

end Expr
end DecimalComma
