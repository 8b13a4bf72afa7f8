import DecimalComma.Proofs.Diagnostic.Occurrence

/-! The position that a message mentions. The label does not begin before the place meant, so the
number that was written behind it is read back. -/
namespace DecimalComma

/-- The label does not begin inside a text, not even if it goes on right behind it. -/
def Unlabeled (a : List Char) : Prop :=
  ∀ t ∈ a.tails, t ≠ [] → ¬ positionLabel <+: t ++ positionLabel

instance (a : List Char) : Decidable (Unlabeled a) := by
  unfold Unlabeled
  infer_instance

/-- No position is mentioned where the label does not begin. -/
theorem Unlabeled.not_precedes {a : List Char} (h : Unlabeled a) (a' : List Char) :
    ¬ Precedes a' (a ++ positionLabel) := by
  rintro ⟨c, s, -, hs⟩
  have hlt : a'.length < a.length := by
    have := congrArg List.length hs
    simp only [List.length_append, List.length_cons] at this
    omega
  have hsplit : a.take a'.length = a' := by
    have := congrArg (List.take a'.length) hs
    rwa [List.take_append_of_le_length hlt.le, List.take_left] at this
  rw [← List.take_append_drop a'.length a, hsplit, List.append_assoc,
    List.append_cancel_left_eq] at hs
  have htail : a.drop a'.length ∈ a.tails := (List.mem_tails _ _).mpr (List.drop_suffix _ _)
  have hne : a.drop a'.length ≠ [] := List.ne_nil_of_length_pos (by rw [List.length_drop]; omega)
  exact h _ htail hne ⟨c :: s, hs.symm⟩

theorem toList_append_four (a b c d : String) :
    (a ++ b ++ c ++ d).toList = a.toList ++ (b.toList ++ (c.toList ++ d.toList)) := by
  simp only [String.toList_append, List.append_assoc]

theorem toList_toString {p : Int} {n : Nat} (h : p = n) :
    (toString p).toList = Nat.toDigits 10 n := by
  rw [h]
  exact Nat.toList_repr

theorem mentionedPosition?_of_eq {a b m : String} {p : Int} {n : Nat} (hp : p = n)
    (hm : m = a ++ "position " ++ toString p ++ b) (ha : Unlabeled a.toList)
    (hb : b.toList.head?.bind Text.digitValue? = none) :
    mentionedPosition? m.toList = some n := by
  have hends : ∀ c ∈ b.toList.head?, ¬ Text.IsDecimal c := by
    intro c hc
    rw [Text.isDecimal_iff, Option.bind_eq_none_iff.mp hb c hc]
    exact Bool.false_ne_true
  rw [hm, toList_append_four, toList_toString hp]
  exact mentionedPosition?_toDigits ha.not_precedes hends n

end DecimalComma
