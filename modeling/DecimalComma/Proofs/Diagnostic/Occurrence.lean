import DecimalComma.Diagnostic
import DecimalComma.Proofs.Text.Digit
import DecimalComma.Proofs.Token.Lexeme

/-! The first position that a text mentions. Where the label stands without a digit behind it
nothing is mentioned; of the places where digits follow, the leftmost counts, and all the digits
there are read. -/
namespace DecimalComma
open Text (IsDecimal DenotesNumber)

/-- A position is mentioned behind a text: the label follows, and a digit. -/
def Precedes (a m : List Char) : Prop :=
  ∃ c s, IsDecimal c ∧ m = a ++ (positionLabel ++ c :: s)

/-- No mention begins further to the left. -/
def PrecedesFirst (a m : List Char) : Prop :=
  Precedes a m ∧ ∀ a', Precedes a' m → a.length ≤ a'.length

/-- All the digits at one place, at least one. -/
structure IsDigitRun (ds b : List Char) : Prop where
  ne_nil : ds ≠ []
  isDecimal : ∀ c ∈ ds, IsDecimal c
  ends : ∀ c ∈ b.head?, ¬ IsDecimal c

variable {a b ds m s : List Char} {c d : Char} {n : Nat}

theorem IsDigitRun.takeWhile_append (h : IsDigitRun ds b) :
    (ds ++ b).takeWhile (fun c => (Text.digitValue? c).isSome) = ds := by
  apply Token.takeWhile_append_of_head
  · exact fun c hc => Text.isDecimal_iff.mp (h.isDecimal c hc)
  · exact fun c hc hd => h.ends c hc (Text.isDecimal_iff.mpr hd)

theorem exists_isDigitRun (hc : IsDecimal c) (s : List Char) :
    ∃ ds b, IsDigitRun ds b ∧ c :: s = ds ++ b := by
  let p (c : Char) : Bool := (Text.digitValue? c).isSome
  have hp : p c = true := Text.isDecimal_iff.mp hc
  have hne : (c :: s).takeWhile p ≠ [] := by
    rw [List.takeWhile_cons_of_pos hp]
    exact List.cons_ne_nil _ _
  refine ⟨(c :: s).takeWhile p, (c :: s).dropWhile p, ⟨hne, ?_, ?_⟩,
    List.takeWhile_append_dropWhile.symm⟩
  · exact fun a ha => Text.isDecimal_iff.mpr (List.all_eq_true.mp List.all_takeWhile a ha)
  · intro a ha hd
    have hnot := List.head?_dropWhile_not p (c :: s)
    rw [Option.mem_def.mp ha] at hnot
    simp [p, Text.isDecimal_iff.mp hd] at hnot

theorem Precedes.exists_run (h : Precedes a m) :
    ∃ ds b, IsDigitRun ds b ∧ m = a ++ (positionLabel ++ (ds ++ b)) := by
  obtain ⟨c, s, hc, hm⟩ := h
  obtain ⟨ds, b, hrun, hs⟩ := exists_isDigitRun hc s
  exact ⟨ds, b, hrun, by rw [hm, hs]⟩

theorem IsDigitRun.precedes (h : IsDigitRun ds b) :
    Precedes a (a ++ (positionLabel ++ (ds ++ b))) := by
  obtain ⟨c, ds, rfl⟩ := List.exists_cons_of_ne_nil h.ne_nil
  exact ⟨c, ds ++ b, h.isDecimal c List.mem_cons_self, rfl⟩

theorem leadingPosition?_of_run (h : IsDigitRun ds b) :
    leadingPosition? (positionLabel ++ (ds ++ b)) = some (Text.readDigits ds) := by
  have hlabel : positionLabel.isPrefixOf (positionLabel ++ (ds ++ b)) = true :=
    List.isPrefixOf_iff_prefix.mpr (List.prefix_append _ _)
  unfold leadingPosition?
  rw [hlabel, List.drop_left, h.takeWhile_append]
  simp [h.ne_nil]

theorem leadingPosition?_eq_none_iff : leadingPosition? s = none ↔ ¬ Precedes [] s := by
  constructor
  · intro hnone h
    obtain ⟨ds, b, hrun, rfl⟩ := h.exists_run
    rw [List.nil_append, leadingPosition?_of_run hrun] at hnone
    cases hnone
  · intro h
    unfold leadingPosition?
    dsimp only
    rw [if_neg]
    intro hcond
    rw [Bool.and_eq_true, List.isPrefixOf_iff_prefix] at hcond
    obtain ⟨⟨t, rfl⟩, hdigits⟩ := hcond
    rw [List.drop_left] at hdigits
    -- a digit that is taken stands right behind the label
    cases t with
    | nil => simp at hdigits
    | cons c t =>
      by_cases hc : IsDecimal c
      · exact h ⟨c, t, hc, rfl⟩
      · simp [mt Text.isDecimal_iff.mpr hc] at hdigits

theorem precedes_cons_iff : Precedes (d :: a) (c :: s) ↔ d = c ∧ Precedes a s := by
  constructor
  · rintro ⟨e, t, he, hs⟩
    obtain ⟨hd, htail⟩ := List.cons.inj hs
    exact ⟨hd.symm, e, t, he, htail⟩
  · rintro ⟨rfl, e, t, he, rfl⟩
    exact ⟨e, t, he, rfl⟩

theorem not_precedes_nil : ¬ Precedes a [] := by
  rintro ⟨c, s, -, hs⟩
  simp at hs

/-- What stands before the first mention does not matter. -/
theorem mentionedPosition?_append (h : ∀ a', Precedes a' (a ++ s) → a.length ≤ a'.length) :
    mentionedPosition? (a ++ s) = mentionedPosition? s := by
  induction a with
  | nil => rfl
  | cons c a ih =>
    have hnone : leadingPosition? (c :: (a ++ s)) = none := by
      rw [leadingPosition?_eq_none_iff]
      intro hp
      exact absurd (h [] hp) (Nat.not_succ_le_zero _)
    rw [List.cons_append, mentionedPosition?, hnone, Option.none_or]
    apply ih
    intro a' hp
    exact Nat.le_of_succ_le_succ (h (c :: a') (precedes_cons_iff.mpr ⟨rfl, hp⟩))

theorem mentionedPosition?_eq_none_iff : mentionedPosition? m = none ↔ ∀ a, ¬ Precedes a m := by
  induction m with
  | nil => exact ⟨fun _ _ => not_precedes_nil, fun _ => rfl⟩
  | cons c s ih =>
    rw [mentionedPosition?, Option.or_eq_none_iff, leadingPosition?_eq_none_iff, ih]
    constructor
    · rintro ⟨hhere, hbehind⟩ a hp
      cases a with
      | nil => exact hhere hp
      | cons d a => exact hbehind a (precedes_cons_iff.mp hp).2
    · intro h
      exact ⟨h [], fun a hp => h (c :: a) (precedes_cons_iff.mpr ⟨rfl, hp⟩)⟩

theorem exists_precedesFirst (h : Precedes a m) : ∃ a', PrecedesFirst a' m := by
  obtain ⟨a', ha', hmin⟩ :=
    exists_minimalFor_of_wellFoundedLT (Precedes · m) List.length ⟨a, h⟩
  refine ⟨a', ha', fun a'' ha'' => ?_⟩
  by_contra hlt
  exact hlt (hmin ha'' (by omega))

/-- The digits behind the first label that has some are read. -/
theorem mentionedPosition?_of_run (h : PrecedesFirst a m) (hr : IsDigitRun ds b)
    (hm : m = a ++ (positionLabel ++ (ds ++ b))) :
    mentionedPosition? m = some (Text.readDigits ds) := by
  have hread := leadingPosition?_of_run hr
  have hne : positionLabel ++ (ds ++ b) ≠ [] :=
    List.append_ne_nil_of_right_ne_nil _ (List.append_ne_nil_of_left_ne_nil hr.ne_nil _)
  subst hm
  rw [mentionedPosition?_append h.2]
  generalize positionLabel ++ (ds ++ b) = s at hread hne
  obtain ⟨c, s, rfl⟩ := List.exists_cons_of_ne_nil hne
  rw [mentionedPosition?, hread, Option.some_or]

theorem mentionedPosition?_eq_some_iff : mentionedPosition? m = some n ↔ ∃ a ds b,
    PrecedesFirst a m ∧ IsDigitRun ds b ∧ m = a ++ (positionLabel ++ (ds ++ b)) ∧
      DenotesNumber ds n := by
  constructor
  · intro h
    have hsome : ¬ ∀ a, ¬ Precedes a m := by
      rw [← mentionedPosition?_eq_none_iff, h]
      exact Option.some_ne_none n
    obtain ⟨a, ha⟩ := not_forall_not.mp hsome
    obtain ⟨a, hfirst⟩ := exists_precedesFirst ha
    obtain ⟨ds, b, hrun, hm⟩ := hfirst.1.exists_run
    rw [mentionedPosition?_of_run hfirst hrun hm] at h
    exact ⟨a, ds, b, hfirst, hrun, hm,
      (Text.denotesNumber_iff hrun.isDecimal).mpr (Option.some.inj h)⟩
  · rintro ⟨a, ds, b, hfirst, hrun, hm, hn⟩
    rw [mentionedPosition?_of_run hfirst hrun hm, (Text.denotesNumber_iff hrun.isDecimal).mp hn]

theorem isDigitRun_toDigits (n : Nat) (hb : ∀ c ∈ b.head?, ¬ IsDecimal c) :
    IsDigitRun (Nat.toDigits 10 n) b :=
  ⟨Nat.toDigits_ne_nil, fun c hc => Text.isDecimal_of_isDigit (Text.isDigit_of_mem_toDigits c hc),
    hb⟩

/-- A mention that begins before a label ends before the digits behind it. -/
theorem precedesFirst_label (ha : ∀ a', ¬ Precedes a' (a ++ positionLabel))
    (hr : IsDigitRun ds b) : PrecedesFirst a (a ++ (positionLabel ++ (ds ++ b))) := by
  refine ⟨hr.precedes, ?_⟩
  rintro a' ⟨c, s, hc, hs⟩
  by_contra hlt
  have hwhole : a' ++ (positionLabel ++ [c]) <+: a ++ (positionLabel ++ (ds ++ b)) :=
    ⟨s, by rw [hs]; simp⟩
  have hlabel : a ++ positionLabel <+: a ++ (positionLabel ++ (ds ++ b)) := ⟨ds ++ b, by simp⟩
  have hlen : (a' ++ (positionLabel ++ [c])).length ≤ (a ++ positionLabel).length := by
    simp only [List.length_append, List.length_singleton]
    omega
  obtain ⟨t, ht⟩ := List.prefix_of_prefix_length_le hwhole hlabel hlen
  exact ha a' ⟨c, t, hc, by rw [← ht]; simp⟩

/-- A number that is written behind the label is read back, if none is mentioned before. -/
theorem mentionedPosition?_toDigits (ha : ∀ a', ¬ Precedes a' (a ++ positionLabel))
    (hb : ∀ c ∈ b.head?, ¬ IsDecimal c) (n : Nat) :
    mentionedPosition? (a ++ (positionLabel ++ (Nat.toDigits 10 n ++ b))) = some n := by
  have hrun := isDigitRun_toDigits n hb
  rw [mentionedPosition?_of_run (precedesFirst_label ha hrun) hrun rfl,
    Text.readDigits_of_isDigit Text.isDigit_of_mem_toDigits, Nat.ofDigitChars_ten_toDigits]

/-- The position that a text mentions is the number that all the digits behind a label denote, at
the leftmost place where a label has digits behind it; if there is no such place, none is mentioned.
So a number that is written behind the label is read back, if no mention comes before it. -/
theorem mentionedPosition?_eq_leftmost (m : List Char) :
    (mentionedPosition? m = none ↔ ∀ a, ¬ Precedes a m) ∧
      (∀ n, mentionedPosition? m = some n ↔ ∃ a ds b, PrecedesFirst a m ∧ IsDigitRun ds b ∧
        m = a ++ (positionLabel ++ (ds ++ b)) ∧ DenotesNumber ds n) ∧
      ∀ (a b : List Char) (n : Nat), m = a ++ (positionLabel ++ ((toString n).toList ++ b)) →
        (∀ a', ¬ Precedes a' (a ++ positionLabel)) → (∀ c ∈ b.head?, ¬ IsDecimal c) →
          mentionedPosition? m = some n := by
  refine ⟨mentionedPosition?_eq_none_iff, fun n => mentionedPosition?_eq_some_iff, ?_⟩
  intro a b n hm ha hb
  have htext : (toString n).toList = Nat.toDigits 10 n := Nat.toList_repr
  rw [hm, htext]
  exact mentionedPosition?_toDigits ha hb n

/-- A label without digits is passed over, and digits of all scripts are read. -/
example : mentionedPosition? "position position 1٢ at position 9".toList = some 12 := by
  decide +kernel

end DecimalComma
