import DecimalComma.Text.Digit
import Mathlib.Data.Nat.Digits.Defs
import Mathlib.Tactic

/-! Decimal digits of every script. A character is a digit in one way at most, and a run of digits
is read as the number that their values denote in base ten. -/
namespace DecimalComma.Text

/-- The value of a digit: how far it stands behind a zero. -/
def HasDigitValue (c : Char) (v : Nat) : Prop := v < 10 ∧ ∃ z ∈ digitZeros, c.toNat = z + v

/-- A decimal digit of any script. -/
def IsDecimal (c : Char) : Prop := ∃ v, HasDigitValue c v

/-- The number that digits denote in base ten, the leading one first. -/
def DenotesNumber (ds : List Char) (n : Nat) : Prop :=
  ∃ vs, List.Forall₂ HasDigitValue ds vs ∧ n = Nat.ofDigits 10 vs.reverse

variable {c : Char} {v n : Nat} {ds : List Char}

/-- The digits of a script and those of another do not overlap. -/
theorem eq_or_apart_of_mem_digitZeros {z z' : Nat} (hz : z ∈ digitZeros) (hz' : z' ∈ digitZeros) :
    z = z' ∨ z + 10 ≤ z' ∨ z' + 10 ≤ z := by
  have hall : (digitZeros.all fun z => digitZeros.all fun z' =>
      z = z' || (z + 10 ≤ z' || z' + 10 ≤ z)) = true := by decide +kernel
  simpa using List.all_eq_true.mp (List.all_eq_true.mp hall z hz) z' hz'

theorem digitValue?_eq_some_iff : digitValue? c = some v ↔ HasDigitValue c v := by
  unfold digitValue?
  rw [Option.map_eq_some_iff]
  constructor
  · rintro ⟨z, hfind, rfl⟩
    have hz := List.find?_some hfind
    rw [Bool.and_eq_true, decide_eq_true_eq, decide_eq_true_eq] at hz
    exact ⟨by omega, z, List.mem_of_find?_eq_some hfind, by omega⟩
  · rintro ⟨hv, z, hz, hc⟩
    obtain ⟨z', hfind⟩ : ∃ z', digitZeros.find? (fun z => z ≤ c.toNat && c.toNat < z + 10) =
        some z' := by
      apply Option.isSome_iff_exists.mp
      rw [List.find?_isSome]
      exact ⟨z, hz, by simp; omega⟩
    have hz' := List.find?_some hfind
    rw [Bool.and_eq_true, decide_eq_true_eq, decide_eq_true_eq] at hz'
    have happart := eq_or_apart_of_mem_digitZeros hz (List.mem_of_find?_eq_some hfind)
    exact ⟨z', hfind, by omega⟩

theorem isDecimal_iff : IsDecimal c ↔ (digitValue? c).isSome := by
  rw [Option.isSome_iff_exists]
  exact exists_congr fun v => digitValue?_eq_some_iff.symm

theorem hasDigitValue_of_isDigit (h : c.isDigit) : HasDigitValue c (c.toNat - '0'.toNat) := by
  have hc : 48 ≤ c.toNat ∧ c.toNat ≤ 57 := Char.isDigit_iff_toNat.mp h
  have hzero : '0'.toNat = 48 := rfl
  exact ⟨by omega, 48, List.mem_cons_self, by omega⟩

theorem isDecimal_of_isDigit (h : c.isDigit) : IsDecimal c := ⟨_, hasDigitValue_of_isDigit h⟩

theorem foldl_digits {vs : List Nat} (h : List.Forall₂ HasDigitValue ds vs) (n : Nat) :
    ds.foldl (fun n c => 10 * n + (digitValue? c).getD 0) n =
      vs.foldl (fun n v => v + 10 * n) n := by
  induction h generalizing n with
  | nil => rfl
  | cons hv _ ih =>
    rw [List.foldl_cons, List.foldl_cons, digitValue?_eq_some_iff.mpr hv, Option.getD_some,
      Nat.add_comm]
    exact ih _

theorem exists_digitValues (h : ∀ c ∈ ds, IsDecimal c) :
    ∃ vs, List.Forall₂ HasDigitValue ds vs := by
  induction ds with
  | nil => exact ⟨[], .nil⟩
  | cons c ds ih =>
    obtain ⟨v, hv⟩ := h c List.mem_cons_self
    obtain ⟨vs, hvs⟩ := ih fun a ha => h a (List.mem_cons_of_mem c ha)
    exact ⟨v :: vs, .cons hv hvs⟩

/-- Digits are read as the number that they denote. -/
theorem denotesNumber_iff (h : ∀ c ∈ ds, IsDecimal c) :
    DenotesNumber ds n ↔ readDigits ds = n := by
  have hread {vs : List Nat} (hvs : List.Forall₂ HasDigitValue ds vs) :
      readDigits ds = Nat.ofDigits 10 vs.reverse := by
    rw [readDigits, foldl_digits hvs, Nat.ofDigits_eq_foldr, List.foldr_reverse]
    rfl
  constructor
  · rintro ⟨vs, hvs, rfl⟩
    exact hread hvs
  · rintro rfl
    obtain ⟨vs, hvs⟩ := exists_digitValues h
    exact ⟨vs, hvs, hread hvs⟩

theorem readDigits_of_isDigit (h : ∀ c ∈ ds, c.isDigit) :
    readDigits ds = Nat.ofDigitChars 10 ds 0 := by
  apply List.foldl_ext
  intro n c hc
  rw [digitValue?_eq_some_iff.mpr (hasDigitValue_of_isDigit (h c hc)), Option.getD_some]

theorem isDigit_of_mem_toDigits {n : Nat} : ∀ c ∈ Nat.toDigits 10 n, c.isDigit :=
  fun _ h => Nat.isDigit_of_mem_toDigits (by norm_num) (by norm_num) h

end DecimalComma.Text
