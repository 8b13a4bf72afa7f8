import Mathlib.Tactic.SplitIfs
import DecimalComma.Json.Reader

/-! What the readers of JSON texts answer, as equations. The bounds by which they end are left out, so
that no caller has to carry them along. -/
namespace DecimalComma.Json

def blanks : List Char := [' ', '\t', '\n', '\r']

/-- The blanks before a text that begins with none are skipped. -/
theorem skipBlanks_append_cons {bs : List Char} {c : Char} (hbs : bs ⊆ blanks) (hc : c ∉ blanks)
    (r : List Char) : skipBlanks (bs ++ c :: r) = c :: r := by
  have hblank : ∀ b, (decide (b = ' ') || decide (b = '\t') || decide (b = '\n') ||
      decide (b = '\r')) = true ↔ b ∈ blanks := by
    simp [blanks, or_assoc]
  unfold skipBlanks
  rw [List.dropWhile_append_of_pos, List.dropWhile_cons_of_neg]
  · rw [hblank]
    exact hc
  · intro b hb
    rw [hblank]
    exact hbs hb

theorem skipBlanks_cons {c : Char} (hc : c ∉ blanks) (r : List Char) :
    skipBlanks (c :: r) = c :: r :=
  skipBlanks_append_cons (List.nil_subset _) hc r

/-- What a reader answers, and the rest of the text. -/
def outcome {α : Type} {s : List Char} (o : Option (Read α s)) : Option (α × List Char) :=
  o.map fun t => (t.value, t.rest)

variable {s r u v cs : List Char} {c : Char}

theorem takeString_eq (c : Char) (r : List Char) :
    outcome (takeString (c :: r)) =
      if c = '"' then some ([], r)
      else (takeChar (c :: r)).bind fun (d, u) =>
        (outcome (takeString u)).map fun (ds, v) => (d :: ds, v) := by
  rw [takeString]
  split_ifs
  · rfl
  · split
    · rename_i h
      rw [h]
      rfl
    · rename_i d u h
      simp only [h, Option.bind_some]
      cases takeString u <;> rfl

theorem takeValue_eq (h : skipBlanks s = c :: r) :
    outcome (takeValue s) =
      if c = '"' then (outcome (takeString r)).map (Prod.map (string ∘ String.ofList) id)
      else if c = '[' then (outcome (takeItems r)).map (Prod.map array id)
      else if c = '\x7b' then (outcome (takeMembers r)).map (Prod.map object id)
      else outcome (takeAtom (c :: r)) := by
  rw [takeValue]
  split
  · rename_i hnil
    cases h.symm.trans hnil
  · rename_i hcons
    cases h.symm.trans hcons
    split_ifs
    · cases takeString r <;> rfl
    · cases takeItems r <;> rfl
    · cases takeMembers r <;> rfl
    · cases takeAtom (c :: r) <;> rfl

theorem takeItems_eq (h : skipBlanks s = c :: r) :
    outcome (takeItems s) =
      if c = ']' then some ([], r)
      else (outcome (takeValue s)).bind fun (j, u) =>
        (outcome (takeMoreItems u)).map fun (js, v) => (j :: js, v) := by
  rw [takeItems]
  split
  · rename_i hnil
    cases h.symm.trans hnil
  · rename_i hcons
    cases h.symm.trans hcons
    split_ifs
    · rfl
    · cases takeValue s with
      | none => rfl
      | some j => cases ht : takeMoreItems j.rest <;> simp [outcome, ht]

theorem takeMoreItems_eq (h : skipBlanks s = c :: r) :
    outcome (takeMoreItems s) =
      if c = ']' then some ([], r)
      else if c = ',' then
        (outcome (takeValue r)).bind fun (j, u) =>
          (outcome (takeMoreItems u)).map fun (js, v) => (j :: js, v)
      else none := by
  rw [takeMoreItems]
  split
  · rename_i hnil
    cases h.symm.trans hnil
  · rename_i hcons
    cases h.symm.trans hcons
    split_ifs
    · rfl
    · cases takeValue r with
      | none => rfl
      | some j => cases ht : takeMoreItems j.rest <;> simp [outcome, ht]
    · rfl

theorem takeMember_eq (h : skipBlanks s = '"' :: r) (hn : outcome (takeString r) = some (cs, u))
    (hu : skipBlanks u = ':' :: v) :
    outcome (takeMember s) =
      (outcome (takeValue v)).map (Prod.map (Prod.mk (String.ofList cs)) id) := by
  obtain ⟨n, ht, hn⟩ := Option.map_eq_some_iff.mp hn
  cases hn
  rw [takeMember]
  split
  · rename_i hnil
    cases h.symm.trans hnil
  · rename_i hcons
    cases h.symm.trans hcons
    rw [if_pos rfl, ht]
    dsimp only
    split
    · rename_i hnil
      cases hu.symm.trans hnil
    · rename_i hcons
      cases hu.symm.trans hcons
      rw [if_pos rfl]
      cases takeValue v <;> rfl

theorem takeMembers_eq (h : skipBlanks s = c :: r) :
    outcome (takeMembers s) =
      if c = '\x7d' then some ([], r)
      else (outcome (takeMember s)).bind fun (m, u) =>
        (outcome (takeMoreMembers u)).map fun (ms, v) => (m :: ms, v) := by
  rw [takeMembers]
  split
  · rename_i hnil
    cases h.symm.trans hnil
  · rename_i hcons
    cases h.symm.trans hcons
    split_ifs
    · rfl
    · cases takeMember s with
      | none => rfl
      | some m => cases ht : takeMoreMembers m.rest <;> simp [outcome, ht]

theorem takeMoreMembers_eq (h : skipBlanks s = c :: r) :
    outcome (takeMoreMembers s) =
      if c = '\x7d' then some ([], r)
      else if c = ',' then
        (outcome (takeMember r)).bind fun (m, u) =>
          (outcome (takeMoreMembers u)).map fun (ms, v) => (m :: ms, v)
      else none := by
  rw [takeMoreMembers]
  split
  · rename_i hnil
    cases h.symm.trans hnil
  · rename_i hcons
    cases h.symm.trans hcons
    split_ifs
    · rfl
    · cases takeMember r with
      | none => rfl
      | some m => cases ht : takeMoreMembers m.rest <;> simp [outcome, ht]
    · rfl

end DecimalComma.Json
