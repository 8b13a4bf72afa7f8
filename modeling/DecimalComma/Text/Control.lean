/-! Control sequences of terminals: an escape, an opening bracket, parameters and a final letter. They
move the cursor or change colours and print nothing; a text for a file or a pipe is freed of them. -/
namespace DecimalComma.Text

/-- What may stand between the bracket and the final letter. -/
def isParameter (c : Char) : Bool := c.isDigit || c = ';' || c = '?'

/-- The text behind the control sequence that a text begins with. -/
def skipControl? : List Char → Option (List Char)
  | '\x1b' :: '[' :: s =>
    match s.dropWhile isParameter with
    | [] => none
    | c :: r => if c.isAlpha then some r else none
  | _ => none

theorem length_of_skipControl {s r : List Char} (h : skipControl? s = some r) :
    r.length < s.length := by
  unfold skipControl? at h
  split at h
  · rename_i t
    have hl := (List.dropWhile_suffix (l := t) isParameter).length_le
    split at h
    · cases h
    · rename_i hd
      rw [hd] at hl
      split at h
      · cases h
        simp only [List.length_cons] at hl ⊢; omega
      · cases h
  · cases h

/-- The text without its control sequences, read once from the left: what closes up around one that is
left out does not make another. -/
def dropControls (s : List Char) : List Char :=
  match s with
  | [] => []
  | c :: cs =>
    match _h : skipControl? (c :: cs) with
    | some r => dropControls r
    | none => c :: dropControls cs
termination_by s.length
decreasing_by
  · exact length_of_skipControl _h
  · simp

/-- A text without an escape stays as it is. -/
theorem dropControls_of_not_mem {s : List Char} (h : '\x1b' ∉ s) : dropControls s = s := by
  induction s with
  | nil => simp [dropControls]
  | cons c cs ih =>
    simp only [List.mem_cons, not_or] at h
    have hc : skipControl? (c :: cs) = none := by
      unfold skipControl?
      split
      · rename_i heq
        simp only [List.cons.injEq] at heq
        exact absurd heq.1.symm h.1
      · rfl
    rw [dropControls]
    split
    · rename_i h'
      rw [hc] at h'
      cases h'
    · rw [ih h.2]

end DecimalComma.Text
