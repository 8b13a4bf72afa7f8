import DecimalComma.Proofs.Token.Boundary

/-! Tokens at other positions. A text that stands further on has the same tokens, moved along; a
character of no token moves the tokens behind it and does nothing else. -/
namespace DecimalComma.Token

/-- The token at another position. -/
def moved (f : Int → Int) (t : Token) : Token := { t with position := f t.position }

@[simp] theorem content_moved (f : Int → Int) (t : Token) : (t.moved f).content = t.content := rfl

@[simp] theorem kind_moved (f : Int → Int) (t : Token) : (t.moved f).kind = t.kind := rfl

@[simp] theorem payload_moved (f : Int → Int) (t : Token) : (t.moved f).payload = t.payload := rfl

theorem map_content_moved (f : Int → Int) (ts : List Token) :
    (ts.map (moved f)).map content = ts.map content := by
  simp only [List.map_map, Function.comp_def, content_moved]

variable {n : Nat} {cs : List Char} {ts : List Token}

theorem Scan.moved (h : Scan n cs ts) (d : Nat) :
    Scan (n + d) cs (ts.map (Token.moved (· + d))) := by
  induction h with
  | nil => exact .nil
  | skip h _ ih =>
    apply Scan.skip h
    rwa [Nat.add_right_comm]
  | lexeme hw hl _ ih =>
    rw [Nat.add_right_comm] at ih
    have hs := Scan.lexeme hw hl ih
    rwa [Nat.cast_add] at hs

/-- The tokens of a text begin inside it. -/
theorem Scan.position_bounds (h : Scan n cs ts) :
    ∀ t ∈ ts, (n : Int) ≤ t.position ∧ t.position < n + cs.length := by
  induction h with
  | nil => simp
  | skip _ _ ih =>
    intro t ht
    have := ih t ht
    rw [List.length_cons]
    push_cast at this ⊢
    omega
  | lexeme hw _ _ ih =>
    have := hw.length_pos
    intro t ht
    rw [List.length_append]
    rcases List.mem_cons.mp ht with rfl | ht
    · push_cast
      omega
    · have := ih t ht
      push_cast at this ⊢
      omega

/-- Behind a boundary stand the tokens of the second text, moved by the length of the first one. -/
theorem scan_append {a b : String} (h : Boundary a.toList b.toList) :
    scan (a ++ b) = scan a ++ (scan b).map (moved (· + a.length)) := by
  have hb := (scan_scan b).moved a.length
  rw [← String.length_toList] at hb
  rw [scan_eq_iff, String.toList_append, ← String.length_toList]
  exact (scan_scan a).append hb h

/-- The characters that belong to no token, wherever they stand. -/
def Ignored (c : Char) : Prop := ¬ Marks c ∧ c ≠ ','

instance (c : Char) : Decidable (Ignored c) := inferInstanceAs (Decidable (¬ Marks c ∧ c ≠ ','))

theorem Ignored.not_numeric {c : Char} (h : Ignored c) : ¬ Numeric c := by
  intro hn
  rcases hn with hd | hc
  · exact h.1 (.inl hd)
  · exact h.2 hc

theorem scan_singleton {c : Char} (h : ¬ Marks c) : scan (String.singleton c) = [] := by
  rw [scan_eq_iff, String.toList_singleton]
  exact scan_blank h 0

/-- Positions once a character has been put in at an index. -/
def past (n : Nat) (p : Int) : Int := if p < n then p else p + 1

theorem map_moved_past_left (s : String) : (scan s).map (moved (past s.length)) = scan s := by
  have hid : ∀ t ∈ scan s, t.moved (past s.length) = id t := by
    intro t ht
    have hp := ((scan_scan s).position_bounds t ht).2
    rw [String.length_toList, Nat.cast_zero, zero_add] at hp
    show ({ t with position := past s.length t.position } : Token) = t
    rw [past, if_pos hp]
  rw [List.map_congr_left hid, List.map_id]

theorem map_moved_past_right (s : String) (n : Nat) :
    ((scan s).map (moved (· + n))).map (moved (past n)) =
      (scan s).map (moved (· + (n + 1 : Nat))) := by
  rw [List.map_map]
  apply List.map_congr_left
  intro t ht
  have hp := ((scan_scan s).position_bounds t ht).1
  have hge : ¬ t.position + n < n := by omega
  show ({ t with position := past n (t.position + n) } : Token) =
    { t with position := t.position + (n + 1 : Nat) }
  rw [past, if_neg hge, Nat.cast_add, add_assoc, Nat.cast_one]

/-- A character of no token moves the tokens behind it. -/
theorem scan_insert {a b : String} {c : Char} (hc : Ignored c) (h : Boundary a.toList b.toList) :
    scan (a ++ String.singleton c ++ b) = (scan (a ++ b)).map (moved (past a.length)) := by
  have hleft : Boundary a.toList (String.singleton c).toList := by
    rw [String.toList_singleton]
    exact boundary_of_head hc.not_numeric
  have hright : Boundary (a ++ String.singleton c).toList b.toList := by
    rw [String.toList_append, String.toList_singleton]
    exact boundary_of_last hc.not_numeric
  have hlen : (a ++ String.singleton c).length = a.length + 1 := by simp
  calc scan (a ++ String.singleton c ++ b)
      = scan a ++ (scan b).map (moved (· + (a.length + 1 : Nat))) := by
        rw [scan_append hright, scan_append hleft, scan_singleton hc.1, hlen, List.map_nil,
          List.append_nil]
    _ = (scan (a ++ b)).map (moved (past a.length)) := by
        rw [scan_append h, List.map_append, map_moved_past_left, map_moved_past_right]

end DecimalComma.Token
