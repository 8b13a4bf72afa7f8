import DecimalComma.Proofs.Expr.Rendering
import DecimalComma.Proofs.Grammar.Relocation

/-! Sources in parentheses. A source that is an expression to its last token becomes a group, which
takes part in an operation as a whole. Where tokens are left over, the parenthesis is missed at the
first of them, unless that is itself a closing one: it ends the group, and what follows it goes on. -/
namespace DecimalComma

namespace Grammar

theorem Derives.fits {l : Level} {ts : List Token} {e : Expr} (h : Derives l ts e) : e.Fits l := by
  induction h with
  | number _ => exact .number _
  | group _ _ _ ih => exact .group ih
  | operand hm _ ih => exact .operand hm ih
  | chain hm _ _ hs _ ih ih' =>
    rw [hs.symbol_eq] at hs
    exact .chain hm ih hs ih'

end Grammar

namespace Session
open Grammar Automaton Token

variable {s t : String} {e : Expr} {i : Nat} {u : Token}

/-- The source is an expression to its last token. -/
def Whole (s : String) (e : Expr) : Prop :=
  (start (scan s)).read .additive = (.ok e, on (scan s) (scan s).length)

/-- The source begins with an expression, and the token `u` at the index `i` is the first one left
over. -/
structure LeavesOver (s : String) (e : Expr) (i : Nat) (u : Token) : Prop where
  read : (start (scan s)).read .additive = (.ok e, on (scan s) i)
  next : (scan s)[i]? = some u

theorem phrase_of_read (h : (start (scan s)).read .additive = (.ok e, on (scan s) i)) :
    Phrase (scan s) .additive 0 e i := by
  have hstart : start (scan s) = on (scan s) 0 := rfl
  rw [hstart, read_on_eq_ok_iff] at h
  obtain ⟨j, hj, hp⟩ := h
  have hij : (i : Int) = j := congrArg Cursor.position hj
  rwa [Int.ofNat_inj.mp hij]

theorem Whole.derives (h : Whole s e) : Derives .additive (scan s) e := by
  have hp := (phrase_of_read h).derives
  rwa [List.take_length, List.drop_zero] at hp

theorem denotes_moved {f : Int → Int} {a : Symbol} (h : u.Denotes a) : (u.moved f).Denotes a := by
  cases a <;> exact h

/-- Wherever a whole source stands, its tokens denote its tree. -/
theorem Whole.reads (h : Whole s e) : Reads s.toList e.symbols := by
  intro n
  have hs := (scan_scan s).moved n
  rw [Nat.zero_add] at hs
  exact ⟨_, hs, List.forall₂_map_left_iff.mpr (h.derives.denotes.imp fun _ _ => denotes_moved)⟩

theorem toList_grouped (s t : String) (op : Operation) :
    ("(" ++ s ++ ")" ++ op.symbol ++ "(" ++ t ++ ")").toList =
      '(' :: (s.toList ++ [')']) ++ (op.symbol.toList ++ '(' :: (t.toList ++ [')'])) := by
  simp

theorem Whole.grouped {a b : Expr} (ha : Whole s a) (hb : Whole t b) (op : Operation) :
    Whole ("(" ++ s ++ ")" ++ op.symbol ++ "(" ++ t ++ ")")
      (.binary op (.group a) (.group b)) := by
  have hs := Expr.reads_parenthesized ha.reads
  have ht := Expr.reads_parenthesized hb.reads
  have hop := (reads_operation op).append ht (boundary_of_head (by decide))
  have hall := hs.append hop (boundary_of_last (u := '(' :: s.toList) (by decide))
  rw [← toList_grouped] at hall
  exact read_of_reads hall (Expr.fits_binary op (.group ha.derives.fits) (.group hb.derives.fits))

theorem scan_parenthesized (s : String) : scan ("(" ++ s ++ ")") =
    ⟨"(", 0, .parentheses⟩ ::
      ((scan s).map (moved (· + 1)) ++ [⟨")", s.length + 1, .parentheses⟩]) := by
  have hopening : scan "(" = [⟨"(", 0, .parentheses⟩] :=
    scan_eq_iff.mpr (scan_lexeme (.parenthesis (c := '(') (by simp)) 0)
  have hclosing : scan ")" = [⟨")", 0, .parentheses⟩] :=
    scan_eq_iff.mpr (scan_lexeme (.parenthesis (c := ')') (by simp)) 0)
  have hleft : Boundary "(".toList s.toList := boundary_of_last (u := []) (by decide)
  have hright : Boundary ("(" ++ s).toList ")".toList := boundary_of_head (by decide)
  have hone : "(".length = 1 := rfl
  have hlen : ("(" ++ s).length = s.length + 1 := by rw [String.length_append, hone, Nat.add_comm]
  rw [scan_append hright, scan_append hleft, hopening, hclosing, hlen, hone]
  simp [moved]

/-- What is left over begins with no operator, since a chain would go on with it. -/
theorem LeavesOver.kind (h : LeavesOver s e i u) :
    u.kind = .number ∨ u.isOpening ∨ u.isClosing := by
  have hmem : u ∈ scan s := List.mem_of_getElem? h.next
  have hno : u.kind ≠ .operator := by
    intro hk
    exact (phrase_of_read h.read).stops u h.next (known_scan s u hmem hk)
  obtain ⟨c, r, hw, hc | hc | ⟨hc, hk, rfl⟩⟩ :=
    ((tokenization_scan s).reads u hmem).lexeme.exists_cons
  · exact .inl hc.2
  · exact absurd hc.2.1 hno
  · right
    have hp : u.payload = String.ofList [c] := by rw [← hw, String.ofList_toList]
    rw [isOpening_iff, isClosing_iff, hk, hp]
    simp only [List.mem_cons, List.not_mem_nil, or_false] at hc
    rcases hc with rfl | rfl
    · exact .inl ⟨rfl, rfl⟩
    · exact .inr ⟨rfl, rfl⟩

/-- The tokens of the source in parentheses, up to the first one left over and from there on. -/
theorem LeavesOver.exists_scan (h : LeavesOver s e i u) : ∃ o us vs c,
    scan ("(" ++ s ++ ")") = o :: (us ++ u.moved (· + 1) :: (vs ++ [c])) ∧
      (o.kind = .parentheses ∧ o.payload = "(") ∧ c.kind = .parentheses ∧ us.length = i ∧
      Derives .additive us e ∧ vs.head?.map content = (scan s)[i + 1]?.map content := by
  have hp := phrase_of_read h.read
  have hlt : i < (scan s).length := (List.getElem?_eq_some_iff.mp h.next).1
  have hdrop : (scan s).drop i = u :: (scan s).drop (i + 1) := by
    rw [List.drop_eq_getElem_cons hlt, (List.getElem?_eq_some_iff.mp h.next).2]
  refine ⟨⟨"(", 0, .parentheses⟩, ((scan s).take i).map (moved (· + 1)),
    ((scan s).drop (i + 1)).map (moved (· + 1)), ⟨")", s.length + 1, .parentheses⟩, ?_, ⟨rfl, rfl⟩,
    rfl, ?_, ?_, ?_⟩
  · rw [scan_parenthesized]
    conv_lhs => rw [← List.take_append_drop i (scan s), hdrop]
    simp
  · rw [List.length_map, List.length_take]
    omega
  · apply hp.derives.of_content
    rw [List.drop_zero, map_content_moved]
  · rw [List.head?_map, List.head?_drop, Option.map_map]
    rfl

/-- A number or a parenthesis that opens is in the way of the one that closes. -/
theorem LeavesOver.parse_error (h : LeavesOver s e i u) (hu : u.kind = .number ∨ u.isOpening) :
    ∃ error, Expr.parse ("(" ++ s ++ ")") = .error error ∧ error.kind = .imbalanced ∧
      error.position = some (u.position + 1) := by
  obtain ⟨o, us, vs, c, hscan, ho, -, -, hd, -⟩ := h.exists_scan
  have hno : (u.moved (· + 1)).kind ≠ .operator := by
    rw [kind_moved]
    rcases hu with hk | ho
    · rw [hk]
      simp
    · rw [(isOpening_iff.mp ho).1]
      simp
  have hnc : ¬ ((u.moved (· + 1)).kind = .parentheses ∧ (u.moved (· + 1)).payload = ")") := by
    rw [kind_moved, payload_moved]
    rcases hu with hk | ho
    · rw [hk]
      simp
    · rw [(isOpening_iff.mp ho).2]
      simp
  apply exists_error_of_judge
  rw [judge, initial, hscan, run_of_ok (step_opening ho), run_of_derives _ hd,
    run_of_error (step_unclosed hno hnc)]
  rfl

/-- A parenthesis that closes ends the group, and the group is all iff no operator goes on with it. -/
theorem LeavesOver.parse_eq_group_iff (h : LeavesOver s e i u) (hu : u.isClosing) :
    Expr.parse ("(" ++ s ++ ")") = .ok (.group e) ↔
      ∀ v, (scan s)[i + 1]? = some v → v.kind ≠ .operator := by
  obtain ⟨o, us, vs, c, hscan, ho, hc, -, hd, hv⟩ := h.exists_scan
  have hatom : Derives .atomic (o :: (us ++ [u.moved (· + 1)])) (.group e) :=
    .group ho hd (isClosing_iff.mp hu)
  have hgroup : Derives .additive (o :: (us ++ [u.moved (· + 1)])) (.group e) :=
    .operand .additive (.operand .multiplicative (.operand .power hatom))
  have hsplit : (scan ("(" ++ s ++ ")")).drop 0 =
      (o :: (us ++ [u.moved (· + 1)])) ++ (vs ++ [c]) := by
    rw [hscan]
    simp
  constructor
  · intro hp v hnext hk
    obtain ⟨j, hj⟩ := exists_phrase_of_parse hp
    obtain ⟨xs, rest, hxs, -, hderives, hstops⟩ := phrase_iff.mp hj
    -- the tokens of a derivation are as many as the pieces of its tree
    have hlen := hderives.denotes.length_eq.trans hgroup.denotes.length_eq.symm
    obtain ⟨-, rfl⟩ := List.append_inj (hxs.symm.trans hsplit) hlen
    rw [hnext] at hv
    obtain ⟨w, hw, hcontent⟩ := Option.map_eq_some_iff.mp hv
    obtain ⟨ws, rfl⟩ := List.head?_eq_some_iff.mp hw
    have habsorbs := known_scan s v (List.mem_of_getElem? hnext) hk
    exact hstops w (ws ++ [c]) rfl (habsorbs.of_content hcontent.symm)
  · intro hno
    refine parse_of_phrase (phrase_iff.mpr ⟨_, vs ++ [c], hsplit, rfl, hgroup, ?_⟩)
    intro w ws hw habsorbs
    cases vs with
    | nil =>
      obtain ⟨rfl, -⟩ := List.cons.inj hw
      cases hc.symm.trans habsorbs.1
    | cons x xs =>
      obtain ⟨rfl, -⟩ := List.cons.inj hw
      obtain ⟨v, hnext, hcontent⟩ := Option.map_eq_some_iff.mp hv.symm
      exact hno v hnext (habsorbs.of_content hcontent.symm).1

/-- Grouping is compositional: whole sources become the groups of an operation, whose value is that of
the operation. Of a source with tokens left over, the first one is no operator. A number or an opening
parenthesis there is the error in a group, and a closing one ends it: unless an operator follows, the
expression in parentheses is the group. -/
theorem read_grouped (s t : String) (op : Operation) :
    (∀ a b, Whole s a → Whole t b →
      Whole ("(" ++ s ++ ")" ++ op.symbol ++ "(" ++ t ++ ")") (.binary op (.group a) (.group b)) ∧
      ∃ x y, calculate s = .ok x ∧ calculate t = .ok y ∧
        calculate ("(" ++ s ++ ")" ++ op.symbol ++ "(" ++ t ++ ")") = .ok (op.apply x y)) ∧
    ∀ e i u, LeavesOver s e i u →
      (u.kind = .number ∨ u.isOpening ∨ u.isClosing) ∧
      (u.kind = .number ∨ u.isOpening → ∃ error, Expr.parse ("(" ++ s ++ ")") = .error error ∧
        error.kind = .imbalanced ∧ error.position = some (u.position + 1)) ∧
      (u.isClosing → (Expr.parse ("(" ++ s ++ ")") = .ok (.group e) ↔
        ∀ v, (scan s)[i + 1]? = some v → v.kind ≠ .operator)) := by
  constructor
  · intro a b ha hb
    have hwhole := ha.grouped hb op
    refine ⟨hwhole, a.value, b.value, ?_, ?_, ?_⟩
    · exact Expr.calculate_of_parse (parse_of_read ha)
    · exact Expr.calculate_of_parse (parse_of_read hb)
    · exact Expr.calculate_of_parse (parse_of_read hwhole)
  · intro e i u h
    exact ⟨h.kind, h.parse_error, h.parse_eq_group_iff⟩

theorem exists_read_of_judge (h : judge (scan s) = (.accepted, i)) :
    ∃ e, (start (scan s)).read .additive = (.ok e, on (scan s) i) := by
  obtain ⟨e, he⟩ := exists_parse_of_judge (congrArg Prod.fst h)
  have hread := read_start_eq s
  rw [he, h] at hread
  exact ⟨e, hread⟩

/-- A difference becomes a factor, and two numbers in a row are no group. -/
theorem read_grouped_difference :
    (∃ a b, Whole "1-2" a ∧ Whole "3" b ∧
      Whole ("(" ++ "1-2" ++ ")" ++ "*" ++ "(" ++ "3" ++ ")") (.binary .mul (.group a) (.group b))) ∧
    ∃ e u error, LeavesOver "1 2" e 1 u ∧ u.kind = .number ∧
      Expr.parse ("(" ++ "1 2" ++ ")") = .error error ∧ error.position = some 3 := by
  have hdifference : scan "1-2" =
      [⟨"1", 0, .number⟩, ⟨"-", 1, .operator⟩, ⟨"2", 2, .number⟩] := by cbv
  have hthree : scan "3" = [⟨"3", 0, .number⟩] := by cbv
  have htwo : scan "1 2" = [⟨"1", 0, .number⟩, ⟨"2", 2, .number⟩] := by cbv
  obtain ⟨a, ha⟩ := exists_read_of_judge (s := "1-2") (i := 3) (by rw [hdifference]; rfl)
  obtain ⟨b, hb⟩ := exists_read_of_judge (s := "3") (i := 1) (by rw [hthree]; rfl)
  obtain ⟨e, he⟩ := exists_read_of_judge (s := "1 2") (i := 1) (by rw [htwo]; rfl)
  have hwa : Whole "1-2" a := by
    unfold Whole
    rw [ha, hdifference]
    rfl
  have hwb : Whole "3" b := by
    unfold Whole
    rw [hb, hthree]
    rfl
  have hover : LeavesOver "1 2" e 1 ⟨"2", 2, .number⟩ := ⟨he, by rw [htwo]; rfl⟩
  obtain ⟨error, hp, -, hpos⟩ := ((read_grouped "1 2" "" .mul).2 e 1 _ hover).2.1 (.inl rfl)
  exact ⟨⟨a, b, hwa, hwb, ((read_grouped "1-2" "3" .mul).1 a b hwa hwb).1⟩,
    e, _, error, hover, rfl, hp, hpos⟩

/-- A parenthesis left over before an operator closes a group that the operator goes on with. -/
theorem parse_grouped_ne_group : ∃ e u, LeavesOver "1)+2" e 1 u ∧ u.isClosing ∧
    Expr.parse ("(" ++ "1)+2" ++ ")") ≠ .ok (.group e) := by
  have hscan : scan "1)+2" = [⟨"1", 0, .number⟩, ⟨")", 1, .parentheses⟩, ⟨"+", 2, .operator⟩,
      ⟨"2", 3, .number⟩] := by cbv
  obtain ⟨e, he⟩ := exists_read_of_judge (s := "1)+2") (i := 1) (by rw [hscan]; rfl)
  have hover : LeavesOver "1)+2" e 1 ⟨")", 1, .parentheses⟩ := ⟨he, by rw [hscan]; rfl⟩
  refine ⟨e, _, hover, rfl, ?_⟩
  intro hp
  exact (hover.parse_eq_group_iff rfl).mp hp ⟨"+", 2, .operator⟩ (by rw [hscan]; rfl) rfl

end Session
end DecimalComma
