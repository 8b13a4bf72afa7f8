import DecimalComma.Proofs.Token.Relocation
import DecimalComma.Proofs.Token.Tokenization

/-! Texts put together. The tokens of the one and then those of the other are found iff no token
reaches across the cut, which a boundary rules out. Words written one behind the other are found where
they were written iff no two numbers touch. -/
namespace DecimalComma.Token

/-- A token has characters on both sides of an index. -/
def Spans (t : Token) (n : Nat) : Prop := t.position < n ∧ n < t.position + t.payload.length

theorem Longest.of_append {w cs t : List Char} (h : Longest w (cs ++ t)) : Longest w cs := by
  intro k v hv hp
  apply h k v hv
  rw [← List.append_assoc]
  exact hp.trans (List.prefix_append _ _)

/-- The tokens of a text end inside it. -/
theorem Scan.end_le {n : Nat} {cs : List Char} {ts : List Token} (h : Scan n cs ts) :
    ∀ t ∈ ts, t.position + t.payload.length ≤ n + cs.length := by
  induction h with
  | nil => simp
  | skip _ _ ih =>
    intro t ht
    have := ih t ht
    rw [List.length_cons]
    push_cast at this ⊢
    omega
  | lexeme _ _ _ ih =>
    intro t ht
    rw [List.length_append]
    rcases List.mem_cons.mp ht with rfl | ht
    · simp
    · have := ih t ht
      push_cast at this ⊢
      omega

/-- A scan whose tokens do not reach across a cut is a scan of either side. -/
theorem Scan.exists_of_append {n : Nat} {s t : List Char} {ts : List Token}
    (h : Scan n (s ++ t) ts) (hs : ∀ u ∈ ts, ¬ u.Spans (n + s.length)) :
    ∃ us vs, ts = us ++ vs ∧ Scan n s us ∧ Scan (n + s.length) t vs := by
  generalize hst : s ++ t = cs at h
  induction h generalizing s with
  | nil =>
    obtain ⟨rfl, rfl⟩ := List.append_eq_nil_iff.mp hst
    exact ⟨[], [], rfl, .nil, .nil⟩
  | skip hn tail ih =>
    rename_i n c cs ts
    cases s with
    | nil =>
      subst hst
      exact ⟨[], ts, rfl, .nil, .skip hn tail⟩
    | cons a s =>
      obtain ⟨rfl, hcs⟩ := List.cons.inj hst
      have hlen : n + (a :: s).length = n + 1 + s.length := by
        rw [List.length_cons]
        omega
      rw [hlen] at hs ⊢
      obtain ⟨us, vs, hts, hus, hvs⟩ := ih hs hcs
      exact ⟨us, vs, hts, .skip (noLexeme_cons_iff.mpr (noLexeme_cons_iff.mp hn)) hus, hvs⟩
  | lexeme hw hl tail ih =>
    rename_i n k w cs ts
    cases s with
    | nil =>
      subst hst
      exact ⟨[], _, rfl, .nil, .lexeme hw hl tail⟩
    | cons a s =>
      -- the token begins before the cut, so it ends there at the latest
      have hle : w.length ≤ (a :: s).length := by
        have hfirst := hs _ List.mem_cons_self
        unfold Spans at hfirst
        rw [String.length_ofList, List.length_cons] at hfirst
        rw [List.length_cons]
        push_cast at hfirst
        omega
      have hprefix : w <+: a :: s := by
        apply List.prefix_of_prefix_length_le _ (List.prefix_append _ t) hle
        rw [hst]
        exact List.prefix_append _ _
      obtain ⟨r, hr⟩ := hprefix
      rw [← hr] at hs hst ⊢
      rw [List.append_assoc] at hst
      obtain rfl := List.append_cancel_left hst
      rw [List.length_append, ← Nat.add_assoc] at hs ⊢
      obtain ⟨us, vs, rfl, hus, hvs⟩ := ih (fun u hu => hs u (List.mem_cons_of_mem _ hu)) rfl
      exact ⟨_ :: us, vs, rfl, .lexeme hw hl.of_append hus, hvs⟩

/-- Tokens of two texts, one behind the other, do not reach across the cut. -/
theorem not_spans_of_mem_append {a b : String} {t : Token}
    (h : t ∈ scan a ++ (scan b).map (moved (· + a.length))) : ¬ t.Spans a.length := by
  intro hs
  obtain ⟨hlt, hgt⟩ := hs
  rcases List.mem_append.mp h with ht | ht
  · have hle := (scan_scan a).end_le t ht
    rw [String.length_toList] at hle
    push_cast at hle
    omega
  · obtain ⟨u, hu, rfl⟩ := List.mem_map.mp ht
    have hge := ((scan_scan b).position_bounds u hu).1
    have hpos : (u.moved (· + a.length)).position = u.position + a.length := rfl
    rw [hpos] at hlt
    omega

theorem scan_append_of_not_spans {a b : String} (h : ∀ t ∈ scan (a ++ b), ¬ t.Spans a.length) :
    scan (a ++ b) = scan a ++ (scan b).map (moved (· + a.length)) := by
  have hs := scan_scan (a ++ b)
  rw [String.toList_append] at hs
  obtain ⟨us, vs, hts, hus, hvs⟩ := hs.exists_of_append (by rwa [Nat.zero_add, String.length_toList])
  have hb := (scan_scan b).moved a.toList.length
  rw [hts, hus.unique (scan_scan a), hvs.unique hb, String.length_toList]

/-- The tokens of two texts put together are those of the one and then those of the other, moved by
its length, iff none of them reaches across. None does where a digit or a comma does not stand on both
sides. -/
theorem scan_append_iff (a b : String) :
    (Boundary a.toList b.toList →
      scan (a ++ b) = scan a ++ (scan b).map (moved (· + a.length))) ∧
    (scan (a ++ b) = scan a ++ (scan b).map (moved (· + a.length)) ↔
      ∀ t ∈ scan (a ++ b), ¬ t.Spans a.length) := by
  refine ⟨scan_append, ?_, scan_append_of_not_spans⟩
  intro h t ht
  rw [h] at ht
  exact not_spans_of_mem_append ht

/-- A comma at the end of a text waits for a digit, which an operator is not; a digit behind it is
taken into the number. -/
theorem scan_append_iff_comma :
    Boundary "1,".toList "+2".toList ∧
      scan ("1," ++ "+2") = [⟨"1", 0, .number⟩, ⟨"+", 2, .operator⟩, ⟨"2", 3, .number⟩] ∧
      scan ("1," ++ "2") ≠ scan "1," ++ (scan "2").map (moved (· + 2)) := by
  have hb : Boundary "1,".toList "+2".toList := boundary_of_head (by decide)
  have hone : scan "1," = [⟨"1", 0, .number⟩] := by cbv
  have htwo : scan "+2" = [⟨"+", 0, .operator⟩, ⟨"2", 1, .number⟩] := by cbv
  have hjoined : scan ("1," ++ "2") = [⟨"1,2", 0, .number⟩] := by cbv
  refine ⟨hb, ?_, ?_⟩
  · rw [(scan_append_iff "1," "+2").1 hb, hone, htwo]
    rfl
  · intro h
    have hmem : ⟨"1,2", 0, .number⟩ ∈ scan ("1," ++ "2") := by
      rw [hjoined]
      exact List.mem_singleton_self _
    exact (scan_append_iff "1," "2").2.mp h _ hmem ⟨by decide, by decide⟩

theorem boundary_of_ignored {s : List Char} (h : ∀ c ∈ s, Ignored c) (t : List Char) :
    Boundary s t := by
  intro u a _ _ hs _ hn
  have ha : a ∈ s := by simp [hs]
  exact (h a ha).not_numeric hn.1

theorem ignored_singleton {c : Char} (h : Ignored c) :
    ∀ a ∈ (String.singleton c).toList, Ignored a := by
  simpa using h

theorem scan_of_ignored {s : String} (h : ∀ c ∈ s.toList, Ignored c) : scan s = [] := by
  rw [scan_eq_iff]
  generalize s.toList = cs, 0 = n at *
  induction cs generalizing n with
  | nil => exact .nil
  | cons c cs ih =>
    exact .skip (noLexeme_cons_iff.mpr (h c (by simp)).1) (ih _ fun a ha => h a (by simp [ha]))

/-- What a token says, and the text that parts it from the next one. -/
structure Word where
  kind : TokenKind
  payload : String
  gap : String

namespace Word

/-- A lexeme, with nothing behind it that could belong to a token. -/
structure WellFormed (w : Word) : Prop where
  lexeme : Lexeme w.kind w.payload.toList
  gap : ∀ c ∈ w.gap.toList, Ignored c

/-- Two numbers do not touch. -/
def Apart (v w : Word) : Prop := v.kind = .number → w.kind = .number → v.gap ≠ ""

/-- Words written one behind the other, after a first gap. -/
def text (lead : String) : List Word → String
  | [] => lead
  | w :: ws => lead ++ (w.payload ++ text w.gap ws)

/-- The tokens of the words, each at the place where it is written. -/
def tokens (lead : String) (ws : List Word) : List Token :=
  ws.mapIdx fun i w => ⟨w.payload, (text lead (ws.take i)).length, w.kind⟩

variable {lead : String} {w : Word} {ws : List Word}

theorem text_append (lead : String) (us : List Word) (w : Word) (ws : List Word) :
    text lead (us ++ w :: ws) = text lead us ++ (w.payload ++ text w.gap ws) := by
  induction us generalizing lead with
  | nil => rfl
  | cons u us ih => simp only [List.cons_append, text, ih, String.append_assoc]

theorem tokens_cons (lead : String) (w : Word) (ws : List Word) : tokens lead (w :: ws) =
    (⟨w.payload, 0, w.kind⟩ :: (tokens w.gap ws).map (moved (· + w.payload.length))).map
      (moved (· + lead.length)) := by
  unfold tokens
  rw [List.mapIdx_cons, List.map_cons, List.map_map]
  congr 1
  · simp [text, moved]
  · apply List.ext_getElem?
    intro i
    rw [List.getElem?_mapIdx, List.getElem?_map, List.getElem?_mapIdx, Option.map_map]
    congr 1
    funext v
    have hlen : (text lead ((w :: ws).take (i + 1))).length =
        (text w.gap (ws.take i)).length + w.payload.length + lead.length := by
      rw [List.take_succ_cons, text, String.length_append, String.length_append]
      omega
    rw [hlen, Nat.cast_add, Nat.cast_add]
    rfl

/-- What stands behind a number does not go on with it. -/
theorem boundary_payload (hw : w.WellFormed) (hws : ∀ v ∈ ws, v.WellFormed)
    (hc : (w :: ws).IsChain Apart) : Boundary w.payload.toList (text w.gap ws).toList := by
  by_cases hk : w.kind = .number
  · cases hg : w.gap.toList with
    | cons c r =>
      obtain ⟨u, hu⟩ : ∃ u, (text w.gap ws).toList = c :: u := by
        cases ws with
        | nil => exact ⟨r, hg⟩
        | cons v ws => exact ⟨_, by rw [text, String.toList_append, String.toList_append, hg]; rfl⟩
      rw [hu]
      exact boundary_of_head (hw.gap c (by simp [hg])).not_numeric
    | nil =>
      cases ws with
      | nil =>
        rw [text, hg]
        intro _ _ _ _ _ ht
        cases ht
      | cons v ws =>
        have hv : v.kind ≠ .number := by
          intro hv
          apply (List.isChain_cons_cons.mp hc).1 hk hv
          rw [← String.toList_inj, hg]
          rfl
        obtain ⟨c, hp, hn⟩ := (hws v (by simp)).lexeme.exists_singleton hv
        rw [text, String.toList_append, String.toList_append, hg, hp]
        exact boundary_of_head hn
  · obtain ⟨c, hp, hn⟩ := hw.lexeme.exists_singleton hk
    rw [hp]
    exact boundary_of_last (u := []) hn

/-- Words are found where they were written, unless two numbers touch. -/
theorem scan_text (hl : ∀ c ∈ lead.toList, Ignored c) (hw : ∀ w ∈ ws, w.WellFormed)
    (hc : ws.IsChain Apart) : scan (text lead ws) = tokens lead ws := by
  induction ws generalizing lead with
  | nil => exact scan_of_ignored hl
  | cons w ws ih =>
    have hfirst := hw w (by simp)
    have hrest : ∀ v ∈ ws, v.WellFormed := fun v hv => hw v (by simp [hv])
    have hleft : Boundary lead.toList (w.payload ++ text w.gap ws).toList :=
      boundary_of_ignored hl _
    have hright := boundary_payload hfirst hrest hc
    have hword : scan w.payload = [⟨w.payload, 0, w.kind⟩] := by
      have hs := scan_lexeme hfirst.lexeme 0
      rw [String.ofList_toList] at hs
      exact scan_eq_iff.mpr hs
    rw [text, scan_append hleft, scan_of_ignored hl, scan_append hright, hword,
      ih hfirst.gap hrest hc.of_cons, tokens_cons]
    rfl

theorem mem_tokens (lead : String) (us : List Word) (w : Word) (ws : List Word) :
    ⟨w.payload, (text lead us).length, w.kind⟩ ∈ tokens lead (us ++ w :: ws) := by
  unfold tokens
  rw [List.mem_mapIdx]
  refine ⟨us.length, by simp, ?_⟩
  simp

/-- A number that is found ends before the next one. -/
theorem apart_of_scan_text {us : List Word} {v : Word} (hw : w.WellFormed)
    (h : scan (text lead (us ++ v :: w :: ws)) = tokens lead (us ++ v :: w :: ws)) :
    Apart v w := by
  intro hv hk hgap
  have hmem := mem_tokens lead us v (w :: ws)
  rw [← h] at hmem
  have hends := ((tokenization_scan _).reads _ hmem).maximal hv
  have hdrop : (text lead (us ++ v :: w :: ws)).toList.drop
      ((text lead us).length + v.payload.length) = w.payload.toList ++ (text w.gap ws).toList := by
    rw [text_append, String.toList_append, String.toList_append, ← String.length_toList,
      ← String.length_toList, ← List.drop_drop, List.drop_left, List.drop_left, text, hgap,
      String.empty_append, String.toList_append]
  rw [Int.toNat_natCast, hdrop] at hends
  obtain ⟨c, r, hp, hc⟩ := hw.lexeme.exists_cons
  have hd : c.isDigit := by
    rcases hc with ⟨hd, -⟩ | ⟨-, ho, -⟩ | ⟨-, ho, -⟩
    · exact hd
    · cases hk.symm.trans ho
    · cases hk.symm.trans ho
  rw [hp] at hends
  exact hends.digit c _ rfl hd

/-- Words written one behind the other are found where they were written iff no two numbers touch. -/
theorem scan_text_iff (hl : ∀ c ∈ lead.toList, Ignored c) (hw : ∀ w ∈ ws, w.WellFormed) :
    scan (text lead ws) = tokens lead ws ↔ ws.IsChain Apart := by
  refine ⟨?_, scan_text hl hw⟩
  intro h
  apply List.isChain_iff_forall_rel_of_append_cons_cons.mpr
  intro v w us vs hws
  subst hws
  exact apart_of_scan_text (hw w (by simp)) h

/-- Words of which only the numbers are parted. -/
def compact : List Word :=
  [⟨.number, "1,5", ""⟩, ⟨.operator, "*", ""⟩, ⟨.parentheses, "(", "é"⟩, ⟨.number, "2", " "⟩,
    ⟨.number, "3", ""⟩]

theorem scan_text_iff_compact : (∀ c ∈ " ".toList, Ignored c) ∧ (∀ w ∈ compact, w.WellFormed) ∧
    compact.IsChain Apart ∧ text " " compact = " 1,5*(é2 3" ∧
      scan (text " " compact) = [⟨"1,5", 1, .number⟩, ⟨"*", 4, .operator⟩,
        ⟨"(", 5, .parentheses⟩, ⟨"2", 7, .number⟩, ⟨"3", 9, .number⟩] := by
  have hl : ∀ c ∈ " ".toList, Ignored c := ignored_singleton (c := ' ') (by decide)
  have haccent : ∀ c ∈ "é".toList, Ignored c := ignored_singleton (c := 'é') (by decide)
  have hnone : ∀ c ∈ "".toList, Ignored c := by simp
  have hdigit {c : Char} (h : c.isDigit) : Lexeme .number [c] := .whole (isDigits_singleton h)
  have hw : ∀ w ∈ compact, w.WellFormed := by
    intro w hw
    simp only [compact, List.mem_cons, List.not_mem_nil, or_false] at hw
    rcases hw with rfl | rfl | rfl | rfl | rfl
    · exact ⟨.fraction (isDigits_singleton (c := '1') (by decide))
        (isDigits_singleton (c := '5') (by decide)), hnone⟩
    · exact ⟨.operator (c := '*') (by simp), hnone⟩
    · exact ⟨.parenthesis (c := '(') (by simp), haccent⟩
    · exact ⟨hdigit (c := '2') (by decide), hl⟩
    · exact ⟨hdigit (c := '3') (by decide), hnone⟩
  have hc : compact.IsChain Apart := by simp [compact, Apart]
  refine ⟨hl, hw, hc, by decide, ?_⟩
  rw [(scan_text_iff hl hw).mpr hc]
  decide

end Word
end DecimalComma.Token
