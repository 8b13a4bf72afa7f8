import DecimalComma.Proofs.Token.Scan

/-! The run of the scanner step after step. The cursor stays in the source and the scanner passes
between tokens at larger and larger positions; it steps back only over a comma that it has just
stepped over. What a number carries are the characters from its start up to the cursor. -/
namespace DecimalComma.Scanner

/-- The scanner after so many steps, unless the run ends before. -/
def after (s : Scanner) : Nat → Option Scanner
  | 0 => some s
  | k + 1 => (after s k).bind fun s' => s'.step.map Prod.fst

/-- Where the token that the scanner is in the middle of starts; between tokens where it stands. -/
def begun (s : Scanner) : Int :=
  match s.mode with
  | .between => s.cursor.position
  | .whole start _ | .comma start _ | .fraction start _ => start

/-- Scanners whose cursor is in the source and whose number, if they carry one, is what the source
has from its start up to the cursor or up to the comma before it. -/
inductive Inside (cs : List Char) : Scanner → Prop where
  | between {i : Nat} (hi : i ≤ cs.length) : Inside cs (on cs i .between)
  | digits {m : Int → List Char → Mode} {k i : Nat} (hm : TakesDigits m) (hk : k < i)
      (hi : i ≤ cs.length) : Inside cs (on cs i (m k (cs.extract k i).reverse))
  | comma {k i : Nat} (hk : k < i) (hc : cs[i]? = some ',') :
      Inside cs (on cs (i + 1) (.comma k (cs.extract k i).reverse))

/-- Steps from such a scanner. -/
inductive Moves (cs : List Char) : Scanner → Scanner → Option Token → Prop where
  | pass {i : Nat} {c : Char} (hc : cs[i]? = some c) (hd : ¬ c.isDigit) :
      Moves cs (on cs i .between) (on cs (i + 1) .between)
        ((TokenKind.ofChar? c).map (⟨String.singleton c, i, ·⟩))
  | begin {i : Nat} {c : Char} (hc : cs[i]? = some c) (hd : c.isDigit) :
      Moves cs (on cs i .between) (on cs (i + 1) (.whole i (cs.extract i (i + 1)).reverse)) none
  | digit {m : Int → List Char → Mode} {k i : Nat} {c : Char} (hm : TakesDigits m) (hk : k < i)
      (hc : cs[i]? = some c) (hd : c.isDigit) :
      Moves cs (on cs i (m k (cs.extract k i).reverse))
        (on cs (i + 1) (m k (cs.extract k (i + 1)).reverse)) none
  | finish {m : Int → List Char → Mode} {k i : Nat} (hm : TakesDigits m) (hk : k < i)
      (hi : i ≤ cs.length) (hd : ∀ c ∈ cs[i]?, ¬ c.isDigit) :
      Moves cs (on cs i (m k (cs.extract k i).reverse)) (on cs i .between)
        (some (number k (cs.extract k i).reverse))
  | comma {k i : Nat} (hk : k < i) (hc : cs[i]? = some ',') :
      Moves cs (on cs i (.whole k (cs.extract k i).reverse))
        (on cs (i + 1) (.comma k (cs.extract k i).reverse)) none
  | fraction {k i : Nat} {c : Char} (hk : k < i) (hm : cs[i]? = some ',')
      (hc : cs[i + 1]? = some c) (hd : c.isDigit) :
      Moves cs (on cs (i + 1) (.comma k (cs.extract k i).reverse))
        (on cs (i + 2) (.fraction k (cs.extract k (i + 2)).reverse)) none
  | back {k i : Nat} (hk : k < i) (hm : cs[i]? = some ',') :
      Moves cs (on cs (i + 1) (.comma k (cs.extract k i).reverse)) (on cs i .between)
        (some (number k (cs.extract k i).reverse))

variable {source : String} {cs : List Char} {s s' r : Scanner} {t : Option Token} {i j k l : Nat}
  {c : Char}

theorem extract_succ (hk : k ≤ i) (hc : cs[i]? = some c) :
    cs.extract k (i + 1) = cs.extract k i ++ [c] := by
  have hlen : i + 1 - k = i - k + 1 := by omega
  have hnext : (cs.drop k)[i - k]? = some c := by
    rw [List.getElem?_drop, Nat.add_sub_cancel' hk, hc]
  rw [List.extract_eq_take_drop, List.extract_eq_take_drop, hlen, List.take_add_one, hnext,
    Option.toList_some]

theorem lt_length (hc : cs[i]? = some c) : i < cs.length := (List.getElem?_eq_some_iff.mp hc).1

theorem Inside.position_le (h : Inside cs s) :
    0 ≤ s.cursor.position ∧ s.cursor.position ≤ cs.length := by
  cases h with
  | between hi => exact ⟨Int.natCast_nonneg _, Int.ofNat_le.mpr hi⟩
  | digits hm hk hi => exact ⟨Int.natCast_nonneg _, Int.ofNat_le.mpr hi⟩
  | comma hk hc => exact ⟨Int.natCast_nonneg _, Int.ofNat_le.mpr (lt_length hc)⟩

theorem Inside.moves (h : Inside cs s) (hs : s.step = some (s', t)) : Moves cs s s' t := by
  cases h with
  | between hi =>
    rename_i i
    cases hc : cs[i]? with
    | none =>
      rw [step_end hc] at hs
      cases hs
    | some c =>
      by_cases hd : c.isDigit
      · have hfirst : [c] = (cs.extract i (i + 1)).reverse := by
          rw [extract_succ le_rfl hc]
          simp
        rw [step_first hc hd, hfirst] at hs
        cases hs
        exact .begin hc hd
      · rw [step_other hc hd] at hs
        cases hs
        exact .pass hc hd
  | digits hm hk hi =>
    rename_i m k i
    by_cases hdigit : ∃ c ∈ cs[i]?, c.isDigit
    · obtain ⟨c, hc, hd⟩ := hdigit
      rw [step_digit hm hc hd, ← List.reverse_concat, ← extract_succ hk.le hc] at hs
      cases hs
      exact .digit hm hk hc hd
    · push Not at hdigit
      -- A comma stops only a fraction; whole digits may still go on behind it.
      have hfinish (hw : m k (cs.extract k i).reverse = .whole k (cs.extract k i).reverse →
          cs[i]? ≠ some ',') : Moves cs (on cs i (m k (cs.extract k i).reverse)) s' t := by
        rw [step_number hm hdigit hw] at hs
        cases hs
        exact .finish hm hk hi hdigit
      by_cases hcomma : cs[i]? = some ','
      · cases hm with
        | whole =>
          rw [step_comma hcomma] at hs
          cases hs
          exact .comma hk hcomma
        | fraction => exact hfinish nofun
      · exact hfinish fun _ => hcomma
  | comma hk hc =>
    rename_i k i
    by_cases hdigit : ∃ c ∈ cs[i + 1]?, c.isDigit
    · obtain ⟨c, hc', hd⟩ := hdigit
      have hread : c :: ',' :: (cs.extract k i).reverse = (cs.extract k (i + 2)).reverse := by
        rw [extract_succ (by omega) hc', extract_succ hk.le hc]
        simp
      rw [step_fraction hc' hd, hread] at hs
      cases hs
      exact .fraction hk hc hc' hd
    · push Not at hdigit
      rw [step_back hdigit] at hs
      cases hs
      exact .back hk hc

/-- A step leaves the scanner inside. -/
theorem Moves.inside (h : Moves cs s s' t) : Inside cs s' := by
  cases h with
  | pass hc hd => exact .between (lt_length hc)
  | begin hc hd => exact .digits .whole (by omega) (lt_length hc)
  | digit hm hk hc hd => exact .digits hm (by omega) (lt_length hc)
  | finish hm hk hi hd => exact .between hi
  | comma hk hc => exact .comma hk hc
  | fraction hk hm hc hd => exact .digits .fraction (by omega) (lt_length hc)
  | back hk hm => exact .between (lt_length hm).le

theorem TakesDigits.mode_ne {m : Int → List Char → Mode} (hm : TakesDigits m) (start : Int)
    (read : List Char) : m start read ≠ .between := by
  cases hm <;> nofun

theorem begun_digits {m : Int → List Char → Mode} (hm : TakesDigits m) (start : Int)
    (read : List Char) : (on cs i (m start read)).begun = start := by
  cases hm <;> rfl

/-- A step that ends between tokens ends behind the start of the last one; any other step goes on
with the token, or starts one where the scanner stands. -/
theorem Moves.begun_lt (h : Moves cs s s' t) (hs : s'.mode = .between) : s.begun < s'.begun := by
  cases h with
  | pass hc hd => exact Int.ofNat_lt.mpr (Nat.lt_succ_self _)
  | begin hc hd => cases hs
  | digit hm hk hc hd => exact absurd hs (hm.mode_ne _ _)
  | finish hm hk hi hd =>
    rw [begun_digits hm]
    exact Int.ofNat_lt.mpr hk
  | comma hk hc => cases hs
  | fraction hk hm hc hd => cases hs
  | back hk hm => exact Int.ofNat_lt.mpr hk

theorem Moves.begun_eq (h : Moves cs s s' t) (hs : s'.mode ≠ .between) : s'.begun = s.begun := by
  cases h with
  | pass hc hd => exact absurd rfl hs
  | begin hc hd => rfl
  | digit hm hk hc hd => rw [begun_digits hm, begun_digits hm]
  | finish hm hk hi hd => exact absurd rfl hs
  | comma hk hc => rfl
  | fraction hk hm hc hd => rfl
  | back hk hm => exact absurd rfl hs

theorem Moves.begun_le (h : Moves cs s s' t) : s.begun ≤ s'.begun := by
  by_cases hs : s'.mode = .between
  · exact (h.begun_lt hs).le
  · exact (h.begun_eq hs).ge

theorem forward_back {α : Type} (c : Cursor α) : c.forward.back = c := by
  simp [Cursor.forward, Cursor.back]

/-- A scanner gets behind a comma by a step over it. -/
theorem Moves.over_comma {start : Int} {read : List Char} (h : Moves cs s s' t)
    (hs : s'.mode = .comma start read) :
    s.cursor.current = some ',' ∧ s'.cursor = s.cursor.forward := by
  cases h with
  | pass hc hd => cases hs
  | begin hc hd => cases hs
  | digit hm hk hc hd => cases hm <;> cases hs
  | finish hm hk hi hd => cases hs
  | comma hk hc =>
    rw [current_on]
    exact ⟨hc, rfl⟩
  | fraction hk hm hc hd => cases hs
  | back hk hm => cases hs

/-- Only from behind a comma the cursor steps back. -/
theorem Moves.of_position_lt (h : Moves cs s s' t)
    (hlt : s'.cursor.position < s.cursor.position) :
    (∃ start read, s.mode = .comma start read) ∧ s'.cursor = s.cursor.back := by
  rw [← not_le] at hlt
  cases h with
  | pass hc hd => exact absurd (Int.ofNat_le.mpr (Nat.le_succ _)) hlt
  | begin hc hd => exact absurd (Int.ofNat_le.mpr (Nat.le_succ _)) hlt
  | digit hm hk hc hd => exact absurd (Int.ofNat_le.mpr (Nat.le_succ _)) hlt
  | finish hm hk hi hd => exact absurd le_rfl hlt
  | comma hk hc => exact absurd (Int.ofNat_le.mpr (Nat.le_succ _)) hlt
  | fraction hk hm hc hd => exact absurd (Int.ofNat_le.mpr (Nat.le_succ _)) hlt
  | back hk hm =>
    refine ⟨⟨_, _, rfl⟩, ?_⟩
    simp [on, Cursor.back]

/-- A comma behind digits is stepped over and back over, also at the end. -/
example : (List.range 5).map (fun k => ((start "1,").after k).map (·.cursor.position)) =
    [some 0, some 1, some 2, some 1, some 2] := by decide

theorem ofChar?_ne_number (c : Char) : TokenKind.ofChar? c ≠ some .number := by
  unfold TokenKind.ofChar?
  split_ifs <;> nofun

/-- What a number that a step completes carries: the characters from where it started. -/
structure Holds (cs : List Char) (start stop : Int) (t : Token) : Prop where
  position : t.position = start
  payload : t.payload.toList = cs.extract start.toNat stop.toNat
  ends : ∀ c ∈ cs[stop.toNat]?, ¬ c.isDigit

theorem Moves.number {t : Token} (h : Moves cs s s' (some t)) (ht : t.kind = .number) :
    s.mode ≠ .between ∧ s'.mode = .between ∧
      Holds cs s.begun s'.cursor.position t := by
  generalize ho : some t = o at h
  cases h with
  | pass hc hd =>
    obtain ⟨k, hk, rfl⟩ := Option.map_eq_some_iff.mp ho.symm
    obtain rfl : k = .number := ht
    exact absurd hk (ofChar?_ne_number _)
  | begin hc hd => cases ho
  | digit hm hk hc hd => cases ho
  | finish hm hk hi hd =>
    cases ho
    refine ⟨hm.mode_ne _ _, rfl, ?_⟩
    rw [begun_digits hm]
    exact ⟨rfl, by simp [Scanner.number], hd⟩
  | comma hk hc => cases ho
  | fraction hk hm hc hd => cases ho
  | back hk hm =>
    cases ho
    refine ⟨?_, rfl, rfl, by simp [Scanner.number, begun], ?_⟩
    · intro hmode
      cases hmode
    · intro c hc
      rw [position_on, Int.toNat_natCast, hm] at hc
      cases hc
      decide

theorem exists_step (h : after s (k + 1) = some s') :
    ∃ r t, after s k = some r ∧ r.step = some (s', t) := by
  obtain ⟨r, hr, hs⟩ := Option.bind_eq_some_iff.mp h
  obtain ⟨⟨q, t⟩, hq, rfl⟩ := Option.map_eq_some_iff.mp hs
  exact ⟨r, t, hr, hq⟩

theorem after_add (s : Scanner) (j k : Nat) :
    after s (j + k) = (after s j).bind (after · k) := by
  induction k with
  | zero => simp [after]
  | succ k ih => rw [← Nat.add_assoc, after, ih, Option.bind_assoc]; rfl

theorem after_of_step (h : s.step = some (s', t)) (k : Nat) : after s (k + 1) = after s' k := by
  rw [Nat.add_comm, after_add]
  simp [after, h]

theorem Inside.after (h : Inside cs s) (hk : after s k = some s') : Inside cs s' := by
  induction k generalizing s' with
  | zero =>
    cases hk
    exact h
  | succ k ih =>
    obtain ⟨r, t, hr, hs⟩ := exists_step hk
    exact ((ih hr).moves hs).inside

theorem Inside.moves_after (h : Inside cs s) (hk : Scanner.after s (k + 1) = some s') :
    ∃ r t, Scanner.after s k = some r ∧ Moves cs r s' t := by
  obtain ⟨r, t, hr, hs⟩ := exists_step hk
  exact ⟨r, t, hr, (h.after hr).moves hs⟩

/-- What a run starts later starts further on. -/
theorem Inside.begun_le (h : Inside cs s) (hj : Scanner.after s j = some r)
    (hl : Scanner.after s l = some s') (hjl : j ≤ l) : r.begun ≤ s'.begun := by
  induction l generalizing s' with
  | zero =>
    obtain rfl : j = 0 := by omega
    rw [Option.some.inj (hj.symm.trans hl)]
  | succ l ih =>
    rcases Nat.eq_or_lt_of_le hjl with rfl | hlt
    · rw [Option.some.inj (hj.symm.trans hl)]
    · obtain ⟨q, t, hq, hmoves⟩ := h.moves_after hl
      exact (ih hq (by omega)).trans hmoves.begun_le

theorem Inside.begun_lt (h : Inside cs s) (hj : Scanner.after s j = some r)
    (hl : Scanner.after s l = some s') (hjl : j < l) (hs : s'.mode = .between) :
    r.begun < s'.begun := by
  obtain ⟨m, rfl⟩ := Nat.exists_eq_succ_of_ne_zero (by omega : l ≠ 0)
  obtain ⟨q, t, hq, hmoves⟩ := h.moves_after hl
  exact (h.begun_le hj hq (by omega)).trans_lt (hmoves.begun_lt hs)

theorem step_eq_none_iff : s.step = none ↔ s.mode = .between ∧ s.cursor.current = none := by
  obtain ⟨c, m⟩ := s
  cases hc : c.current with
  | none => cases m <;> simp [step, hc]
  | some a => cases m <;> simp only [step, hc] <;> split_ifs <;> simp

/-- The run ends at the end of the source. -/
theorem Inside.position_eq (h : Inside cs s) (hend : s.step = none) :
    s.cursor.position = cs.length := by
  obtain ⟨hmode, hnone⟩ := step_eq_none_iff.mp hend
  cases h with
  | between hi =>
    rw [current_on, List.getElem?_eq_none_iff] at hnone
    exact congrArg Int.ofNat (Nat.le_antisymm hi hnone)
  | digits hm hk hi => exact absurd hmode (hm.mode_ne _ _)
  | comma hk hc => exact absurd hmode nofun

theorem work_add_le (h : after s k = some s') : s'.work + k ≤ s.work := by
  induction k generalizing s' with
  | zero =>
    cases h
    exact le_rfl
  | succ k ih =>
    obtain ⟨r, t, hr, hs⟩ := exists_step h
    have hwork := work_lt_of_step hs
    have hle := ih hr
    omega

theorem exists_end (s : Scanner) : ∃ k s', after s k = some s' ∧ s'.step = none := by
  induction hn : s.work using Nat.strong_induction_on generalizing s with
  | _ n ih =>
  subst hn
  cases hs : s.step with
  | none => exact ⟨0, s, rfl, hs⟩
  | some p =>
    obtain ⟨r, t⟩ := p
    obtain ⟨k, s', hk, hend⟩ := ih r.work (work_lt_of_step hs) r rfl
    exact ⟨k + 1, s', by rw [after_of_step hs, hk], hend⟩

theorem after_eq_none (h : after s k = some s') (hend : s'.step = none) (hkl : k < l) :
    after s l = none := by
  obtain ⟨m, rfl⟩ := Nat.exists_eq_add_of_lt hkl
  have hnext : after s (k + 1) = none := by simp [after, h, hend]
  rw [Nat.add_right_comm, after_add, hnext, Option.bind_none]

theorem run_of_step (h : s.step = some (s', t)) : s.run = t.toList ++ s'.run := by
  cases t with
  | none => exact run_of_step_silent h
  | some t => exact run_of_step_token h

theorem run_suffix_of_after (h : after s k = some s') : s'.run <:+ s.run := by
  induction k generalizing s' with
  | zero =>
    cases h
    exact List.suffix_rfl
  | succ k ih =>
    obtain ⟨r, t, hr, hs⟩ := exists_step h
    exact .trans ⟨_, (run_of_step hs).symm⟩ (ih hr)

/-- The tokens of a run are those that its steps complete. -/
theorem mem_run_iff {t : Token} : t ∈ s.run ↔
    ∃ k r r', after s k = some r ∧ r.step = some (r', some t) := by
  constructor
  · fun_induction run s with
    | case1 s hs => exact fun h => absurd h List.not_mem_nil
    | case2 s s' hs ih =>
      intro h
      obtain ⟨k, r, r', hk, hr⟩ := ih h
      exact ⟨k + 1, r, r', by rw [after_of_step hs, hk], hr⟩
    | case3 s s' u hs ih =>
      intro h
      rcases List.mem_cons.mp h with rfl | h
      · exact ⟨0, s, s', rfl, hs⟩
      · obtain ⟨k, r, r', hk, hr⟩ := ih h
        exact ⟨k + 1, r, r', by rw [after_of_step hs, hk], hr⟩
  · rintro ⟨k, r, r', hk, hr⟩
    have hmem : t ∈ r.run := by
      rw [run_of_step_token hr]
      exact List.mem_cons_self
    exact (run_suffix_of_after hk).subset hmem

/-- A round of the loop: from one scanner between tokens to the next one. -/
structure Round (source : String) (j l : Nat) (s s' : Scanner) : Prop where
  lt : j < l
  first : after (start source) j = some s
  last : after (start source) l = some s'
  first_between : s.mode = .between
  last_between : s'.mode = .between
  inner : ∀ k r, j < k → k < l → after (start source) k = some r → r.mode ≠ .between

theorem inside_start (source : String) : Inside source.toList (start source) :=
  .between (Nat.zero_le _)

theorem Round.position_lt (h : Round source j l s s') :
    s.cursor.position < s'.cursor.position := by
  have hbegun := (inside_start source).begun_lt h.first h.last h.lt h.last_between
  rwa [begun, begun, h.first_between, h.last_between] at hbegun

/-- Wherever there is a character ahead between tokens, a round begins. -/
theorem exists_round (hj : after (start source) j = some s) (hs : s.mode = .between)
    (hopen : s.cursor.current ≠ none) : ∃ l s', Round source j l s s' := by
  classical
  have hlater : ∃ l, j < l ∧ ∃ s', after (start source) l = some s' ∧ s'.mode = .between := by
    obtain ⟨⟨r, t⟩, hr⟩ := Option.ne_none_iff_exists'.mp
      fun hend => hopen (step_eq_none_iff.mp hend).2
    obtain ⟨k, s', hk, hend⟩ := exists_end r
    refine ⟨j + (k + 1), by omega, s', ?_, (step_eq_none_iff.mp hend).1⟩
    rw [after_add, hj, Option.bind_some, after_of_step hr, hk]
  obtain ⟨hlt, s', hl, hs'⟩ := Nat.find_spec hlater
  refine ⟨_, s', hlt, hj, hl, hs, hs', ?_⟩
  intro k r hk hlt hr hbetween
  exact Nat.find_min hlater hlt ⟨hk, r, hr, hbetween⟩

/-- The token that the scanner is in the middle of starts where its round began. -/
theorem exists_first (hk : after (start source) k = some s) (hs : s.mode ≠ .between) :
    ∃ j r, j < k ∧ after (start source) j = some r ∧ r.mode = .between ∧ r.begun = s.begun ∧
      ∀ m q, j < m → m ≤ k → after (start source) m = some q → q.mode ≠ .between := by
  induction k generalizing s with
  | zero =>
    cases hk
    exact absurd rfl hs
  | succ k ih =>
    obtain ⟨r, t, hr, hmoves⟩ := (inside_start source).moves_after hk
    have hlast {q : Scanner} (hq : after (start source) (k + 1) = some q) : q.mode ≠ .between := by
      rwa [Option.some.inj (hq.symm.trans hk)]
    by_cases hbetween : r.mode = .between
    · refine ⟨k, r, Nat.lt_succ_self k, hr, hbetween, (hmoves.begun_eq hs).symm, ?_⟩
      intro m q hm hle hq
      obtain rfl : m = k + 1 := by omega
      exact hlast hq
    · obtain ⟨j, p, hj, hp, hpb, hbegun, hinner⟩ := ih hr hbetween
      refine ⟨j, p, by omega, hp, hpb, hbegun.trans (hmoves.begun_eq hs).symm, ?_⟩
      intro m q hm hle hq
      rcases Nat.eq_or_lt_of_le hle with rfl | hlt
      · exact hlast hq
      · exact hinner m q hm (by omega) hq

theorem exists_round_of_number {t : Token} (hk : after (start source) k = some s)
    (hs : s.step = some (s', some t)) (ht : t.kind = .number) :
    ∃ j r, Round source j (k + 1) r s' ∧
      Holds source.toList r.cursor.position s'.cursor.position t := by
  have hinside := (inside_start source).after hk
  obtain ⟨hmode, hmode', hholds⟩ := (hinside.moves hs).number ht
  obtain ⟨j, r, hj, hr, hbetween, hbegun, hinner⟩ := exists_first hk hmode
  have hlast : after (start source) (k + 1) = some s' := by simp [after, hk, hs]
  refine ⟨j, r, ⟨by omega, hr, hlast, hbetween, hmode', ?_⟩, ?_⟩
  · exact fun m q hm hlt hq => hinner m q hm (by omega) hq
  · rw [← hbegun, begun, hbetween] at hholds
    exact hholds

theorem exists_before_back (hk : after (start source) k = some s) (hs : s.step = some (s', t))
    (hlt : s'.cursor.position < s.cursor.position) : ∃ j r, k = j + 1 ∧
      after (start source) j = some r ∧ r.cursor.current = some ',' ∧
      s.cursor = r.cursor.forward ∧ s'.cursor = s.cursor.back ∧ s'.cursor = r.cursor := by
  have hmoves := ((inside_start source).after hk).moves hs
  obtain ⟨⟨first, read, hmode⟩, hback⟩ := hmoves.of_position_lt hlt
  cases k with
  | zero =>
    cases hk
    cases hmode
  | succ k =>
    obtain ⟨r, u, hr, hmoves⟩ := (inside_start source).moves_after hk
    obtain ⟨hcomma, hforward⟩ := hmoves.over_comma hmode
    refine ⟨k, r, rfl, hr, hcomma, hforward, hback, ?_⟩
    rw [hback, hforward, forward_back]

theorem exists_last (source : String) : ∃ k ≤ 4 * source.length, ∃ s,
    after (start source) k = some s ∧ s.mode = .between ∧ s.cursor.position = source.length ∧
      ∀ l, k < l → after (start source) l = none := by
  obtain ⟨k, s, hk, hend⟩ := exists_end (start source)
  have hwork := work_add_le hk
  have hstart : (start source).work = 4 * source.length := by
    simp [work, start, String.length_toList]
  have hposition := ((inside_start source).after hk).position_eq hend
  rw [String.length_toList] at hposition
  exact ⟨k, by omega, s, hk, (step_eq_none_iff.mp hend).1, hposition,
    fun l hl => after_eq_none hk hend hl⟩

/-- The scanner makes progress and ends. The cursor never leaves the source; every round ends
further on than it began; a step back undoes the step over a comma just before; a number is what
stands between the ends of its round, and no digit follows it; and after at most four steps a
character the run stops at the end, where its steps have completed the tokens of the source and
nothing else. -/
theorem progress (source : String) :
    (∀ k s, after (start source) k = some s →
      0 ≤ s.cursor.position ∧ s.cursor.position ≤ source.length) ∧
    (∀ k s, after (start source) k = some s → s.mode = .between → s.cursor.current ≠ none →
      ∃ l s', Round source k l s s') ∧
    (∀ j l s s', Round source j l s s' → s.cursor.position < s'.cursor.position) ∧
    (∀ k s s' t, after (start source) k = some s → s.step = some (s', t) →
      s'.cursor.position < s.cursor.position → ∃ j r, k = j + 1 ∧
        after (start source) j = some r ∧ r.cursor.current = some ',' ∧
        s.cursor = r.cursor.forward ∧ s'.cursor = s.cursor.back ∧ s'.cursor = r.cursor) ∧
    (∀ k s s' t, after (start source) k = some s → s.step = some (s', some t) →
      t.kind = .number → ∃ j r, Round source j (k + 1) r s' ∧
        Holds source.toList r.cursor.position s'.cursor.position t) ∧
    (∀ t, t ∈ Token.scan source ↔
      ∃ k s s', after (start source) k = some s ∧ s.step = some (s', some t)) ∧
    ∃ k ≤ 4 * source.length, ∃ s, after (start source) k = some s ∧ s.mode = .between ∧
      s.cursor.position = source.length ∧ ∀ l, k < l → after (start source) l = none := by
  refine ⟨?_, fun k s => exists_round, fun j l s s' => Round.position_lt,
    fun k s s' t => exists_before_back, fun k s s' t => exists_round_of_number,
    fun t => mem_run_iff, exists_last source⟩
  intro k s hk
  have hle := ((inside_start source).after hk).position_le
  rwa [String.length_toList] at hle

end DecimalComma.Scanner
