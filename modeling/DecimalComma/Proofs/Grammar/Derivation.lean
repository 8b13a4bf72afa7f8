import DecimalComma.Grammar
import Mathlib.Tactic

/-! The grammar as derivations, and the parser as a procedure for them: it finds a derivation for the
tokens it takes, and takes the only tokens behind which none of its operators follows. -/
namespace DecimalComma.Grammar

/-- The operators of the levels. -/
inductive Spells : Level → String → Operation → Prop where
  | add : Spells .additive "+" .add
  | sub : Spells .additive "-" .sub
  | mul : Spells .multiplicative "*" .mul
  | div : Spells .multiplicative "/" .div
  | pow : Spells .power "^" .pow

/-- The operands of the levels. -/
inductive Operand : Level → Level → Prop where
  | additive : Operand .additive .multiplicative
  | multiplicative : Operand .multiplicative .power
  | power : Operand .power .atomic

/-- The tokens that a level derives, with the tree of the derivation. -/
inductive Derives : Level → List Token → Expr → Prop where
  | number {t : Token} (h : t.kind = .number) : Derives .atomic [t] (.number t.value)
  | group {o c : Token} {ts : List Token} {e : Expr}
      (ho : o.kind = .parentheses ∧ o.payload = "(") (content : Derives .additive ts e)
      (hc : c.kind = .parentheses ∧ c.payload = ")") :
      Derives .atomic (o :: (ts ++ [c])) (.group e)
  | operand {l m : Level} {ts : List Token} {e : Expr} (hm : Operand l m)
      (h : Derives m ts e) : Derives l ts e
  | chain {l m : Level} {t : Token} {op : Operation} {ts us : List Token} {a b : Expr}
      (hm : Operand l m) (left : Derives m ts a) (ht : t.kind = .operator)
      (hs : Spells l t.payload op) (right : Derives l us b) :
      Derives l (ts ++ t :: us) (.binary op a b)

/-- The operators that an expression of a level could go on with. -/
def absorbed : Level → List String
  | .atomic => []
  | .power => ["^"]
  | .multiplicative => ["^", "*", "/"]
  | .additive => ["^", "*", "/", "+", "-"]

def Absorbs (l : Level) (t : Token) : Prop := t.kind = .operator ∧ t.payload ∈ absorbed l

/-- An expression of a level ends before these tokens. -/
def Stops (l : Level) (rest : List Token) : Prop := ∀ t us, rest = t :: us → ¬ Absorbs l t

theorem operand_iff {l m : Level} : Operand l m ↔ l ≠ .atomic ∧ m = l.tighter := by
  constructor
  · intro h
    cases h <;> exact ⟨by simp, rfl⟩
  · intro hx
    obtain ⟨hl, rfl⟩ := hx
    cases l with
    | atomic => exact absurd rfl hl
    | power => exact .power
    | multiplicative => exact .multiplicative
    | additive => exact .additive

theorem operand_tighter {l : Level} (h : l ≠ .atomic) : Operand l l.tighter :=
  operand_iff.mpr ⟨h, rfl⟩

theorem mem_absorbed_iff {l m : Level} (hm : Operand l m) {s : String} :
    s ∈ absorbed l ↔ s ∈ absorbed m ∨ ∃ op, Spells l s op := by
  constructor
  · intro h
    cases hm <;> simp only [absorbed, List.mem_cons, List.not_mem_nil, or_false] at h ⊢
    · rcases h with h | h | h | rfl | rfl
      · simp [h]
      · simp [h]
      · simp [h]
      · exact .inr ⟨_, .add⟩
      · exact .inr ⟨_, .sub⟩
    · rcases h with h | rfl | rfl
      · simp [h]
      · exact .inr ⟨_, .mul⟩
      · exact .inr ⟨_, .div⟩
    · subst h
      exact .inr ⟨_, .pow⟩
  · intro hx
    rcases hx with h | ⟨op, h⟩
    · cases hm <;> simp only [absorbed, List.mem_cons, List.not_mem_nil, or_false] at h ⊢ <;> tauto
    · cases h <;> decide

theorem notMem_absorbed_of_spells {l m : Level} (hm : Operand l m) {s : String} {op : Operation}
    (h : Spells l s op) : s ∉ absorbed m := by
  cases hm <;> cases h <;> decide

theorem operation?_eq_some_iff {l : Level} {t : Token} {op : Operation} :
    operation? l t = some op ↔ t.kind = .operator ∧ Spells l t.payload op := by
  unfold operation?
  by_cases ht : t.kind = .operator
  · rw [if_pos ht]
    constructor
    · intro h
      have hs := List.find?_some h
      have hm := List.mem_of_find?_eq_some h
      simp only [decide_eq_true_eq] at hs
      refine ⟨ht, hs ▸ ?_⟩
      cases l <;> simp only [Level.operations, List.mem_cons, List.not_mem_nil, or_false] at hm
      · subst hm
        exact .pow
      · rcases hm with rfl | rfl
        · exact .mul
        · exact .div
      · rcases hm with rfl | rfl
        · exact .add
        · exact .sub
    · intro hx
      obtain ⟨-, h⟩ := hx
      generalize t.payload = s at h ⊢
      cases h <;> rfl
  · rw [if_neg ht]
    constructor
    · intro h
      cases h
    · intro hx
      obtain ⟨h, -⟩ := hx
      exact absurd h ht

theorem takeOperation_eq_some_iff {l : Level} {ts us : List Token} {op : Operation} :
    takeOperation l ts = some (op, us) ↔
      ∃ t, ts = t :: us ∧ t.kind = .operator ∧ Spells l t.payload op := by
  cases ts with
  | nil => simp [takeOperation]
  | cons t ts =>
    simp only [takeOperation, Option.map_eq_some_iff, Prod.mk.injEq, operation?_eq_some_iff,
      List.cons.injEq]
    constructor
    · intro hx
      obtain ⟨_, h, rfl, rfl⟩ := hx
      exact ⟨t, ⟨rfl, rfl⟩, h⟩
    · intro hx
      obtain ⟨_, ⟨rfl, rfl⟩, h⟩ := hx
      exact ⟨op, h, rfl, rfl⟩

/-- A level's operator does not follow, and no operand ends before it, iff the level ends here. -/
theorem stops_iff {l m : Level} (hm : Operand l m) {rest : List Token} :
    Stops l rest ↔ Stops m rest ∧ takeOperation l rest = none := by
  constructor
  · intro h
    constructor
    · intro t us ht ha
      exact h t us ht ⟨ha.1, (mem_absorbed_iff hm).mpr (.inl ha.2)⟩
    · rw [Option.eq_none_iff_forall_ne_some]
      intro p ho
      obtain ⟨op, us⟩ := p
      obtain ⟨t, ht, hk, hs⟩ := takeOperation_eq_some_iff.mp ho
      exact h t us ht ⟨hk, (mem_absorbed_iff hm).mpr (.inr ⟨op, hs⟩)⟩
  · intro hx t us ht ha
    obtain ⟨h, ho⟩ := hx
    obtain ⟨hk, hs⟩ := ha
    rcases (mem_absorbed_iff hm).mp hs with hs | ⟨op, hs⟩
    · exact h t us ht ⟨hk, hs⟩
    · rw [takeOperation_eq_some_iff.mpr ⟨t, ht, hk, hs⟩] at ho
      cases ho

theorem isOpening_iff {t : Token} :
    t.isOpening = true ↔ t.kind = .parentheses ∧ t.payload = "(" := by
  simp [Token.isOpening]

theorem isClosing_iff {t : Token} :
    t.isClosing = true ↔ t.kind = .parentheses ∧ t.payload = ")" := by
  simp [Token.isClosing]

theorem takeClosing_eq_ok_iff {ts us : List Token} :
    takeClosing ts = .ok us ↔ ∃ c, ts = c :: us ∧ c.kind = .parentheses ∧ c.payload = ")" := by
  cases ts with
  | nil => simp [takeClosing]
  | cons t ts =>
    rw [takeClosing]
    split_ifs with h
    · rw [isClosing_iff] at h
      constructor
      · intro hu
        cases hu
        exact ⟨t, rfl, h⟩
      · intro hx
        obtain ⟨c, hc, -⟩ := hx
        cases hc
        rfl
    · rw [isClosing_iff] at h
      constructor
      · intro hu
        cases hu
      · intro hx
        obtain ⟨c, hc, hk⟩ := hx
        cases hc
        exact absurd hk h

theorem eq_of_takeClosing_error {ts : List Token} {f : Failure} (h : takeClosing ts = .error f) :
    f = ⟨.closing, ts⟩ := by
  cases ts with
  | nil =>
    cases h
    rfl
  | cons t ts =>
    rw [takeClosing] at h
    split_ifs at h
    cases h
    rfl

/-- What the parser takes is derived, and it stops only where it has to. -/
theorem derives_of_parse {l : Level} {ts : List Token} {p : Parsed ts} (h : parse l ts = .ok p) :
    ∃ us, ts = us ++ p.rest ∧ Derives l us p.expr ∧ Stops l p.rest := by
  fun_induction parse l ts with
  | case1 => cases h
  | case2 t ts hk =>
    cases h
    exact ⟨[t], rfl, .number hk, fun t us _ ha => by simp [Absorbs, absorbed] at ha⟩
  | case3 => cases h
  | case4 => cases h
  | case5 t ts _ ho content hp rest hc ih =>
    cases h
    obtain ⟨us, hts, hd, -⟩ := ih hp
    obtain ⟨c, hcr, hck⟩ := takeClosing_eq_ok_iff.mp hc
    refine ⟨t :: (us ++ [c]), ?_, .group (isOpening_iff.mp ho) hd hck,
      fun t us _ ha => by simp [Absorbs, absorbed] at ha⟩
    rw [hcr] at hts
    simp [hts]
  | case6 => cases h
  | case7 => cases h
  | case8 l ts hl left hp ho ih =>
    cases h
    obtain ⟨us, hts, hd, hstop⟩ := ih hp
    have hm := operand_tighter hl
    exact ⟨us, hts, .operand hm hd, (stops_iff hm).mpr ⟨hstop, ho⟩⟩
  | case9 => cases h
  | case10 l ts hl left hp op rest ho right hq ih ih' =>
    cases h
    obtain ⟨us, hts, hd, -⟩ := ih hp
    obtain ⟨vs, hrest, hd', hstop⟩ := ih' hq
    obtain ⟨t, htl, hk, hs⟩ := takeOperation_eq_some_iff.mp ho
    refine ⟨us ++ t :: vs, ?_, .chain (operand_tighter hl) hd hk hs hd', hstop⟩
    rw [htl, hrest] at hts
    simp [hts]

/-- The parser takes an expression off the tokens and leaves a rest. -/
def Yields (l : Level) (ts : List Token) (e : Expr) (rest : List Token) : Prop :=
  ∃ h, parse l ts = .ok ⟨e, rest, h⟩

variable {l : Level} {ts rest : List Token} {e : Expr}

theorem parse_nil (l : Level) : parse l [] = .error ⟨.operand, []⟩ := by
  cases l <;> simp [parse, Level.tighter]

/-- No level begins with a token that is neither a number nor an opening parenthesis. -/
theorem parse_of_stray {t : Token} (hn : t.kind ≠ .number) (ho : ¬ t.isOpening) (l : Level)
    (ts : List Token) : parse l (t :: ts) = .error ⟨.operand, t :: ts⟩ := by
  cases l <;> simp [parse, Level.tighter, hn, ho]

theorem yields_number {t : Token} (h : t.kind = .number) :
    Yields .atomic (t :: rest) (.number t.value) rest := by
  refine ⟨by simp, ?_⟩
  rw [parse]
  simp [h]

theorem yields_group {o c : Token} (ho : o.kind = .parentheses ∧ o.payload = "(")
    (h : Yields .additive ts e (c :: rest)) (hc : c.kind = .parentheses ∧ c.payload = ")") :
    Yields .atomic (o :: ts) (.group e) rest := by
  obtain ⟨hs, hp⟩ := h
  have hcl : takeClosing (c :: rest) = .ok rest := takeClosing_eq_ok_iff.mpr ⟨c, rfl, hc⟩
  refine ⟨by simp only [List.length_cons] at hs ⊢; omega, ?_⟩
  rw [parse]
  have hk : o.kind ≠ .number := by simp [ho.1]
  have hop := isOpening_iff.mpr ho
  simp only [dif_pos, hk, if_false, hop, if_true, hp]
  split
  · simp_all
  · simp_all

theorem yields_operand (hl : l ≠ .atomic) (h : Yields l.tighter ts e rest)
    (ho : takeOperation l rest = none) : Yields l ts e rest := by
  obtain ⟨hs, hp⟩ := h
  refine ⟨hs, ?_⟩
  rw [parse.eq_def, dif_neg hl]
  simp only [hp]
  split
  · rfl
  · simp_all

theorem yields_chain {mid us : List Token} {op : Operation} {a b : Expr} (hl : l ≠ .atomic)
    (h : Yields l.tighter ts a mid) (ho : takeOperation l mid = some (op, us))
    (h' : Yields l us b rest) : Yields l ts (.binary op a b) rest := by
  obtain ⟨hs, hp⟩ := h
  obtain ⟨hs', hp'⟩ := h'
  have := length_of_takeOperation ho
  refine ⟨by omega, ?_⟩
  rw [parse.eq_def, dif_neg hl]
  simp only [hp]
  split
  · simp_all
  · rename_i ho'
    rw [ho] at ho'
    cases ho'
    simp only [hp']

/-- The parser takes what is derived, wherever an expression of the level may end. -/
theorem yields_of_derives {us : List Token} (h : Derives l us e) (hr : Stops l rest) :
    Yields l (us ++ rest) e rest := by
  induction h generalizing rest with
  | number h => exact yields_number h
  | group ho _ hc ih =>
    rename_i o c ts e _
    have hstop : Stops .additive (c :: rest) := by
      intro t us ht ha
      have hk := ha.1
      obtain ⟨rfl, -⟩ := List.cons.inj ht
      rw [hc.1] at hk
      cases hk
    have := ih hstop
    rw [List.cons_append, List.append_assoc]
    exact yields_group ho this hc
  | operand hm _ ih =>
    obtain ⟨hstop, ho⟩ := (stops_iff hm).mp hr
    obtain ⟨hl, rfl⟩ := operand_iff.mp hm
    exact yields_operand hl (ih hstop) ho
  | chain hm _ hk hs _ ih ih' =>
    rename_i l m t op ts us a b _ _
    have hstop : Stops m (t :: (us ++ rest)) := by
      intro u vs hu ha
      have hmem := ha.2
      obtain ⟨rfl, -⟩ := List.cons.inj hu
      exact notMem_absorbed_of_spells hm hs hmem
    have hleft := ih hstop
    obtain ⟨hl, rfl⟩ := operand_iff.mp hm
    rw [List.append_assoc]
    exact yields_chain hl hleft (takeOperation_eq_some_iff.mpr ⟨t, rfl, hk, hs⟩) (ih' hr)

theorem yields_iff : Yields l ts e rest ↔ ∃ us, ts = us ++ rest ∧ Derives l us e ∧ Stops l rest := by
  constructor
  · intro hx
    obtain ⟨hs, hp⟩ := hx
    exact derives_of_parse hp
  · intro hx
    obtain ⟨us, rfl, hd, hr⟩ := hx
    exact yields_of_derives hd hr

theorem Yields.unique {e' : Expr} {rest' : List Token} (h : Yields l ts e rest)
    (h' : Yields l ts e' rest') : e = e' ∧ rest = rest' := by
  obtain ⟨hs, hp⟩ := h
  obtain ⟨hs', hp'⟩ := h'
  rw [hp, Except.ok.injEq, Parsed.mk.injEq] at hp'
  exact hp'

theorem stops_nil (l : Level) : Stops l [] := by
  intro t us h
  cases h

/-- The grammar is unambiguous. -/
theorem Derives.unique {us : List Token} {e' : Expr} (h : Derives l us e)
    (h' : Derives l us e') : e = e' :=
  ((yields_of_derives h (stops_nil l)).unique (yields_of_derives h' (stops_nil l))).1

end DecimalComma.Grammar
