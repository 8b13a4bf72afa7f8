import DecimalComma.Proofs.Grammar.Derivation
import DecimalComma.Session

/-! Phrases, the stretches of a token list that derivations explain, and reading from an index: what a
rule reads is the one phrase of its level there. -/
namespace DecimalComma

/-- The pieces that an expression is written in. -/
inductive Symbol where
  | number (value : Float)
  | opening
  | closing
  | operation (op : Operation)

/-- The pieces of a tree, in the order of writing. -/
def Expr.symbols : Expr → List Symbol
  | number x => [.number x]
  | group e => .opening :: (e.symbols ++ [.closing])
  | binary op a b => a.symbols ++ .operation op :: b.symbols

/-- A token stands for a piece. -/
def Token.Denotes (t : Token) : Symbol → Prop
  | .number x => t.kind = .number ∧ t.value = x
  | .opening => t.kind = .parentheses ∧ t.payload = "("
  | .closing => t.kind = .parentheses ∧ t.payload = ")"
  | .operation op => t.kind = .operator ∧ t.payload = op.symbol

namespace Grammar

/-- The tokens from one index up to another are an expression of a level, which could not go on. -/
structure Phrase (ts : List Token) (l : Level) (i : Nat) (e : Expr) (j : Nat) : Prop where
  start_le : i ≤ j
  le_length : j ≤ ts.length
  derives : Derives l ((ts.take j).drop i) e
  stops : ∀ t, ts[j]? = some t → ¬ Absorbs l t

theorem Spells.symbol_eq {l : Level} {s : String} {op : Operation} (h : Spells l s op) :
    s = op.symbol := by
  cases h <;> rfl

/-- The tokens of a derivation are the pieces of its tree, one by one. -/
theorem Derives.denotes {l : Level} {ts : List Token} {e : Expr} (h : Derives l ts e) :
    List.Forall₂ Token.Denotes ts e.symbols := by
  induction h with
  | number h => exact .cons ⟨h, rfl⟩ .nil
  | group ho _ hc ih => exact .cons ho (List.rel_append ih (.cons hc .nil))
  | operand _ _ ih => exact ih
  | chain _ _ hk hs _ ih ih' => exact List.rel_append ih (.cons ⟨hk, hs.symbol_eq⟩ ih')

theorem Derives.length_pos {l : Level} {ts : List Token} {e : Expr} (h : Derives l ts e) :
    0 < ts.length := by
  induction h with
  | number _ => simp
  | group _ _ _ _ => simp
  | operand _ _ ih => exact ih
  | chain _ _ _ _ _ _ _ => simp

end Grammar

namespace Session
open Grammar

def on (ts : List Token) (i : Nat) : Session := ⟨ts.toArray, i⟩

variable {ts : List Token} {i : Nat}

theorem rest_on (ts : List Token) (i : Nat) : (on ts i).rest = ts.drop i := by
  simp [on, Cursor.rest]

theorem moveTo_on {us tail : List Token} (h : ts.drop i = us ++ tail) :
    (on ts i).moveTo tail = on ts (i + us.length) := by
  have hlen : ((on ts i).rest.length - tail.length : Nat) = us.length := by
    rw [rest_on, h, List.length_append]
    omega
  unfold Cursor.moveTo
  rw [hlen]
  simp [on]

theorem read_eq_ok_iff_yields {l : Level} {e : Expr} {s s' : Session} :
    s.read l = (.ok e, s') ↔ ∃ rest, Yields l s.rest e rest ∧ s' = s.moveTo rest := by
  rw [read]
  constructor
  · intro h
    split at h
    · rename_i p hp
      cases h
      exact ⟨p.rest, ⟨p.shorter, hp⟩, rfl⟩
    · cases h
  · intro hx
    obtain ⟨rest, ⟨hs, hp⟩, rfl⟩ := hx
    rw [hp]

theorem phrase_iff {l : Level} {e : Expr} {j : Nat} :
    Phrase ts l i e j ↔
      ∃ us rest, ts.drop i = us ++ rest ∧ j = i + us.length ∧ Derives l us e ∧ Stops l rest := by
  constructor
  · intro h
    have hij := h.start_le
    have hj := h.le_length
    refine ⟨(ts.take j).drop i, ts.drop j, ?_, ?_, h.derives, ?_⟩
    · conv_lhs => rw [← List.take_append_drop j ts]
      rw [List.drop_append_of_le_length (by rw [List.length_take]; omega)]
    · rw [List.length_drop, List.length_take]
      omega
    · intro t us hd
      apply h.stops
      rw [← List.head?_drop, hd]
      rfl
  · intro hx
    obtain ⟨us, rest, hd, rfl, hde, hst⟩ := hx
    have hpos := hde.length_pos
    have hlen := congrArg List.length hd
    rw [List.length_drop, List.length_append] at hlen
    refine ⟨by omega, by omega, ?_, ?_⟩
    · rw [List.drop_take, hd, Nat.add_sub_cancel_left, List.take_left]
      exact hde
    · intro t ht
      have hr : ts.drop (i + us.length) = rest := by
        rw [← List.drop_drop, hd, List.drop_left]
      rw [← List.head?_drop, hr] at ht
      obtain ⟨vs, rfl⟩ := List.head?_eq_some_iff.mp ht
      exact hst t vs rfl

theorem read_on_eq_ok_iff {l : Level} {e : Expr} {s : Session} :
    (on ts i).read l = (.ok e, s) ↔ ∃ j, s = on ts j ∧ Phrase ts l i e j := by
  rw [read_eq_ok_iff_yields, rest_on]
  constructor
  · intro hx
    obtain ⟨rest, hy, rfl⟩ := hx
    obtain ⟨us, hd, hde, hst⟩ := yields_iff.mp hy
    exact ⟨i + us.length, moveTo_on hd, phrase_iff.mpr ⟨us, rest, hd, rfl, hde, hst⟩⟩
  · intro hx
    obtain ⟨j, rfl, hp⟩ := hx
    obtain ⟨us, rest, hd, rfl, hde, hst⟩ := phrase_iff.mp hp
    exact ⟨rest, yields_iff.mpr ⟨us, hd, hde, hst⟩, (moveTo_on hd).symm⟩

theorem phrase_unique {l : Level} {e e' : Expr} {j j' : Nat} (h : Phrase ts l i e j)
    (h' : Phrase ts l i e' j') : e = e' ∧ j = j' := by
  obtain ⟨us, rest, hd, rfl, hde, hst⟩ := phrase_iff.mp h
  obtain ⟨us', rest', hd', rfl, hde', hst'⟩ := phrase_iff.mp h'
  obtain ⟨rfl, rfl⟩ := (yields_iff.mpr ⟨us, hd, hde, hst⟩).unique
    (yields_iff.mpr ⟨us', hd', hde', hst'⟩)
  refine ⟨rfl, ?_⟩
  rw [List.append_cancel_right (hd.symm.trans hd')]

/-- Every rule, called on any token of a source, reads exactly the phrase of its level that starts
there: there is at most one, and its tokens are the pieces of the tree, one by one. -/
theorem read_iff_phrase (source : String) (l : Level) (i : Nat) :
    (∀ e s, (on (Token.scan source) i).read l = (.ok e, s) ↔
      ∃ j, s = on (Token.scan source) j ∧ Phrase (Token.scan source) l i e j) ∧
    (∀ e j e' j', Phrase (Token.scan source) l i e j → Phrase (Token.scan source) l i e' j' →
      e = e' ∧ j = j') ∧
    ∀ e j, Phrase (Token.scan source) l i e j →
      List.Forall₂ Token.Denotes (((Token.scan source).take j).drop i) e.symbols :=
  ⟨fun _ _ => read_on_eq_ok_iff, fun _ _ _ _ => phrase_unique, fun _ _ h => h.derives.denotes⟩

end Session
end DecimalComma
