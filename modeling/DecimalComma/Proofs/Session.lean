import DecimalComma.Proofs.Grammar.Descent

/-! Sessions call after call. Calls that read, whether they fail or not, walk the cursor forward
past tokens, so that it comes to their end at most. Outside the tokens they find nothing to read,
and the cursor stays where it was moved. -/
namespace DecimalComma.Session
open Grammar

/-- The session that calls lead to. -/
def after (s : Session) : List Call → Session
  | [] => s
  | c :: cs => after (s.call c).2 cs

/-- The session over the tokens of a source that calls lead to. -/
def reached (source : String) (calls : List Call) : Session :=
  (start (Token.scan source)).after calls

/-- The calls that read tokens; the others move the cursor, whatever is there. -/
def Call.Reads : Call → Prop
  | .read _ | .close | .match? _ => True
  | .forward | .back => False

variable {c : Call} {cs : List Call}

theorem after_append (s : Session) (cs ds : List Call) :
    s.after (cs ++ ds) = (s.after cs).after ds := by
  induction cs generalizing s with
  | nil => rfl
  | cons c cs ih => exact ih (s.call c).2

theorem run_append (s : Session) (cs ds : List Call) :
    s.run (cs ++ ds) = s.run cs ++ (s.after cs).run ds := by
  induction cs generalizing s with
  | nil => rfl
  | cons c cs ih => exact congrArg (s.call c :: ·) (ih (s.call c).2)

theorem exists_walk_read (s : Session) (l : Level) : ∃ k, Cursor.Walk s k (s.read l).2 := by
  obtain ⟨x, r, n, hd⟩ := exists_descent s l
  obtain ⟨k, hwalk, -⟩ := hd.exists_walk
  rw [hd.read_eq]
  exact ⟨k, hwalk⟩

theorem exists_walk_close (s : Session) : ∃ k, Cursor.Walk s k s.close.2 := by
  rcases hc : s.close with ⟨error | u, r⟩
  · obtain ⟨-, rfl⟩ := eq_of_close_error hc
    exact ⟨0, .stay⟩
  · obtain ⟨t, ht, -, rfl⟩ := exists_current_of_close hc
    exact ⟨1, .one ht⟩

theorem exists_walk_match? (s : Session) (l : Level) : ∃ k, Cursor.Walk s k (s.match? l).2 := by
  rcases ho : s.match? l with ⟨- | op, r⟩
  · obtain rfl := eq_of_match?_none ho
    exact ⟨0, .stay⟩
  · obtain ⟨t, ht, -, rfl⟩ := exists_current_of_match? ho
    exact ⟨1, .one ht⟩

theorem call_read (s : Session) (l : Level) : (s.call (.read l)).2 = (s.read l).2 := by
  unfold call
  dsimp only
  rcases s.read l with ⟨error | e, r⟩ <;> rfl

theorem call_close (s : Session) : (s.call .close).2 = s.close.2 := by
  unfold call
  dsimp only
  rcases s.close with ⟨error | u, r⟩ <;> rfl

/-- A call that reads walks the cursor forward. -/
theorem exists_walk_call (s : Session) (hc : c.Reads) : ∃ k, Cursor.Walk s k (s.call c).2 := by
  cases c with
  | read l =>
    rw [call_read]
    exact exists_walk_read s l
  | close =>
    rw [call_close]
    exact exists_walk_close s
  | match? l => exact exists_walk_match? s l
  | forward => exact hc.elim
  | back => exact hc.elim

theorem items_call (s : Session) (c : Call) : (s.call c).2.items = s.items := by
  by_cases hc : c.Reads
  · obtain ⟨k, hwalk⟩ := exists_walk_call s hc
    exact hwalk.items_eq
  · cases c with
    | forward | back => rfl
    | read | close | match? => exact absurd trivial hc

theorem items_after (s : Session) (cs : List Call) : (s.after cs).items = s.items := by
  induction cs generalizing s with
  | nil => rfl
  | cons c cs ih => exact (ih (s.call c).2).trans (items_call s c)

theorem exists_walk_after (s : Session) (hcs : ∀ c ∈ cs, c.Reads) :
    ∃ k, Cursor.Walk s k (s.after cs) := by
  induction cs generalizing s with
  | nil => exact ⟨0, .stay⟩
  | cons c cs ih =>
    obtain ⟨j, hfirst⟩ := exists_walk_call s (hcs c List.mem_cons_self)
    obtain ⟨k, hlater⟩ := ih (s.call c).2 fun d hd => hcs d (List.mem_cons_of_mem c hd)
    exact ⟨j + k, hfirst.trans hlater⟩

theorem reached_append (source : String) (cs ds : List Call) :
    reached source (cs ++ ds) = (reached source cs).after ds :=
  after_append (start (Token.scan source)) cs ds

theorem size_reached (source : String) (calls : List Call) :
    (reached source calls).items.size = (Token.scan source).length :=
  congrArg Array.size (items_after (start (Token.scan source)) calls)

/-- Calls that read do not take the cursor back, nor over the end. -/
theorem position_reached_append (source : String) (calls : List Call) {more : List Call}
    (h : ∀ c ∈ more, c.Reads) :
    (reached source calls).position ≤ (reached source (calls ++ more)).position ∧
      ((reached source calls).position ≤ (Token.scan source).length →
        (reached source (calls ++ more)).position ≤ (Token.scan source).length) := by
  obtain ⟨k, hwalk⟩ := exists_walk_after (reached source calls) h
  have hmoved := hwalk.position_eq
  have hinside := hwalk.position_le
  rw [size_reached] at hinside
  rw [reached_append]
  exact ⟨by omega, hinside⟩

/-- Whatever has been called on the tokens of a source, failed calls included. As long as calls only
read, the cursor stays inside and never goes back. A rule ends where its descent does, after
at most four calls of rules for each token that it passes and one for each level; if it answers an
expression, it has passed a token. A parenthesis or an operation is one token when it is read and
none when it is not. Outside the tokens every rule misses an operand at no position, a parenthesis is
missing too, and the cursor stays. -/
theorem run_advances (source : String) :
    (∀ calls c, (start (Token.scan source)).run (calls ++ [c]) =
      (start (Token.scan source)).run calls ++ [(reached source calls).call c]) ∧
    (∀ calls, (∀ c ∈ calls, c.Reads) → 0 ≤ (reached source calls).position ∧
      (reached source calls).position ≤ (Token.scan source).length) ∧
    (∀ calls more, (∀ c ∈ more, c.Reads) →
      (reached source calls).position ≤ (reached source (calls ++ more)).position ∧
      ((reached source calls).position ≤ (Token.scan source).length →
        (reached source (calls ++ more)).position ≤ (Token.scan source).length)) ∧
    ∀ calls s, reached source calls = s →
      (∀ l x r, s.read l = (x, r) ↔ ∃ n, Descent s l x r n) ∧
      (∀ l x r n, Descent s l x r n → ∃ k : Nat, r.position = s.position + k ∧
        n ≤ 4 * k + l.rank + 1 ∧ ∀ e, x = .ok e → 0 < k) ∧
      (∀ r, s.close = (.ok (), r) → r.position = s.position + 1) ∧
      (∀ error r, s.close = (.error error, r) → r.position = s.position) ∧
      (∀ l op r, s.match? l = (some op, r) → r.position = s.position + 1) ∧
      (∀ l r, s.match? l = (none, r) → r.position = s.position) ∧
      (s.position < 0 ∨ (Token.scan source).length ≤ s.position →
        (∀ l, ∃ error, s.read l = (.error error, s) ∧ error.kind = .unexpectedToken ∧
          error.position = none) ∧
        ∃ error, s.close = (.error error, s) ∧ error.kind = .imbalanced) := by
  refine ⟨fun calls c => run_append _ calls [c], ?_, fun calls more => position_reached_append source
    calls, ?_⟩
  · intro calls hcalls
    obtain ⟨hstart, hend⟩ := position_reached_append source [] hcalls
    exact ⟨hstart, hend (Int.natCast_nonneg _)⟩
  · intro calls s hs
    subst hs
    refine ⟨fun l x r => read_eq_iff_descent, ?_, ?_, ?_, ?_, ?_, ?_⟩
    · intro l x r n hd
      obtain ⟨k, hwalk, hn, hpos⟩ := hd.exists_walk
      exact ⟨k, hwalk.position_eq, hn, hpos⟩
    · intro r hc
      obtain ⟨t, -, -, rfl⟩ := exists_current_of_close hc
      rfl
    · intro error r hc
      rw [(eq_of_close_error hc).2]
    · intro l op r ho
      obtain ⟨t, -, -, rfl⟩ := exists_current_of_match? ho
      rfl
    · intro l r ho
      rw [eq_of_match?_none ho]
    · intro hout
      rw [← size_reached source calls] at hout
      have hnone := Cursor.current_eq_none_iff.mpr hout
      exact ⟨fun l => ⟨_, read_of_current_none hnone l, rfl, rfl⟩, _, close_of_current_none hnone,
        rfl⟩

/-- A call that fails may have passed tokens. -/
example : ((start (Token.scan "(-")).run [.read .additive, .match? .additive, .close, .back,
    .back, .back, .read .atomic]).map (·.2.position) = [1, 2, 2, 1, 0, -1, -1] := by cbv

end DecimalComma.Session
