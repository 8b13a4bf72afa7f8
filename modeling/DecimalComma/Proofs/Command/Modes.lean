import DecimalComma.Proofs.Command.Options
import DecimalComma.Proofs.Grammar.Reading

/-! What is printed about a source, by the mode. Both listings together are one after the other, and
the modes that parse a source agree on whether it is an expression, since evaluation never fails. -/
namespace DecimalComma.Command

variable {source : String} {e : SyntaxError} {expr : Expr} {s : Settings} {m : Mode}

/-- The value and the tree of a source that is no expression end in the same stage. -/
theorem Stage.ofMode_of_parse_error (h : Expr.parse source = .error e) (hm : m.tokens = false) :
    ofMode m source = ⟨(Calculation.expression source).reports, [], some e⟩ := by
  unfold Expr.parse at h
  unfold ofMode
  rw [hm]
  cases m.ast with
  | false =>
    unfold value print Calculation.value
    dsimp only
    rw [h]
  | true =>
    unfold ast print
    dsimp only
    rw [h]

/-- An expression has a value and a tree. -/
theorem Stage.error_ofMode_of_parse_ok (h : Expr.parse source = .ok expr) (hm : m.tokens = false) :
    (ofMode m source).error = none := by
  unfold Expr.parse at h
  unfold ofMode
  rw [hm]
  cases m.ast with
  | false =>
    unfold value print Calculation.value
    dsimp only
    rw [h]
  | true =>
    unfold ast print
    dsimp only
    rw [h]

/-- What two runs print, one after the other. -/
def Output.andThen (a b : Output) : Output := ⟨b.exit, a.out ++ b.out, a.err ++ b.err⟩

theorem joinLines_append (a b : List String) :
    Outcome.joinLines (a ++ b) = Outcome.joinLines a ++ Outcome.joinLines b := by
  unfold Outcome.joinLines
  rw [List.map_append, String.join_append]

theorem logLines_append (level : LogLevel) (a b : List Report) :
    logLines level (a ++ b) = logLines level a ++ logLines level b := by
  unfold logLines
  rw [List.filter_append, List.map_append]

/-- The tokens end no run, so the tree is printed after them as if alone. -/
theorem execute_tokens_ast (s : Settings) (source : String) : execute s ⟨true, true⟩ source =
    (execute s ⟨true, false⟩ source).andThen (execute s ⟨false, true⟩ source) := by
  unfold execute Stage.ofMode Stage.andThen Output.andThen Stage.tokens
  dsimp only
  cases (Stage.ast source).error with
  | none => simp [logLines_append]
  | some e => simp [logLines_append]

theorem execute_of_parse_error (h : Expr.parse source = .error e) :
    execute s ⟨false, false⟩ source = execute s ⟨false, true⟩ source := by
  unfold execute
  rw [Stage.ofMode_of_parse_error h rfl, Stage.ofMode_of_parse_error h rfl]

/-- A mode that parses a source fails iff it is no expression. -/
theorem exit_execute_eq_one_iff (hm : m.tokens = false) :
    (execute s m source).exit = 1 ↔ ∃ e, Expr.parse source = .error e := by
  rw [exit_execute]
  cases hp : Expr.parse source with
  | error e => simp [Stage.ofMode_of_parse_error hp hm]
  | ok expr => simp [Stage.error_ofMode_of_parse_ok hp hm]

/-- The command lines that ask for a source in a mode: options that choose the mode, these others
among them, and the source behind `--`. -/
def Asks (flags : List String) (m : Mode) (source : String) (args : List String) : Prop :=
  ∃ options, args = options ++ ["--", source] ∧
    options.filter (· ∉ Arguments.modeFlags) = flags ∧
    ("--tokens" ∈ options ↔ m.tokens) ∧ ("--ast" ∈ options ↔ m.ast)

variable {flags args : List String} {env : Environment}

/-- The mode decides about nothing but what is printed. -/
theorem run_of_asks (version : String) (host : Host) (h : Asks flags m source args)
    (hf : ∀ f ∈ flags, Arguments.IsSetting f) (hs : source ≠ "")
    (he : Settings.load env = .ok s) : run version host env args =
      .finished (execute (override s (Arguments.sum flags).switches) m source) := by
  obtain ⟨options, rfl, rfl, htokens, hast⟩ := h
  have hoptions : ∀ arg ∈ options, Arguments.IsOption arg := by
    intro arg hmem
    by_cases hmode : arg ∈ Arguments.modeFlags
    · exact .inl hmode
    · exact .inr (hf arg (List.mem_filter.mpr ⟨hmem, decide_eq_true hmode⟩))
  rw [run_of_options version host hoptions (Arguments.ofList_dashes hoptions source) hs he,
    ← override_filter_sets, Arguments.filter_sets_sum hoptions]
  simp only [htokens, hast, Bool.decide_eq_true]

/-- The modes agree on a source. With the same options for the log and the caret, both listings are
printed one after the other and end as the tree alone does, the tokens never fail, and the value
fails iff the tree does, namely iff the source is no expression, and then with the same output. -/
theorem run_modes (version : String) (host : Host) {args : Mode → List String} (hs : source ≠ "")
    (hf : ∀ f ∈ flags, Arguments.IsSetting f) (he : (Settings.load env).isOk)
    (ha : ∀ m, Asks flags m source (args m)) :
    let r (tokens ast : Bool) : Outcome := run version host env (args ⟨tokens, ast⟩)
    (∀ tokens ast, ∃ o, r tokens ast = .finished o) ∧
      ((r true true).stdout = (r true false).stdout ++ (r false true).stdout ∧
        (r true true).stderr = (r true false).stderr ++ (r false true).stderr ∧
        (r true true).exit = (r false true).exit) ∧
      (r true false).exit = 0 ∧
      ((r false false).exit = 1 ↔ (r false true).exit = 1) ∧
      ((r false true).exit = 1 ↔ ∃ e, Expr.parse source = .error e) ∧
      ((r false true).exit = 1 → r false false = r false true) := by
  intro r
  obtain ⟨settings, hload⟩ : ∃ settings, Settings.load env = .ok settings := by
    cases hload : Settings.load env with
    | error e => simp [hload, Except.isOk, Except.toBool] at he
    | ok settings => exact ⟨settings, rfl⟩
  have hr (tokens ast : Bool) : r tokens ast = .finished (execute
      (override settings (Arguments.sum flags).switches) ⟨tokens, ast⟩ source) :=
    run_of_asks version host (ha _) hf hs hload
  refine ⟨fun tokens ast => ⟨_, hr tokens ast⟩, ?_, ?_, ?_⟩
  · rw [hr, hr, hr, execute_tokens_ast]
    exact ⟨joinLines_append _ _, joinLines_append _ _, rfl⟩
  · rw [hr]
    rfl
  · have hfail (ast : Bool) : (r false ast).exit = 1 ↔ ∃ e, Expr.parse source = .error e := by
      rw [hr]
      exact exit_execute_eq_one_iff rfl
    refine ⟨(hfail false).trans (hfail true).symm, hfail true, ?_⟩
    intro hexit
    obtain ⟨e, hp⟩ := (hfail true).mp hexit
    rw [hr, hr, execute_of_parse_error hp]

/-- A source that is cut off, with a report and without a caret. -/
theorem run_modes_truncated :
    let args (m : Mode) : List String := "-v" :: (if m.tokens then ["--tokens"] else []) ++
      "--no-caret" :: (if m.ast then ["--ast"] else []) ++ ["--", "2+"]
    let r (tokens ast : Bool) : Outcome := run "0.3.0" ⟨"*", "*"⟩ [] (args ⟨tokens, ast⟩)
    "2+" ≠ "" ∧ (∀ f ∈ ["-v", "--no-caret"], Arguments.IsSetting f) ∧ (Settings.load []).isOk ∧
      (∀ m, Asks ["-v", "--no-caret"] m "2+" (args m)) ∧
      (r false true).exit = 1 ∧ r false false = r false true ∧
      (r true true).stdout = (r true false).stdout ++ (r false true).stdout := by
  intro args r
  have hf : ∀ f ∈ ["-v", "--no-caret"], Arguments.IsSetting f := by
    intro f hmem
    simp only [List.mem_cons, List.not_mem_nil, or_false] at hmem
    rcases hmem with rfl | rfl
    · exact .letters 0
    · exact .caret (by decide)
  have ha (m : Mode) : Asks ["-v", "--no-caret"] m "2+" (args m) := by
    refine ⟨(args m).dropLast.dropLast, ?_⟩
    obtain ⟨tokens, ast⟩ := m
    cases tokens <;> cases ast <;> decide
  have he : (Settings.load []).isOk := by decide
  have hscan : Token.scan "2+" = [⟨"2", 0, .number⟩, ⟨"+", 1, .operator⟩] := by cbv
  have hjudge : (Automaton.judge (Token.scan "2+")).1 = .rejected .unexpectedToken none := by
    rw [hscan]
    rfl
  obtain ⟨e, hp, -⟩ := Session.exists_error_of_judge hjudge
  obtain ⟨-, ⟨hout, -⟩, -, -, hfail, hsame⟩ := run_modes "0.3.0" ⟨"*", "*"⟩ (by decide) hf he ha
  have hexit : (r false true).exit = 1 := hfail.mpr ⟨e, hp⟩
  exact ⟨by decide, hf, he, ha, hexit, hsame hexit, hout⟩

end DecimalComma.Command
