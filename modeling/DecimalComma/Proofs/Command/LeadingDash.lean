import DecimalComma.Proofs.Command.Modes
import DecimalComma.Proofs.Diagnostic.Culprit
import DecimalComma.Proofs.Token.Relocation

/-! Sources that begin with a dash. The dash is no sign but an operator without a left operand, so
they are no expressions; on a command line they are sources all the same, and rejected as such. -/
namespace DecimalComma

theorem Token.scan_minus_append (r : String) :
    scan ("-" ++ r) = ⟨"-", 0, .operator⟩ :: (scan r).map (moved (· + 1)) := by
  have hminus : scan "-" = [⟨"-", 0, .operator⟩] := by cbv
  have hb : Boundary "-".toList r.toList := boundary_of_last (u := []) (a := '-') (by decide)
  have happend := scan_append hb
  rwa [hminus] at happend

theorem Expr.parse_of_stray {source : String} {t : Token} {ts : List Token}
    (h : Token.scan source = t :: ts) (hn : t.kind ≠ .number) (ho : ¬ t.isOpening) :
    Expr.parse source = .error (.operandExpected (some t)) := by
  have hrest : (Session.start (Token.scan source)).rest = t :: ts := by
    rw [← h]
    exact Session.rest_on (Token.scan source) 0
  have hparse : Grammar.parse .additive (Session.start (Token.scan source)).rest =
      .error ⟨.operand, t :: ts⟩ := by
    rw [hrest]
    exact Grammar.parse_of_stray hn ho .additive ts
  rw [Session.parse_eq_read, Session.read_of_parse_error hparse]
  rfl

/-- The error for a source that begins with a dash. -/
def SyntaxError.leadingDash : SyntaxError := operandExpected (some ⟨"-", 0, .operator⟩)

theorem SyntaxError.message_leadingDash :
    leadingDash.message = "Expected <number> found <operator '-' at position 0>." := by
  decide +kernel

theorem Expr.parse_of_leading_dash {source : String} (h : source.toList.head? = some '-') :
    Expr.parse source = .error .leadingDash := by
  obtain ⟨cs, hcs⟩ := List.head?_eq_some_iff.mp h
  obtain rfl : source = "-" ++ String.ofList cs := by
    rw [← String.toList_inj]
    simp [hcs]
  exact parse_of_stray (Token.scan_minus_append _) (by decide) (by decide)

namespace Command

variable {source : String} {e : SyntaxError} {s : Settings} {m : Mode} {a b : List String}
  {env : Environment}

/-- A source with the caret below a position, if it is on. -/
def marked (s : Settings) (source : String) (p : Nat) : String :=
  if s.caret then source ++ "\n" ++ String.ofList (List.replicate p ' ' ++ ['^']) else source

theorem escape_notMem_marked (h : '\x1b' ∉ source.toList) (p : Nat) :
    '\x1b' ∉ (marked s source p).toList := by
  unfold marked
  split_ifs
  · simp [h]
  · exact h

/-- Of a source that is no expression nothing but the source is printed, and the message is the last
line of the log. -/
theorem exists_execute_eq (h : Expr.parse source = .error e) (hm : m.tokens = false)
    (hesc : '\x1b' ∉ source.toList) {p : Nat}
    (hp : mentionedPosition? e.message.toList = some p) :
    ∃ log, execute s m source = ⟨1, [marked s source p], log ++ [e.message]⟩ := by
  have hcolumn : (Snippet.ofMessage source e.message).column = some (p : Int) := by
    unfold Snippet.ofMessage
    rw [hp]
    rfl
  have htext : (if s.caret then Snippet.ofMessage source e.message else ⟨source, none⟩).text =
      marked s source p := by
    unfold marked
    split_ifs
    · exact Snippet.text_of_column hcolumn
    · rfl
  unfold execute
  rw [Stage.ofMode_of_parse_error h hm]
  dsimp only
  rw [htext, Text.dropControls_of_not_mem (escape_notMem_marked hesc p), String.ofList_toList]
  exact ⟨_, rfl⟩

theorem exists_execute_leading_dash (h : source.toList.head? = some '-') (hm : m.tokens = false)
    (hesc : '\x1b' ∉ source.toList) : ∃ log, execute s m source = ⟨1, [marked s source 0],
      log ++ ["Expected <number> found <operator '-' at position 0>."]⟩ := by
  have hmention : mentionedPosition? SyntaxError.leadingDash.message.toList = some 0 :=
    SyntaxError.mentionedPosition?_operandExpected rfl (.operator (by decide)) (by decide)
  rw [← SyntaxError.message_leadingDash]
  exact exists_execute_eq (Expr.parse_of_leading_dash h) hm hesc hmention

theorem joinLines_marked_zero (s : Settings) (source : String) :
    Outcome.joinLines [marked s source 0] =
      source ++ "\n" ++ if s.caret then "^\n" else "" := by
  unfold marked
  split_ifs
  · simp [Outcome.joinLines, String.append_assoc]
  · simp [Outcome.joinLines]

/-- The characters that expressions are written in. -/
def Written (c : Char) : Prop := Token.Marks c ∨ c ∈ [',', ' ', '\t', '\n']

instance (c : Char) : Decidable (Written c) := by
  unfold Written
  infer_instance

/-- No switch has a name in these characters. -/
theorem notMem_names_of_written (h : ∀ c ∈ source.toList, Written c) (s : Switch) :
    (source, s) ∉ Switch.names := by
  have hall : (Switch.names.all fun p => p.1.toList.any fun c => ¬ Written c) = true := by decide
  intro hmem
  obtain ⟨c, hc, hn⟩ := List.any_eq_true.mp (List.all_eq_true.mp hall _ hmem)
  exact of_decide_eq_true hn (h c hc)

theorem ofArgument_of_written (h : ∀ c ∈ source.toList, Written c) :
    Arguments.ofArgument source = .ok ⟨[], [source]⟩ := by
  have hnot (c : Char) (hc : ¬ Written c) : c ∉ source.toList := fun hmem => hc (h c hmem)
  exact Arguments.ofArgument_positional (hnot '=' (by decide)) (hnot 'v' (by decide))
    (notMem_names_of_written h)

/-- A source that begins with a dash is never taken for an option. Wherever it stands among options,
it is read as it stands, and it is rejected at its first character: the source is printed, with a
caret below the dash if it is on, and the message comes last. -/
theorem run_of_leading_dash (version : String) (host : Host) {settings : Settings}
    (hhead : source.toList.head? = some '-') (hne : source ≠ "--")
    (hw : ∀ c ∈ source.toList, Written c)
    (ho : ∀ arg ∈ a ++ b, arg = "--ast" ∨ Arguments.IsSetting arg)
    (he : Settings.load env = .ok settings) :
    let r := run version host env (a ++ source :: b)
    let caret := ((a ++ b).filterMap Arguments.caretFlag?).getLast?.getD settings.caret
    (∃ w, Arguments.ofList (a ++ source :: b) = .ok ⟨w, [source]⟩) ∧ r.exit = 1 ∧
      (∃ log, r.stderr = Outcome.joinLines
        (log ++ ["Expected <number> found <operator '-' at position 0>."])) ∧
      r.stdout = source ++ "\n" ++ if caret then "^\n" else "" := by
  intro r caret
  have hoptions : ∀ arg ∈ a ++ b, Arguments.IsOption arg := by
    intro arg hmem
    rcases ho arg hmem with rfl | hset
    · exact .inl (by decide)
    · exact .inr hset
  have hempty : source ≠ "" := by
    rintro rfl
    cases hhead
  have hesc : '\x1b' ∉ source.toList := fun hmem => absurd (hw _ hmem) (by decide)
  have htokens : "--tokens" ∉ a ++ b := by
    intro hmem
    rcases ho _ hmem with h | h
    · exact absurd h (by decide)
    · exact h.notMem_modeFlags (by decide)
  have hargs := Arguments.ofList_around hoptions hne (ofArgument_of_written hw)
  have hr : r = .finished (execute (override settings (Arguments.sum (a ++ b)).switches)
      ⟨"--tokens" ∈ a ++ b, "--ast" ∈ a ++ b⟩ source) :=
    run_of_options version host hoptions hargs hempty he
  obtain ⟨log, hlog⟩ := exists_execute_leading_dash hhead
    (s := override settings (Arguments.sum (a ++ b)).switches)
    (m := ⟨"--tokens" ∈ a ++ b, "--ast" ∈ a ++ b⟩) (decide_eq_false htokens) hesc
  have hcaret : (override settings (Arguments.sum (a ++ b)).switches).caret = caret :=
    caret_override_sum hoptions settings
  rw [hr, hlog, ← hcaret]
  exact ⟨⟨_, hargs⟩, rfl, ⟨log, rfl⟩, joinLines_marked_zero _ _⟩

/-- Two dashes and a number among switches of which the last one draws the caret. -/
theorem run_of_leading_dash_double :
    let env : Environment := [(Settings.levelVariable, "info"), (Settings.caretVariable, "off")]
    let r := run "0.3.0" ⟨"*", "*"⟩ env (["--no-caret", "-v"] ++ "--2" :: ["--ast", "--caret"])
    "--2".toList.head? = some '-' ∧ "--2" ≠ "--" ∧ (∀ c ∈ "--2".toList, Written c) ∧
      (∀ arg ∈ ["--no-caret", "-v"] ++ ["--ast", "--caret"],
        arg = "--ast" ∨ Arguments.IsSetting arg) ∧
      Settings.load env = .ok ⟨.info, false⟩ ∧ r.exit = 1 ∧ r.stdout = "--2\n^\n" := by
  intro env r
  have hw : ∀ c ∈ "--2".toList, Written c := by
    have hall : ("--2".toList.all fun c => Written c) = true := by decide
    exact fun c hmem => of_decide_eq_true (List.all_eq_true.mp hall c hmem)
  have ho : ∀ arg ∈ ["--no-caret", "-v"] ++ ["--ast", "--caret"],
      arg = "--ast" ∨ Arguments.IsSetting arg := by
    intro arg hmem
    simp only [List.cons_append, List.nil_append, List.mem_cons, List.not_mem_nil, or_false] at hmem
    rcases hmem with rfl | rfl | rfl | rfl
    · exact .inr (.caret (by decide))
    · exact .inr (.letters 0)
    · exact .inl rfl
    · exact .inr (.caret (by decide))
  have he : Settings.load env = .ok ⟨.info, false⟩ := by decide
  obtain ⟨-, hexit, -, hout⟩ :=
    run_of_leading_dash "0.3.0" ⟨"*", "*"⟩ (by decide) (by decide) hw ho he
  exact ⟨by decide, by decide, hw, ho, he, hexit, hout⟩

end Command
end DecimalComma
