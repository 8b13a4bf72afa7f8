import DecimalComma.Proofs.Command.Arguments
import Mathlib.Tactic

/-! What a run depends on. The level of the log decides about the log alone, and the caret about the
diagnostics of a run that fails. -/
namespace DecimalComma.Command
open Settings (UnknownLevel)

/-- The error with which a run ends instead of an output. -/
def Outcome.raised? : Outcome → Option UnknownLevel
  | unconfigured e => some e
  | _ => none

/-- Environments that differ in one variable at most. -/
def AgreeExcept (exempt : String) (env env' : Environment) : Prop :=
  ∀ name ≠ exempt, env'.lookup name = env.lookup name

variable {s : Settings} {m : Mode} {source : String} {a a' : Arguments} {args : List String}
  {w w' : List Switch} {settings settings' : Except UnknownLevel Settings} {env env' : Environment}

theorem exit_execute (s : Settings) (m : Mode) (source : String) :
    (execute s m source).exit = if (Stage.ofMode m source).error.isSome then 1 else 0 := by
  unfold execute
  dsimp only
  cases (Stage.ofMode m source).error <;> rfl

theorem execute_level (level : LogLevel) :
    (execute { s with level } m source).exit = (execute s m source).exit ∧
      (execute { s with level } m source).out = (execute s m source).out := by
  unfold execute
  dsimp only
  cases (Stage.ofMode m source).error with
  | none => exact ⟨rfl, rfl⟩
  | some e => exact ⟨rfl, rfl⟩

/-- Without an error nothing is drawn. -/
theorem execute_caret (caret : Bool) (h : (execute s m source).exit = 0) :
    execute { s with caret } m source = execute s m source := by
  unfold execute at h ⊢
  dsimp only at h ⊢
  cases he : (Stage.ofMode m source).error with
  | none => rfl
  | some e =>
    rw [he] at h
    cases h

/-- How a run ends once its arguments are read and its settings are looked for. -/
def answer (version : String) (host : Host) (a : Arguments)
    (settings : Except UnknownLevel Settings) : Outcome :=
  match a.switches.findSome? (Switch.page? version host) with
  | some page => .finished ⟨0, page, []⟩
  | none =>
    if 1 < a.positionals.length then .usage (.extraArguments a.positionals.tail)
    else match settings with
      | .error e => .unconfigured e
      | .ok s =>
        let source := a.positionals.head?.getD ""
        if source = "" then .finished ⟨1, [], [noInputMessage]⟩
        else .finished (execute s ⟨.tokens ∈ a.switches, .ast ∈ a.switches⟩ source)

/-- The settings of an environment, with what the switches override. -/
def overridden (env : Environment) (switches : List Switch) : Except UnknownLevel Settings :=
  (Settings.load env).map (override · switches)

variable (version : String) (host : Host)

theorem run_of_error {e : UsageError} (h : Arguments.ofList args = .error e) :
    run version host env args = .usage e := by
  rw [run, h]

theorem run_of_ok (h : Arguments.ofList args = .ok a) :
    run version host env args = answer version host a (overridden env a.switches) := by
  rw [run, h]
  unfold answer overridden
  cases Settings.load env <;> rfl

/-- Where no help is asked for, the only page is the version. -/
theorem findSome?_page? (h : .help ∉ w) : w.findSome? (Switch.page? version host) =
    if .version ∈ w then some (versionLines version host) else none := by
  induction w with
  | nil => rfl
  | cons s w ih =>
    rw [List.mem_cons, not_or] at h
    rw [List.findSome?_cons, ih h.2]
    cases s with
    | help => exact absurd rfl h.1
    | version => simp [Switch.page?]
    | _ => simp [Switch.page?]

theorem findSome?_page?_sum (h : "--help" ∉ args) :
    (Arguments.sum args).switches.findSome? (Switch.page? version host) =
      if "--version" ∈ args then some (versionLines version host) else none := by
  have hversion : .version ∈ (Arguments.sum args).switches ↔ "--version" ∈ args :=
    Arguments.mem_sum_iff (by decide) (by decide)
  have hhelp : .help ∈ (Arguments.sum args).switches ↔ "--help" ∈ args :=
    Arguments.mem_sum_iff (by decide) (by decide)
  rw [findSome?_page? version host (mt hhelp.mp h)]
  simp only [hversion]

/-- Arguments that ask for the same. -/
structure Alike (a a' : Arguments) : Prop where
  page : a'.switches.findSome? (Switch.page? version host) =
    a.switches.findSome? (Switch.page? version host)
  tokens : .tokens ∈ a'.switches ↔ .tokens ∈ a.switches
  ast : .ast ∈ a'.switches ↔ .ast ∈ a.switches
  positionals : a'.positionals = a.positionals

theorem answer_of_alike (h : Alike version host a a') :
    answer version host a' settings = answer version host a settings := by
  unfold answer
  simp only [h.page, h.tokens, h.ast, h.positionals]

theorem eq_or_level_of_map (h : settings'.map (·.caret) = settings.map (·.caret)) :
    settings' = settings ∨
      ∃ (s : Settings) (level : LogLevel), settings = .ok s ∧ settings' = .ok { s with level } := by
  match settings, settings', h with
  | .error e, .error _, rfl => exact .inl rfl
  | .ok s, .ok ⟨level, _⟩, rfl => exact .inr ⟨s, level, rfl, rfl⟩

theorem eq_or_caret_of_map (h : settings'.map (·.level) = settings.map (·.level)) :
    settings' = settings ∨
      ∃ (s : Settings) (caret : Bool), settings = .ok s ∧ settings' = .ok { s with caret } := by
  match settings, settings', h with
  | .error e, .error _, rfl => exact .inl rfl
  | .ok s, .ok ⟨_, caret⟩, rfl => exact .inr ⟨s, caret, rfl, rfl⟩

/-- The level shows in the log alone. -/
theorem answer_of_level (h : settings'.map (·.caret) = settings.map (·.caret)) :
    (answer version host a settings').exit = (answer version host a settings).exit ∧
      (answer version host a settings').stdout = (answer version host a settings).stdout ∧
      (answer version host a settings').raised? = (answer version host a settings).raised? := by
  rcases eq_or_level_of_map h with rfl | ⟨s, level, rfl, rfl⟩
  · exact ⟨rfl, rfl, rfl⟩
  · unfold answer
    cases a.switches.findSome? (Switch.page? version host) with
    | some page => exact ⟨rfl, rfl, rfl⟩
    | none =>
      dsimp only
      split_ifs
      · exact ⟨rfl, rfl, rfl⟩
      · exact ⟨rfl, rfl, rfl⟩
      · obtain ⟨hexit, hout⟩ := execute_level level
        exact ⟨hexit, congrArg Outcome.joinLines hout, rfl⟩

/-- The caret shows only where a run fails. -/
theorem answer_of_caret (h : settings'.map (·.level) = settings.map (·.level))
    (h0 : (answer version host a settings).exit = 0) :
    answer version host a settings' = answer version host a settings := by
  rcases eq_or_caret_of_map h with rfl | ⟨s, caret, rfl, rfl⟩
  · rfl
  · unfold answer at h0 ⊢
    cases hpage : a.switches.findSome? (Switch.page? version host) with
    | some page => rfl
    | none =>
      rw [hpage] at h0
      dsimp only at h0 ⊢
      split_ifs at h0 ⊢
      · rfl
      · rfl
      · rw [execute_caret caret h0]

theorem load_eq (env : Environment) : Settings.load env =
    (Settings.readLevel ((env.lookup Settings.levelVariable).getD LogLevel.warning.name)).map
      (⟨·, Settings.readCaret ((env.lookup Settings.caretVariable).getD "1")⟩) := rfl

theorem map_caret_load (h : AgreeExcept Settings.levelVariable env env')
    (hv : (Settings.load env).isOk) (hv' : (Settings.load env').isOk) :
    (Settings.load env').map (·.caret) = (Settings.load env).map (·.caret) := by
  rw [load_eq] at hv hv'
  rw [load_eq, load_eq, h Settings.caretVariable (by decide)]
  generalize Settings.readLevel ((env.lookup Settings.levelVariable).getD _) = l at hv ⊢
  generalize Settings.readLevel ((env'.lookup Settings.levelVariable).getD _) = l' at hv' ⊢
  cases l with
  | error e => cases hv
  | ok l =>
    cases l' with
    | error e => cases hv'
    | ok l' => rfl

theorem map_level_load (h : AgreeExcept Settings.caretVariable env env') :
    (Settings.load env').map (·.level) = (Settings.load env).map (·.level) := by
  rw [load_eq, load_eq, h Settings.levelVariable (by decide)]
  cases Settings.readLevel ((env.lookup Settings.levelVariable).getD LogLevel.warning.name) with
  | error e => simp only [Except.map]
  | ok l => simp only [Except.map]

theorem override_congr (s : Settings) (hv : .verbose ∈ w' ↔ .verbose ∈ w)
    (hc : lastCaret? w' = lastCaret? w) : override s w' = override s w := by
  unfold override
  simp only [hv, hc]

theorem map_caret_overridden (env : Environment) (w : List Switch) :
    (overridden env w).map (·.caret) =
      ((Settings.load env).map (·.caret)).map ((lastCaret? w).getD ·) := by
  unfold overridden
  cases Settings.load env <;> rfl

theorem map_level_overridden (env : Environment) (w : List Switch) :
    (overridden env w).map (·.level) =
      ((Settings.load env).map (·.level)).map (if .verbose ∈ w then .debug else ·) := by
  unfold overridden
  cases Settings.load env <;> rfl

/-- A switch that is about the log or the caret asks for nothing else. -/
theorem alike_append {x : Switch} (hx : x.sets) (a b : Arguments) :
    Alike version host (a.append b) (a.append (Arguments.append ⟨[x], []⟩ b)) := by
  have hpage : x.page? version host = none := by
    cases x <;> first | rfl | cases hx
  have htokens : .tokens ≠ x := by
    intro h
    subst h
    cases hx
  have hast : .ast ≠ x := by
    intro h
    subst h
    cases hx
  constructor <;> simp [Arguments.append, List.findSome?_append, hpage, htokens, hast]

theorem run_insert_verbose (ha : "--" ∉ args) (args' : List String) :
    (run version host env (args ++ "-v" :: args')).exit =
        (run version host env (args ++ args')).exit ∧
      (run version host env (args ++ "-v" :: args')).stdout =
        (run version host env (args ++ args')).stdout ∧
      (run version host env (args ++ "-v" :: args')).raised? =
        (run version host env (args ++ args')).raised? := by
  rcases Arguments.ofList_insert ha (by decide) Arguments.ofArgument_verbose args' with
    ⟨e, h, h'⟩ | ⟨a, b, h, h'⟩
  · rw [run_of_error version host h, run_of_error version host h']
    exact ⟨rfl, rfl, rfl⟩
  · rw [run_of_ok version host h, run_of_ok version host h',
      answer_of_alike version host (alike_append version host rfl a b)]
    apply answer_of_level
    rw [map_caret_overridden, map_caret_overridden]
    simp [lastCaret?_eq, Arguments.append, Switch.caret?]

theorem run_insert_caret {flag : String} (hf : flag ∈ Arguments.caretFlags) (ha : "--" ∉ args)
    (args' : List String) (h0 : (run version host env (args ++ args')).exit = 0) :
    run version host env (args ++ flag :: args') = run version host env (args ++ args') := by
  obtain ⟨on, hflag⟩ : ∃ on, (flag, Switch.caret on) ∈ Switch.names := by
    simp only [Arguments.caretFlags, List.mem_cons, List.not_mem_nil, or_false] at hf
    rcases hf with rfl | rfl
    · exact ⟨true, by decide⟩
    · exact ⟨false, by decide⟩
  have hne : flag ≠ "--" := by
    rintro rfl
    revert hf
    decide
  rcases Arguments.ofList_insert ha hne (Arguments.ofArgument_of_mem_names hflag) args' with
    ⟨e, h, h'⟩ | ⟨a, b, h, h'⟩
  · rw [run_of_error version host h, run_of_error version host h']
  · rw [run_of_ok version host h] at h0 ⊢
    rw [run_of_ok version host h',
      answer_of_alike version host (alike_append version host rfl a b)]
    apply answer_of_caret version host _ h0
    rw [map_level_overridden, map_level_overridden]
    simp [Arguments.append]

theorem run_of_level (h : AgreeExcept Settings.levelVariable env env')
    (hv : (Settings.load env).isOk) (hv' : (Settings.load env').isOk) :
    (run version host env' args).exit = (run version host env args).exit ∧
      (run version host env' args).stdout = (run version host env args).stdout := by
  cases ha : Arguments.ofList args with
  | error e =>
    rw [run_of_error version host ha, run_of_error version host ha]
    exact ⟨rfl, rfl⟩
  | ok a =>
    have hcaret : (overridden env' a.switches).map (·.caret) =
        (overridden env a.switches).map (·.caret) := by
      rw [map_caret_overridden, map_caret_overridden, map_caret_load h hv hv']
    rw [run_of_ok version host ha, run_of_ok version host ha]
    obtain ⟨hexit, hout, -⟩ := answer_of_level version host hcaret
    exact ⟨hexit, hout⟩

theorem run_of_caret (h : AgreeExcept Settings.caretVariable env env')
    (h0 : (run version host env args).exit = 0) :
    run version host env' args = run version host env args := by
  cases ha : Arguments.ofList args with
  | error e => rw [run_of_error version host ha, run_of_error version host ha]
  | ok a =>
    have hlevel : (overridden env' a.switches).map (·.level) =
        (overridden env a.switches).map (·.level) := by
      rw [map_level_overridden, map_level_overridden, map_level_load h]
    rw [run_of_ok version host ha] at h0 ⊢
    rw [run_of_ok version host ha]
    exact answer_of_caret version host hlevel h0

/-- The log and the caret do not interfere with results: `-v` before any `--` and the level of the
environment leave the exit code and the output as they are, and `-v` also the error raised; in a run
that succeeds neither the switches for the caret nor its variable change anything. -/
theorem run_noninterference (env : Environment) {a : List String} (ha : "--" ∉ a)
    (b : List String) :
    ((run version host env (a ++ "-v" :: b)).exit = (run version host env (a ++ b)).exit ∧
      (run version host env (a ++ "-v" :: b)).stdout = (run version host env (a ++ b)).stdout ∧
      (run version host env (a ++ "-v" :: b)).raised? = (run version host env (a ++ b)).raised?) ∧
    (∀ env', AgreeExcept Settings.levelVariable env env' →
      (Settings.load env).isOk → (Settings.load env').isOk →
        (run version host env' (a ++ b)).exit = (run version host env (a ++ b)).exit ∧
          (run version host env' (a ++ b)).stdout = (run version host env (a ++ b)).stdout) ∧
    ((run version host env (a ++ b)).exit = 0 →
      (∀ flag ∈ Arguments.caretFlags,
        run version host env (a ++ flag :: b) = run version host env (a ++ b)) ∧
      ∀ env', AgreeExcept Settings.caretVariable env env' →
        run version host env' (a ++ b) = run version host env (a ++ b)) := by
  refine ⟨run_insert_verbose version host ha b, ?_, ?_⟩
  · intro env' h hv hv'
    exact run_of_level version host h hv hv'
  · intro h0
    refine ⟨?_, ?_⟩
    · intro flag hf
      exact run_insert_caret version host hf ha b h0
    · intro env' h
      exact run_of_caret version host h h0

/-- The tokens of a source that is no expression, with its log and with another caret. -/
theorem run_noninterference_tokens :
    let host : Host := ⟨"*", "*"⟩
    let env : Environment := [(Settings.levelVariable, "info")]
    let quiet := run "0.3.0" host env ["--tokens", "2+"]
    "--" ∉ ["--tokens"] ∧ quiet.exit = 0 ∧
      quiet.stdout = "number '2' at position 0\noperator '+' at position 1\n" ∧
      (run "0.3.0" host env ["--tokens", "-v", "2+"]).stdout = quiet.stdout ∧
      (run "0.3.0" host [(Settings.levelVariable, "debug")] ["--tokens", "2+"]).stdout =
        quiet.stdout ∧
      run "0.3.0" host env ["--tokens", "--no-caret", "2+"] = quiet ∧
      run "0.3.0" host ((Settings.caretVariable, "off") :: env) ["--tokens", "2+"] = quiet := by
  intro host env quiet
  have ha : "--" ∉ ["--tokens"] := by decide
  have h0 : quiet.exit = 0 := by decide +kernel
  have hout : quiet.stdout = "number '2' at position 0\noperator '+' at position 1\n" := by
    decide +kernel
  obtain ⟨⟨-, hverbose, -⟩, hlevel, hcaret⟩ := run_noninterference "0.3.0" host env ha ["2+"]
  obtain ⟨hflag, henv⟩ := hcaret h0
  have hdebug : AgreeExcept Settings.levelVariable env [(Settings.levelVariable, "debug")] := by
    intro name hn
    simp [env, hn]
  have hoff : AgreeExcept Settings.caretVariable env ((Settings.caretVariable, "off") :: env) := by
    intro name hn
    rw [List.lookup_cons, beq_eq_false_iff_ne.mpr hn]
  exact ⟨ha, h0, hout, hverbose, (hlevel _ hdebug (by decide) (by decide)).2,
    hflag "--no-caret" (by decide), henv _ hoff⟩

end DecimalComma.Command
