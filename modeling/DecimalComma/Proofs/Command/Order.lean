import DecimalComma.Proofs.Command.Independence

/-! Command lines in another order. The places of the arguments decide about nothing but which usage
error is told, and about the caret, for which the last switch counts. -/
namespace DecimalComma.Command

variable {a : Arguments} {args args' : List String} {env : Environment}
  {settings : Except Settings.UnknownLevel Settings} (version : String) (host : Host)

theorem page?_sum_perm (hh : "--help" ∉ args) (hp : args'.Perm args) :
    (Arguments.sum args').switches.findSome? (Switch.page? version host) =
      (Arguments.sum args).switches.findSome? (Switch.page? version host) := by
  have hh' : "--help" ∉ args' := mt hp.mem_iff.mp hh
  rw [findSome?_page?_sum version host hh, findSome?_page?_sum version host hh']
  simp only [hp.mem_iff]

/-- A list with one member at most has one order. -/
theorem alike_sum (hh : "--help" ∉ args) (hp : args'.Perm args)
    (hn : ¬ 1 < (Arguments.sum args).positionals.length) :
    Alike version host (Arguments.sum args) (Arguments.sum args') where
  page := page?_sum_perm version host hh hp
  tokens := (Arguments.switches_sum_perm hp).mem_iff
  ast := (Arguments.switches_sum_perm hp).mem_iff
  positionals := by
    have hperm := Arguments.positionals_sum_perm hp
    match hl : (Arguments.sum args).positionals with
    | [] => exact List.perm_nil.mp (hl ▸ hperm)
    | [p] => exact List.perm_singleton.mp (hl ▸ hperm)
    | _ :: _ :: _ => simp [hl] at hn

theorem answer_of_surplus
    (hpage : a.switches.findSome? (Switch.page? version host) = none)
    (hn : 1 < a.positionals.length) : answer version host a settings =
      .usage (.extraArguments a.positionals.tail) := by
  unfold answer
  rw [hpage]
  exact if_pos hn

theorem answer_of_exit_two (h2 : (answer version host a settings).exit = 2) :
    1 < a.positionals.length ∧
      answer version host a settings = .usage (.extraArguments a.positionals.tail) := by
  unfold answer at h2 ⊢
  cases hpage : a.switches.findSome? (Switch.page? version host) with
  | some page =>
    rw [hpage] at h2
    cases h2
  | none =>
    rw [hpage] at h2
    dsimp only at h2 ⊢
    split_ifs at h2 ⊢ with hn hs
    · exact ⟨hn, rfl⟩
    · cases settings <;> cases h2
    · cases settings with
      | error e => cases h2
      | ok s =>
        dsimp only [Outcome.exit] at h2
        rw [exit_execute] at h2
        split at h2 <;> cases h2

/-- Another order of arguments that are read changes nothing but which positionals are too many. -/
theorem answer_sum_perm (hh : "--help" ∉ args) (hp : args'.Perm args) :
    answer version host (Arguments.sum args') settings =
        answer version host (Arguments.sum args) settings ∨
      ∃ e e', answer version host (Arguments.sum args) settings = .usage e ∧
        answer version host (Arguments.sum args') settings = .usage e' := by
  by_cases hn : 1 < (Arguments.sum args).positionals.length
  · have hn' : 1 < (Arguments.sum args').positionals.length := by
      rwa [(Arguments.positionals_sum_perm hp).length_eq]
    have hpages := page?_sum_perm version host hh hp
    cases hpage : (Arguments.sum args).switches.findSome? (Switch.page? version host) with
    | some page =>
      left
      unfold answer
      rw [hpages, hpage]
    | none =>
      right
      rw [hpage] at hpages
      exact ⟨_, _, answer_of_surplus version host hpage hn,
        answer_of_surplus version host hpages hn'⟩
  · exact .inl (answer_of_alike version host (alike_sum version host hh hp hn))

theorem overridden_sum_perm (hall : ∀ arg ∈ args, ∃ a, Arguments.ofArgument arg = .ok a)
    (hp : args'.Perm args)
    (hc : args'.filter (· ∈ Arguments.caretFlags) = args.filter (· ∈ Arguments.caretFlags)) :
    overridden env (Arguments.sum args').switches = overridden env (Arguments.sum args).switches := by
  have hover (s : Settings) : override s (Arguments.sum args').switches =
      override s (Arguments.sum args).switches :=
    override_congr s (Arguments.switches_sum_perm hp).mem_iff (Arguments.lastCaret?_sum hall hp hc)
  rw [overridden, overridden, funext hover]

/-- An order that keeps that of the switches for the caret changes nothing but the usage error. -/
theorem run_eq_or_usage (hd : "--" ∉ args) (hh : "--help" ∉ args) (hp : args'.Perm args)
    (hc : args'.filter (· ∈ Arguments.caretFlags) = args.filter (· ∈ Arguments.caretFlags)) :
    run version host env args' = run version host env args ∨
      ∃ e e', run version host env args = .usage e ∧ run version host env args' = .usage e' := by
  have hnone : args'.findSome? Arguments.flaw? = none ↔ args.findSome? Arguments.flaw? = none := by
    simp only [Arguments.findSome?_flaw?_eq_none_iff, hp.mem_iff]
  have hlist := Arguments.ofList_eq hd
  have hlist' := Arguments.ofList_eq (mt hp.mem_iff.mp hd)
  cases hf : args.findSome? Arguments.flaw? with
  | some e =>
    obtain ⟨e', hf'⟩ : ∃ e', args'.findSome? Arguments.flaw? = some e' := by
      rw [← Option.ne_none_iff_exists', ne_eq, hnone, hf]
      simp
    rw [hf] at hlist
    rw [hf'] at hlist'
    exact .inr ⟨e, e', run_of_error version host hlist, run_of_error version host hlist'⟩
  | none =>
    have hall := Arguments.findSome?_flaw?_eq_none_iff.mp hf
    rw [hf] at hlist
    rw [hnone.mpr hf] at hlist'
    rw [run_of_ok version host hlist, run_of_ok version host hlist', overridden_sum_perm hall hp hc]
    exact answer_sum_perm version host hh hp

/-- A run ends with the exit code 2 for a usage error alone, namely for that of its arguments. -/
theorem run_of_exit_two (hd : "--" ∉ args) (h2 : (run version host env args).exit = 2) :
    ∃ e, Arguments.usageError? args = some e ∧ run version host env args = .usage e := by
  have hlist := Arguments.ofList_eq hd
  unfold Arguments.usageError?
  cases hf : args.findSome? Arguments.flaw? with
  | some e =>
    rw [hf] at hlist
    exact ⟨e, rfl, run_of_error version host hlist⟩
  | none =>
    rw [hf] at hlist
    rw [run_of_ok version host hlist] at h2 ⊢
    obtain ⟨hn, hr⟩ := answer_of_exit_two version host h2
    exact ⟨_, if_pos hn, hr⟩

/-- Options may stand anywhere: a command line without `--` and `--help` that is put into another
order, the switches for the caret in theirs, ends with the same exit code, output and error raised,
and prints the same to the error stream, unless it ends with a usage error. That one tells, in either
order, the first value for a switch, or else the positionals behind the first one. -/
theorem run_perm (env : Environment) {args args' : List String} (hd : "--" ∉ args)
    (hh : "--help" ∉ args) (hp : args'.Perm args)
    (hc : args'.filter (· ∈ Arguments.caretFlags) = args.filter (· ∈ Arguments.caretFlags)) :
    let r := run version host env
    ((r args').exit = (r args).exit ∧ (r args').stdout = (r args).stdout ∧
      (r args').raised? = (r args).raised?) ∧
    ((r args).exit ≠ 2 → (r args').stderr = (r args).stderr) ∧
    ((r args).exit = 2 → ∀ order ∈ [args, args'], ∃ e, Arguments.usageError? order = some e ∧
      (r order).stderr = Outcome.joinLines [e.message]) := by
  intro r
  have h : r args' = r args ∨ ∃ e e', r args = .usage e ∧ r args' = .usage e' :=
    run_eq_or_usage version host hd hh hp hc
  have hexit : (r args').exit = (r args).exit := by
    rcases h with h | ⟨e, e', h, h'⟩
    · rw [h]
    · rw [h, h']
      rfl
  have htold {order : List String} (hd : "--" ∉ order) (h2 : (r order).exit = 2) :
      ∃ e, Arguments.usageError? order = some e ∧
        (r order).stderr = Outcome.joinLines [e.message] := by
    obtain ⟨e, he, hr⟩ := run_of_exit_two version host hd h2
    exact ⟨e, he, congrArg Outcome.stderr hr⟩
  refine ⟨⟨hexit, ?_⟩, ?_, ?_⟩
  · rcases h with h | ⟨e, e', h, h'⟩
    · rw [h]
      exact ⟨rfl, rfl⟩
    · rw [h, h']
      exact ⟨rfl, rfl⟩
  · intro h2
    rcases h with h | ⟨e, e', h, -⟩
    · rw [h]
    · exact absurd (congrArg Outcome.exit h) h2
  · intro h2 order hmem
    simp only [List.mem_cons, List.not_mem_nil, or_false] at hmem
    rcases hmem with rfl | rfl
    · exact htold hd h2
    · exact htold (mt hp.mem_iff.mp hd) (hexit.trans h2)

/-- Letters behind a dash, a switch and an unknown option change places. -/
theorem run_perm_letters :
    let host : Host := ⟨"*", "*"⟩
    "--" ∉ ["--no-caret", "-1v", "--tokens", "--caret"] ∧
      "--help" ∉ ["--no-caret", "-1v", "--tokens", "--caret"] ∧
      ["--no-caret", "--tokens", "--caret", "-1v"].Perm
        ["--no-caret", "-1v", "--tokens", "--caret"] ∧
      (run "0.3.0" host [] ["--no-caret", "--tokens", "--caret", "-1v"]).stdout =
        (run "0.3.0" host [] ["--no-caret", "-1v", "--tokens", "--caret"]).stdout := by
  intro host
  have hd : "--" ∉ ["--no-caret", "-1v", "--tokens", "--caret"] := by decide
  have hh : "--help" ∉ ["--no-caret", "-1v", "--tokens", "--caret"] := by decide
  have hp : ["--no-caret", "--tokens", "--caret", "-1v"].Perm
      ["--no-caret", "-1v", "--tokens", "--caret"] := by decide
  exact ⟨hd, hh, hp, (run_perm "0.3.0" host [] hd hh hp (by decide)).1.2.1⟩

/-- Of two positionals the second one is told, so the error stream shows their order. -/
theorem stderr_run_swap :
    let r := run "0.3.0" ⟨"*", "*"⟩ []
    "--" ∉ ["1", "2"] ∧ "--help" ∉ ["1", "2"] ∧ ["2", "1"].Perm ["1", "2"] ∧
      ["2", "1"].filter (· ∈ Arguments.caretFlags) =
        ["1", "2"].filter (· ∈ Arguments.caretFlags) ∧
      (r ["1", "2"]).stderr = "Got unexpected extra argument (2)\n" ∧
      (r ["2", "1"]).stderr ≠ (r ["1", "2"]).stderr := by
  decide

end DecimalComma.Command
