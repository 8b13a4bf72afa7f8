import DecimalComma.Proofs.Command.Independence
import Mathlib.Data.List.TakeWhile

/-! Options: the arguments that choose what is printed about a source, and those about the log and
the caret. A command line with one source and options around it asks for exactly what the options
say, and the settings depend on the second sort alone. -/
namespace DecimalComma.Command

namespace Arguments

variable {arg : String} {options : List String}

theorem lookup_names_of_notMem (h : ∀ s, (arg, s) ∉ Switch.names) :
    Switch.names.lookup arg = none := by
  rw [List.lookup_eq_none_iff]
  intro p hp
  rw [bne_iff_ne]
  rintro rfl
  exact h p.2 hp

/-- What is no name and holds no `=` is letters behind a dash, or else a positional. -/
theorem ofArgument_of_notMem (he : '=' ∉ arg.toList) (hn : ∀ s, (arg, s) ∉ Switch.names) :
    ofArgument arg = .ok (match arg.toList with
      | '-' :: c :: cs => if c = '-' then ⟨[], [arg]⟩ else ofLetters (c :: cs)
      | _ => ⟨[], [arg]⟩) := by
  have hname : arg.toList.takeWhile (fun c => decide (c ≠ '=')) = arg.toList := by
    rw [List.takeWhile_eq_self_iff]
    intro c hc
    exact decide_eq_true fun h => he (h ▸ hc)
  unfold ofArgument
  rw [List.span_eq_takeWhile_dropWhile, hname]
  dsimp only
  rw [String.ofList_toList, lookup_names_of_notMem hn]
  split <;> simp_all

/-- Every name begins with two dashes. -/
theorem notMem_names_of_letters {letters : List Char} (h : letters.head? ≠ some '-') (s : Switch) :
    (String.ofList ('-' :: letters), s) ∉ Switch.names := by
  have hall : (Switch.names.all fun p => p.1.toList.tail.head? = some '-') = true := by decide
  intro hmem
  have hhead := List.all_eq_true.mp hall _ hmem
  rw [String.toList_ofList] at hhead
  exact h (of_decide_eq_true hhead)

theorem ofArgument_letters (letters : List Char) (hne : letters ≠ [])
    (hd : letters.head? ≠ some '-') (he : '=' ∉ letters) :
    ofArgument (String.ofList ('-' :: letters)) = .ok (ofLetters letters) := by
  have he' : '=' ∉ (String.ofList ('-' :: letters)).toList := by simpa using he
  rw [ofArgument_of_notMem he' (notMem_names_of_letters hd), String.toList_ofList]
  obtain ⟨c, cs, rfl⟩ := List.exists_cons_of_ne_nil hne
  have hc : c ≠ '-' := by simpa using hd
  simp [hc]

theorem ofLetters_of_notMem {letters : List Char} (hne : letters ≠ []) (hv : 'v' ∉ letters) :
    ofLetters letters = ⟨[], [String.ofList ('-' :: letters)]⟩ := by
  have hall : letters.filter (· ≠ 'v') = letters := by
    rw [List.filter_eq_self]
    intro c hc
    exact decide_eq_true fun h => hv (h ▸ hc)
  unfold ofLetters
  rw [List.count_eq_zero.mpr hv, hall]
  simp [hne]

/-- An argument that no switch can be read from is a positional as it stands. -/
theorem ofArgument_positional (he : '=' ∉ arg.toList) (hv : 'v' ∉ arg.toList)
    (hn : ∀ s, (arg, s) ∉ Switch.names) : ofArgument arg = .ok ⟨[], [arg]⟩ := by
  rw [ofArgument_of_notMem he hn]
  split
  · rename_i c cs harg
    have hcs : 'v' ∉ c :: cs := fun h => hv (harg ▸ List.mem_cons_of_mem _ h)
    rw [ofLetters_of_notMem (List.cons_ne_nil c cs) hcs, ← harg, String.ofList_toList, ite_self]
  · rfl

/-- The arguments that choose what is printed. -/
def modeFlags : List String := ["--tokens", "--ast"]

/-- The arguments about the log and the caret. -/
inductive IsSetting : String → Prop where
  | verbose : IsSetting "--verbose"
  | letters (n : Nat) : IsSetting (String.ofList ('-' :: List.replicate (n + 1) 'v'))
  | caret {arg : String} (h : arg ∈ caretFlags) : IsSetting arg

/-- The arguments that choose what is printed, or are about the log and the caret. -/
def IsOption (arg : String) : Prop := arg ∈ modeFlags ∨ IsSetting arg

theorem IsSetting.ofArgument (h : IsSetting arg) :
    ∃ w, Arguments.ofArgument arg = .ok ⟨w, []⟩ ∧ ∀ s ∈ w, s.sets := by
  cases h with
  | verbose => exact ⟨_, ofArgument_of_mem_names (by decide : (_, Switch.verbose) ∈ _), by decide⟩
  | letters n =>
    have hread := ofArgument_letters (List.replicate (n + 1) 'v') (by simp)
      (by simp [List.head?_replicate]) (by simp)
    refine ⟨List.replicate (n + 1) .verbose, ?_, ?_⟩
    · rw [hread]
      simp [ofLetters]
    · intro s hs
      rw [List.eq_of_mem_replicate hs]
      rfl
  | caret h =>
    simp only [caretFlags, List.mem_cons, List.not_mem_nil, or_false] at h
    rcases h with rfl | rfl
    · exact ⟨_, ofArgument_of_mem_names (by decide : (_, Switch.caret true) ∈ _), by decide⟩
    · exact ⟨_, ofArgument_of_mem_names (by decide : (_, Switch.caret false) ∈ _), by decide⟩

theorem ofArgument_of_mem_modeFlags (h : arg ∈ modeFlags) :
    ∃ s, (arg, s) ∈ Switch.names ∧ ofArgument arg = .ok ⟨[s], []⟩ ∧ ¬ s.sets := by
  simp only [modeFlags, List.mem_cons, List.not_mem_nil, or_false] at h
  rcases h with rfl | rfl
  · exact ⟨.tokens, by decide⟩
  · exact ⟨.ast, by decide⟩

/-- A switch whose name is about the log or the caret is so itself. -/
theorem IsSetting.sets_of_mem_names {s : Switch} (h : IsSetting arg)
    (hs : (arg, s) ∈ Switch.names) : s.sets := by
  obtain ⟨w, hread, hw⟩ := h.ofArgument
  rw [ofArgument_of_mem_names hs] at hread
  cases hread
  exact hw s (List.mem_singleton_self s)

theorem IsSetting.notMem_modeFlags (h : IsSetting arg) : arg ∉ modeFlags := by
  intro hmem
  obtain ⟨s, hs, -, hsets⟩ := ofArgument_of_mem_modeFlags hmem
  exact hsets (h.sets_of_mem_names hs)

theorem IsOption.ofArgument (h : IsOption arg) : ∃ w, Arguments.ofArgument arg = .ok ⟨w, []⟩ := by
  rcases h with h | h
  · obtain ⟨s, -, hs, -⟩ := ofArgument_of_mem_modeFlags h
    exact ⟨[s], hs⟩
  · obtain ⟨w, hw, -⟩ := h.ofArgument
    exact ⟨w, hw⟩

theorem IsOption.ne_dashes (h : IsOption arg) : arg ≠ "--" := by
  rintro rfl
  obtain ⟨w, hw⟩ := h.ofArgument
  have hread : Arguments.ofArgument "--" = .ok ⟨[], ["--"]⟩ := by decide
  rw [hread] at hw
  cases hw

theorem sum_append (args args' : List String) :
    sum (args ++ args') = (sum args).append (sum args') := by
  simp [sum, append]

theorem dashes_notMem (h : ∀ arg ∈ options, IsOption arg) : "--" ∉ options :=
  fun hmem => (h _ hmem).ne_dashes rfl

theorem exists_ofArgument (h : ∀ arg ∈ options, IsOption arg) :
    ∀ arg ∈ options, ∃ a, ofArgument arg = .ok a := by
  intro arg hmem
  obtain ⟨w, hw⟩ := (h arg hmem).ofArgument
  exact ⟨_, hw⟩

theorem ofList_options (h : ∀ arg ∈ options, IsOption arg) :
    ofList options = .ok ⟨(sum options).switches, []⟩ := by
  have hnone : (sum options).positionals = [] := by
    apply List.flatMap_eq_nil_iff.mpr
    intro arg hmem
    obtain ⟨w, hw⟩ := (h arg hmem).ofArgument
    rw [contribution_of_ofArgument hw]
  rw [ofList_of_forall (dashes_notMem h) (exists_ofArgument h), ← hnone]

/-- Options and, behind `--`, a source. -/
theorem ofList_dashes (h : ∀ arg ∈ options, IsOption arg) (source : String) :
    ofList (options ++ ["--", source]) = .ok ⟨(sum options).switches, [source]⟩ := by
  have hsource : ofList ["--", source] = .ok ⟨[], [source]⟩ := rfl
  rw [ofList_append (dashes_notMem h), ofList_options h, hsource]
  simp [Except.bind, append]

/-- A source with options around it. -/
theorem ofList_around {a b : List String} {source : String} (h : ∀ arg ∈ a ++ b, IsOption arg)
    (hs : source ≠ "--") (hread : ofArgument source = .ok ⟨[], [source]⟩) :
    ofList (a ++ source :: b) = .ok ⟨(sum (a ++ b)).switches, [source]⟩ := by
  have ha : ∀ arg ∈ a, IsOption arg := fun arg hmem => h arg (List.mem_append_left b hmem)
  have hb : ∀ arg ∈ b, IsOption arg := fun arg hmem => h arg (List.mem_append_right a hmem)
  rw [ofList_append (dashes_notMem ha), ofList_cons hs, ofList_options ha, ofList_options hb, hread,
    sum_append]
  simp [Except.bind, append]

/-- A name of a switch of neither sort is no option. -/
theorem notMem_of_names {name : String} {s : Switch} (h : ∀ arg ∈ options, IsOption arg)
    (hs : (name, s) ∈ Switch.names) (hmode : name ∉ modeFlags) (hsets : ¬ s.sets) :
    name ∉ options := by
  intro hmem
  rcases h _ hmem with hmode' | hset
  · exact hmode hmode'
  · exact hsets (hset.sets_of_mem_names hs)

/-- The switches about the log and the caret come from the arguments about them. -/
theorem filter_sets_sum (h : ∀ arg ∈ options, IsOption arg) :
    (sum options).switches.filter Switch.sets =
      (sum (options.filter (· ∉ modeFlags))).switches := by
  induction options with
  | nil => rfl
  | cons arg options ih =>
    have htail := ih fun arg' hmem => h arg' (List.mem_cons_of_mem _ hmem)
    rw [sum_cons, append, List.filter_append, htail]
    rcases h arg List.mem_cons_self with hmode | hset
    · obtain ⟨s, -, hread, hsets⟩ := ofArgument_of_mem_modeFlags hmode
      rw [List.filter_cons_of_neg (by simpa using hmode), contribution_of_ofArgument hread,
        List.filter_cons_of_neg hsets]
      rfl
    · obtain ⟨w, hread, hsets⟩ := hset.ofArgument
      rw [List.filter_cons_of_pos (by simpa using hset.notMem_modeFlags), sum_cons, append,
        contribution_of_ofArgument hread, List.filter_eq_self.mpr hsets]

end Arguments

variable {source : String} {args options : List String} {env : Environment} {s : Settings}

/-- Only the switches about the log and the caret override settings. -/
theorem override_filter_sets (s : Settings) (w : List Switch) :
    override s (w.filter Switch.sets) = override s w := by
  apply override_congr
  · simp [List.mem_filter, Switch.sets]
  · have hcaret : (fun x => if Switch.sets x then Switch.caret? x else none) = Switch.caret? := by
      funext x
      cases x <;> rfl
    rw [lastCaret?_eq, lastCaret?_eq, List.filterMap_filter, hcaret]

/-- The last argument for the caret decides whether it is drawn, or else the settings do. -/
theorem caret_override_sum (h : ∀ arg ∈ options, Arguments.IsOption arg) (s : Settings) :
    (override s (Arguments.sum options).switches).caret =
      (options.filterMap Arguments.caretFlag?).getLast?.getD s.caret := by
  have hflag : (fun arg => if decide (arg ∈ Arguments.caretFlags) then
      Arguments.caretFlag? arg else none) = Arguments.caretFlag? := by
    funext arg
    split_ifs with hmem
    · rfl
    · exact (Arguments.caretFlag?_eq_none_iff.mpr (by simpa using hmem)).symm
  unfold override
  dsimp only
  rw [lastCaret?_eq, Arguments.filterMap_caret?_sum (Arguments.exists_ofArgument h),
    List.filterMap_filter, hflag]

/-- A run whose arguments are options and a source executes the source as the options say. -/
theorem run_of_options (version : String) (host : Host)
    (ho : ∀ arg ∈ options, Arguments.IsOption arg)
    (ha : Arguments.ofList args = .ok ⟨(Arguments.sum options).switches, [source]⟩)
    (hs : source ≠ "") (he : Settings.load env = .ok s) : run version host env args =
      .finished (execute (override s (Arguments.sum options).switches)
        ⟨"--tokens" ∈ options, "--ast" ∈ options⟩ source) := by
  have htokens : .tokens ∈ (Arguments.sum options).switches ↔ "--tokens" ∈ options :=
    Arguments.mem_sum_iff (by decide) (by decide)
  have hast : .ast ∈ (Arguments.sum options).switches ↔ "--ast" ∈ options :=
    Arguments.mem_sum_iff (by decide) (by decide)
  have hpage : (Arguments.sum options).switches.findSome? (Switch.page? version host) = none := by
    rw [findSome?_page?_sum version host
      (Arguments.notMem_of_names ho (by decide : (_, Switch.help) ∈ _) (by decide) (by decide)),
      if_neg (Arguments.notMem_of_names ho (by decide : (_, Switch.version) ∈ _) (by decide)
        (by decide))]
  rw [run_of_ok version host ha, overridden, he]
  unfold answer
  simp [hpage, hs, htokens, hast, Except.map]

end DecimalComma.Command
