import DecimalComma.Command.Run
import Mathlib.Data.List.Perm.Basic
import Mathlib.Data.List.TakeDrop

/-! Command lines, argument by argument. As long as no `--` is given, a command line is the sum of
what its arguments contribute, each read by itself, and it is malformed iff one of them is. -/
namespace DecimalComma.Command

/-- What a switch sets the caret to. -/
def Switch.caret? : Switch → Option Bool
  | caret on => some on
  | _ => none

/-- Whether a switch is about the log or the caret. -/
def Switch.sets : Switch → Bool
  | caret _ => true
  | verbose => true
  | _ => false

theorem lastCaret?_eq (switches : List Switch) :
    lastCaret? switches = (switches.filterMap Switch.caret?).getLast? := rfl

namespace Arguments

variable {arg : String} {args args' : List String} {a b x : Arguments} {e : UsageError}

/-- The arguments that set the caret. -/
def caretFlags : List String := ["--caret", "--no-caret"]

/-- What an argument sets the caret to. -/
def caretFlag? (arg : String) : Option Bool :=
  if arg = "--caret" then some true else if arg = "--no-caret" then some false else none

theorem ofArgument_verbose : ofArgument "-v" = .ok ⟨[.verbose], []⟩ := by decide

/-- A switch is read from its name. -/
theorem ofArgument_of_mem_names {s : Switch} (h : (arg, s) ∈ Switch.names) :
    ofArgument arg = .ok ⟨[s], []⟩ := by
  have hall : (Switch.names.all fun p => ofArgument p.1 = .ok ⟨[p.2], []⟩) = true := by decide
  simpa using List.all_eq_true.mp hall _ h

/-- No two names stand for one switch. -/
theorem eq_of_mem_names {name name' : String} {s : Switch} (h : (name, s) ∈ Switch.names)
    (h' : (name', s) ∈ Switch.names) : name = name' := by
  have hall : (Switch.names.all fun p =>
      Switch.names.all fun q => p.2 = q.2 → p.1 = q.1) = true := by decide
  simpa using List.all_eq_true.mp (List.all_eq_true.mp hall _ h) _ h'

/-- How an argument can be read. -/
inductive Reading (arg : String) : Except UsageError Arguments → Prop where
  | value {name value : String} {s : Switch} (hs : (name, s) ∈ Switch.names)
      (h : arg = name ++ "=" ++ value) : Reading arg (.error (.unexpectedValue name))
  | name {s : Switch} (hs : (arg, s) ∈ Switch.names) : Reading arg (.ok ⟨[s], []⟩)
  | letters {letters : List Char} (h : arg = String.ofList ('-' :: letters)) :
      Reading arg (.ok (ofLetters letters))
  | positional : Reading arg (.ok ⟨[], [arg]⟩)

theorem reading_ofArgument (arg : String) : Reading arg (ofArgument arg) := by
  have happend := List.takeWhile_append_dropWhile (p := fun c => decide (c ≠ '=')) (l := arg.toList)
  unfold ofArgument
  rw [List.span_eq_takeWhile_dropWhile]
  dsimp only
  split
  · rename_i s hs
    obtain ⟨l₁, l₂, hl, -⟩ := List.lookup_eq_some_iff.mp hs
    have hmem : (String.ofList (arg.toList.takeWhile fun c => decide (c ≠ '=')), s) ∈
        Switch.names := hl ▸ by simp
    cases hdrop : arg.toList.dropWhile (fun c => decide (c ≠ '=')) with
    | nil =>
      rw [hdrop, List.append_nil] at happend
      rw [happend, String.ofList_toList] at hmem
      exact .name hmem
    | cons c value =>
      have hc : c = '=' := by
        have hhead := List.head?_dropWhile_not (fun c => decide (c ≠ '=')) arg.toList
        rw [hdrop] at hhead
        simpa using hhead
      rw [hdrop, hc] at happend
      have harg : arg = String.ofList (arg.toList.takeWhile fun c => decide (c ≠ '=')) ++ "=" ++
          String.ofList value := by
        apply String.toList_injective
        simpa using happend.symm
      exact .value hmem harg
  · rename_i c cs _ harg
    split_ifs
    · exact .positional
    · exact .letters (String.toList_injective (by simpa using harg))
  · exact .positional

/-- Letters give the switch `-v` alone, every other switch is given by its name. -/
theorem mem_names_of_mem_switches {s : Switch} (h : ofArgument arg = .ok a) (hs : s ∈ a.switches)
    (hv : s ≠ .verbose) : (arg, s) ∈ Switch.names := by
  have hr := reading_ofArgument arg
  rw [h] at hr
  cases hr with
  | name hmem => rwa [List.mem_singleton.mp hs]
  | letters => exact absurd (List.eq_of_mem_replicate hs) hv
  | positional => cases hs

theorem filterMap_caret?_of_ofArgument (h : ofArgument arg = .ok a) :
    a.switches.filterMap Switch.caret? = (caretFlag? arg).toList := by
  by_cases hs : ∃ s, (arg, s) ∈ Switch.names
  · obtain ⟨s, hs⟩ := hs
    have hall : (Switch.names.all fun p =>
        [p.2].filterMap Switch.caret? = (caretFlag? p.1).toList) = true := by decide
    rw [ofArgument_of_mem_names hs] at h
    cases h
    simpa using List.all_eq_true.mp hall _ hs
  · have hn : ∀ s, (arg, s) ∉ Switch.names := fun s h => hs ⟨s, h⟩
    have hflag : caretFlag? arg = none := by
      unfold caretFlag?
      split_ifs with hon hoff
      · exact absurd (hon ▸ by decide) (hn (.caret true))
      · exact absurd (hoff ▸ by decide) (hn (.caret false))
      · rfl
    have hnone : a.switches.filterMap Switch.caret? = [] := by
      rw [List.filterMap_eq_nil_iff]
      intro s hmem
      by_cases hv : s = .verbose
      · rw [hv]
        rfl
      · exact absurd (mem_names_of_mem_switches h hmem hv) (hn s)
    rw [hnone, hflag]
    rfl

theorem caretFlag?_eq_none_iff : caretFlag? arg = none ↔ arg ∉ caretFlags := by
  unfold caretFlag? caretFlags
  split_ifs with hon hoff <;> simp [*]

theorem append_assoc (a b c : Arguments) : (a.append b).append c = a.append (b.append c) := by
  simp [append]

theorem nil_append (a : Arguments) : append {} a = a := by simp [append]

theorem ofList_cons (h : arg ≠ "--") : ofList (arg :: args) =
    (ofArgument arg).bind fun a => (ofList args).bind fun b => .ok (a.append b) := by
  rw [ofList, if_neg h]
  rfl

/-- A command line without `--` is read on its own, whatever follows. -/
theorem ofList_append (h : "--" ∉ args) (args' : List String) : ofList (args ++ args') =
    (ofList args).bind fun a => (ofList args').bind fun b => .ok (a.append b) := by
  induction args with
  | nil =>
    have hnil (x : Except UsageError Arguments) :
        (x.bind fun b => .ok (append {} b)) = x := by
      cases x with
      | error e => rfl
      | ok b => rw [Except.bind, nil_append]
    exact (hnil _).symm
  | cons arg args ih =>
    rw [List.mem_cons, not_or] at h
    rw [List.cons_append, ofList_cons (Ne.symm h.1), ofList_cons (Ne.symm h.1), ih h.2]
    cases ofArgument arg with
    | error e => rfl
    | ok x =>
      cases ofList args with
      | error e => rfl
      | ok y =>
        cases ofList args' with
        | error e => rfl
        | ok z => simp only [Except.bind, append_assoc]

/-- An argument that is read adds what it contributes where it stands. -/
theorem ofList_insert (h : "--" ∉ args) (ha : arg ≠ "--") (hx : ofArgument arg = .ok x)
    (args' : List String) :
    (∃ e, ofList (args ++ args') = .error e ∧ ofList (args ++ arg :: args') = .error e) ∨
      ∃ a b : Arguments, ofList (args ++ args') = .ok (a.append b) ∧
        ofList (args ++ arg :: args') = .ok (a.append (x.append b)) := by
  rw [ofList_append h, ofList_append h, ofList_cons ha, hx]
  cases ofList args with
  | error e => exact .inl ⟨e, rfl, rfl⟩
  | ok a =>
    cases ofList args' with
    | error e => exact .inl ⟨e, rfl, rfl⟩
    | ok b => exact .inr ⟨a, b, rfl, rfl⟩

/-- What an argument contributes; a malformed one nothing. -/
def contribution (arg : String) : Arguments := (ofArgument arg).toOption.getD {}

/-- What arguments contribute together. -/
def sum (args : List String) : Arguments where
  switches := args.flatMap fun arg => (contribution arg).switches
  positionals := args.flatMap fun arg => (contribution arg).positionals

theorem contribution_of_ofArgument (h : ofArgument arg = .ok a) : contribution arg = a := by
  rw [contribution, h]
  rfl

theorem sum_cons (arg : String) (args : List String) :
    sum (arg :: args) = (contribution arg).append (sum args) := rfl

/-- Nothing can be wrong with an argument but a value for a switch, be it empty. -/
theorem ofArgument_eq_error_iff : ofArgument arg = .error e ↔ ∃ name s value,
    (name, s) ∈ Switch.names ∧ arg = name ++ "=" ++ value ∧ e = .unexpectedValue name := by
  constructor
  · intro h
    have hr := reading_ofArgument arg
    rw [h] at hr
    cases hr with
    | value hs harg => exact ⟨_, _, _, hs, harg, rfl⟩
  · intro ⟨name, s, value, hs, harg, he⟩
    have hall : (Switch.names.all fun p =>
        Switch.names.lookup p.1 = some p.2 && decide ('=' ∉ p.1.toList)) = true := by decide
    have hname := List.all_eq_true.mp hall _ hs
    simp only [Bool.and_eq_true, decide_eq_true_eq] at hname
    have hsplit : arg.toList = name.toList ++ '=' :: value.toList := by simp [harg]
    have hpos : ∀ c ∈ name.toList, decide (c ≠ '=') = true := by
      intro c hc
      exact decide_eq_true fun h => hname.2 (h ▸ hc)
    unfold ofArgument
    rw [List.span_eq_takeWhile_dropWhile, hsplit, List.takeWhile_append_of_pos hpos,
      List.dropWhile_append_of_pos hpos]
    simp [hname.1, he]

/-- What is wrong with an argument, if it gives a switch a value. -/
def flaw? (arg : String) : Option UsageError :=
  Switch.names.findSome? fun (name, _) =>
    if name.toList ++ ['='] <+: arg.toList then some (.unexpectedValue name) else none

theorem flaw?_eq_some_iff : flaw? arg = some e ↔ ofArgument arg = .error e := by
  have hread (e : UsageError) (h : flaw? arg = some e) : ofArgument arg = .error e := by
    obtain ⟨⟨name, s⟩, hs, hname⟩ := List.exists_of_findSome?_eq_some h
    dsimp only at hname
    split_ifs at hname with hbegins
    obtain ⟨value, hvalue⟩ := hbegins
    cases hname
    refine ofArgument_eq_error_iff.mpr ⟨name, s, String.ofList value, hs, ?_, rfl⟩
    apply String.toList_injective
    simp [← hvalue]
  constructor
  · exact hread e
  · intro h
    obtain ⟨name, s, value, hs, harg, -⟩ := ofArgument_eq_error_iff.mp h
    cases hf : flaw? arg with
    | none =>
      have hnot := List.findSome?_eq_none_iff.mp hf _ hs
      simp [harg] at hnot
    | some e' =>
      rw [hread e' hf] at h
      cases h
      rfl

theorem flaw?_eq_none_iff : flaw? arg = none ↔ ∃ a, ofArgument arg = .ok a := by
  cases ha : ofArgument arg with
  | error e => simp [flaw?_eq_some_iff.mpr ha]
  | ok a =>
    simp only [Except.ok.injEq, exists_eq', iff_true]
    by_contra hne
    obtain ⟨e, he⟩ := Option.ne_none_iff_exists'.mp hne
    rw [flaw?_eq_some_iff.mp he] at ha
    cases ha

theorem findSome?_flaw?_eq_none_iff :
    args.findSome? flaw? = none ↔ ∀ arg ∈ args, ∃ a, ofArgument arg = .ok a := by
  simp only [List.findSome?_eq_none_iff, flaw?_eq_none_iff]

/-- A command line without `--` is the sum of its arguments, unless something is wrong with one of
them, and then the first such argument is told. -/
theorem ofList_eq (h : "--" ∉ args) : ofList args =
    match args.findSome? flaw? with
    | some e => .error e
    | none => .ok (sum args) := by
  induction args with
  | nil => rfl
  | cons arg args ih =>
    rw [List.mem_cons, not_or] at h
    rw [ofList_cons (Ne.symm h.1), List.findSome?_cons, ih h.2]
    cases ha : ofArgument arg with
    | error e =>
      rw [flaw?_eq_some_iff.mpr ha]
      rfl
    | ok a =>
      have hflaw : flaw? arg = none := flaw?_eq_none_iff.mpr ⟨a, ha⟩
      rw [hflaw, sum_cons, contribution_of_ofArgument ha]
      cases args.findSome? flaw? <;> rfl

theorem ofList_of_forall (h : "--" ∉ args) (hall : ∀ arg ∈ args, ∃ a, ofArgument arg = .ok a) :
    ofList args = .ok (sum args) := by
  rw [ofList_eq h, findSome?_flaw?_eq_none_iff.mpr hall]

/-- The usage error that a command line without `--` can end with: a value for a switch, or else the
positionals behind the first one. -/
def usageError? (args : List String) : Option UsageError :=
  match args.findSome? flaw? with
  | some e => some e
  | none =>
    let positionals := (sum args).positionals
    if 1 < positionals.length then some (.extraArguments positionals.tail) else none

theorem mem_contribution_iff {name : String} {s : Switch} (hs : (name, s) ∈ Switch.names)
    (hv : s ≠ .verbose) : s ∈ (contribution arg).switches ↔ arg = name := by
  constructor
  · intro hmem
    cases hread : ofArgument arg with
    | error e =>
      rw [contribution, hread] at hmem
      cases hmem
    | ok a =>
      rw [contribution_of_ofArgument hread] at hmem
      exact eq_of_mem_names (mem_names_of_mem_switches hread hmem hv) hs
  · rintro rfl
    rw [contribution_of_ofArgument (ofArgument_of_mem_names hs)]
    exact List.mem_singleton_self s

/-- A switch is given iff its name is among the arguments, except that `-v` has letters too. -/
theorem mem_sum_iff {name : String} {s : Switch} (hs : (name, s) ∈ Switch.names)
    (hv : s ≠ .verbose) : s ∈ (sum args).switches ↔ name ∈ args := by
  have hiff (arg : String) : s ∈ (contribution arg).switches ↔ arg = name :=
    mem_contribution_iff hs hv
  simp [sum, List.mem_flatMap, hiff]

theorem filterMap_caret?_sum (h : ∀ arg ∈ args, ∃ a, ofArgument arg = .ok a) :
    (sum args).switches.filterMap Switch.caret? =
      (args.filter (· ∈ caretFlags)).filterMap caretFlag? := by
  induction args with
  | nil => rfl
  | cons arg args ih =>
    obtain ⟨a, ha⟩ := h arg List.mem_cons_self
    have htail := ih fun arg hmem => h arg (List.mem_cons_of_mem _ hmem)
    rw [sum_cons, append, List.filterMap_append, htail, contribution_of_ofArgument ha,
      filterMap_caret?_of_ofArgument ha]
    by_cases hc : arg ∈ caretFlags
    · rw [List.filter_cons_of_pos (by simpa using hc), List.filterMap_cons]
      cases caretFlag? arg <;> rfl
    · rw [List.filter_cons_of_neg (by simpa using hc), caretFlag?_eq_none_iff.mpr hc]
      rfl

theorem switches_sum_perm (h : args'.Perm args) :
    (sum args').switches.Perm (sum args).switches := h.flatMap_right _

theorem positionals_sum_perm (h : args'.Perm args) :
    (sum args').positionals.Perm (sum args).positionals := h.flatMap_right _

/-- In any order, arguments that keep the order of the caret's set it to the same. -/
theorem lastCaret?_sum (h : ∀ arg ∈ args, ∃ a, ofArgument arg = .ok a) (hp : args'.Perm args)
    (hc : args'.filter (· ∈ caretFlags) = args.filter (· ∈ caretFlags)) :
    lastCaret? (sum args').switches = lastCaret? (sum args).switches := by
  have h' : ∀ arg ∈ args', ∃ a, ofArgument arg = .ok a := fun arg hmem =>
    h arg (hp.mem_iff.mp hmem)
  rw [lastCaret?_eq, lastCaret?_eq, filterMap_caret?_sum h, filterMap_caret?_sum h', hc]

end Arguments
end DecimalComma.Command
