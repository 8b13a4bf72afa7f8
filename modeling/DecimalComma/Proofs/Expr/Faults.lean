import DecimalComma.Proofs.Expr.Node
import Mathlib.Logic.Relation

/-! The faults of a document, said of its nodes. A document is an expression iff all its nodes are
sound, and otherwise exactly the faults of its nodes are listed, those of a left operand first. -/
namespace DecimalComma.Document

/-- The nodes of a document with the tags and fields on the way to them: the document itself, and the
nodes of the operands of a node with a valid tag. -/
inductive Node : Json → List String → Json → Prop where
  | root (j : Json) : Node j [] j
  | operand {ms : List (String × Json)} {shape : Shape} {field : String} {c k : Json}
      {path : List String} (ht : Tagged ms shape) (hf : field ∈ shape.operands)
      (hc : Json.member? field ms = some c) (hk : Node c path k) :
      Node (.object ms) (shape.tag :: field :: path) k

/-- A node as it should be: an object with a valid tag and the fields that it asks for, and with a
number in a number node. -/
inductive Sound : Json → Prop where
  | object {ms : List (String × Json)} {shape : Shape} (ht : Tagged ms shape)
      (hf : ∀ field ∈ shape.fields, Json.member? field ms ≠ none)
      (hv : shape = .number → ∀ v, Json.member? "value" ms = some v → ∃ x, HoldsNumber v x) :
      Sound (.object ms)

/-- A fault of a node itself, with what is left of the path to it. -/
inductive Flaw : Json → Fault → Prop where
  | notObject {j : Json} (h : ∀ ms, j ≠ .object ms) : Flaw j ⟨.notObject, []⟩
  | tagMissing {ms : List (String × Json)} (h : Json.member? "type" ms = none) :
      Flaw (.object ms) ⟨.tagMissing, []⟩
  | tagUnknown {ms : List (String × Json)} {t : Json} (h : Json.member? "type" ms = some t)
      (ht : ∀ shape : Shape, t ≠ .string shape.tag) : Flaw (.object ms) ⟨.tagUnknown, []⟩
  | fieldMissing {ms : List (String × Json)} {shape : Shape} {field : String} (ht : Tagged ms shape)
      (hf : field ∈ shape.fields) (h : Json.member? field ms = none) :
      Flaw (.object ms) ⟨.fieldMissing, [shape.tag, field]⟩
  | noNumber {ms : List (String × Json)} {v : Json} (ht : Tagged ms .number)
      (hv : Json.member? "value" ms = some v) (h : ∀ x, ¬ HoldsNumber v x) :
      Flaw (.object ms) ⟨numberProblem v, ["number", "value"]⟩

/-- The fault at the end of a longer path. -/
def Fault.under (path : List String) (f : Fault) : Fault := ⟨f.problem, path ++ f.path⟩

/-- The faults of a document are those of its nodes. -/
def HasFault (j : Json) (f : Fault) : Prop :=
  ∃ path k g, Node j path k ∧ Flaw k g ∧ f = g.under path

/-- The faults stand below the left and the right operand of one node. -/
def Before (f g : Fault) : Prop :=
  ∃ path tag p q, f.path = path ++ tag :: "left" :: p ∧ g.path = path ++ tag :: "right" :: q

variable {path place : List String} {ms : List (String × Json)} {shape : Shape}
  {field tag : String} {op : Operation} {j k c v : Json} {x : Float} {e : Expr} {f g : Fault}

theorem Fault.under_under (p q : List String) (f : Fault) :
    (f.under q).under p = f.under (p ++ q) := by
  unfold under
  rw [List.append_assoc]

theorem Fault.under_nil (p : Problem) (path : List String) :
    (⟨p, []⟩ : Fault).under path = ⟨p, path⟩ := by
  unfold under
  rw [List.append_nil]

theorem Before.under (h : Before f g) (path : List String) :
    Before (f.under path) (g.under path) := by
  obtain ⟨r, tag, p, q, hf, hg⟩ := h
  exact ⟨path ++ r, tag, p, q, by simp [Fault.under, hf], by simp [Fault.under, hg]⟩

theorem Before.path_ne (h : Before f g) : f.path ≠ g.path := by
  obtain ⟨r, tag, p, q, hf, hg⟩ := h
  rw [hf, hg]
  simp

/-- The paths part at the fields for operands. -/
theorem Before.exists_parting (h : Before f g) :
    ∃ n, (∀ i ≤ n, f.path[i]? = g.path[i]?) ∧
      f.path[n + 1]? = some "left" ∧ g.path[n + 1]? = some "right" := by
  obtain ⟨r, tag, p, q, hf, hg⟩ := h
  refine ⟨r.length, ?_, ?_, ?_⟩
  · intro i hi
    rw [hf, hg]
    rcases hi.lt_or_eq with hlt | rfl
    · rw [List.getElem?_append_left hlt, List.getElem?_append_left hlt]
    · simp
  · simp [hf]
  · simp [hg]

theorem Before.asymm (h : Before f g) : ¬ Before g f := by
  intro h'
  obtain ⟨n, heq, hf, hg⟩ := h.exists_parting
  obtain ⟨m, heq', hg', hf'⟩ := h'.exists_parting
  have hdiff : f.path[n + 1]? ≠ g.path[n + 1]? := by simp [hf, hg]
  have hdiff' : g.path[m + 1]? ≠ f.path[m + 1]? := by simp [hf', hg']
  rcases Nat.lt_trichotomy n m with hlt | rfl | hgt
  · exact hdiff (heq' (n + 1) hlt).symm
  · simp [hf] at hf'
  · exact hdiff' (heq (m + 1) hgt).symm

/-- A list in this order is determined by its members. -/
theorem eq_of_pairwise_before {fs gs : List Fault} (hf : fs.Pairwise Before)
    (hg : gs.Pairwise Before) (h : ∀ f, f ∈ fs ↔ f ∈ gs) : fs = gs := by
  have hirrefl : Std.Irrefl Before := ⟨fun f hb => hb.path_ne rfl⟩
  have hperm : fs.Perm gs := (List.perm_ext_iff_of_nodup hf.nodup hg.nodup).mpr h
  exact hperm.eq_of_pairwise (fun f g _ _ hfg hgf => absurd hgf hfg.asymm) hf hg

/-- The faults of a node with a valid tag itself: what its fields lack. -/
theorem flaw_iff_of_tagged (ht : Tagged ms shape) :
    Flaw (.object ms) f ↔
      (∃ field ∈ shape.fields, Json.member? field ms = none ∧
        f = ⟨.fieldMissing, [shape.tag, field]⟩) ∨
      shape = .number ∧ ∃ v, Json.member? "value" ms = some v ∧ (∀ x, ¬ HoldsNumber v x) ∧
        f = ⟨numberProblem v, ["number", "value"]⟩ := by
  constructor
  · intro h
    cases h with
    | notObject h => exact absurd rfl (h _)
    | tagMissing h => cases h.symm.trans ht
    | tagUnknown h hs => exact absurd (Option.some.inj (h.symm.trans ht)) (hs _)
    | fieldMissing ht' hf h =>
      cases ht.unique ht'
      exact .inl ⟨_, hf, h, rfl⟩
    | noNumber ht' hv h => exact .inr ⟨ht.unique ht', _, hv, h, rfl⟩
  · rintro (⟨field, hf, h, rfl⟩ | ⟨rfl, v, hv, h, rfl⟩)
    · exact .fieldMissing ht hf h
    · exact .noNumber ht hv h

/-- A node without a valid tag has one fault. -/
theorem Flaw.unique (h : ∀ ms shape, j = .object ms → ¬ Tagged ms shape) (hf : Flaw j f)
    (hg : Flaw j g) : f = g := by
  cases hf with
  | notObject hj =>
    cases hg with
    | notObject => rfl
    | _ => exact absurd rfl (hj _)
  | tagMissing hnone =>
    cases hg with
    | notObject hj => exact absurd rfl (hj _)
    | tagMissing => rfl
    | tagUnknown ht => cases hnone.symm.trans ht
    | fieldMissing ht => exact absurd ht (h _ _ rfl)
    | noNumber ht => exact absurd ht (h _ _ rfl)
  | tagUnknown ht hs =>
    cases hg with
    | notObject hj => exact absurd rfl (hj _)
    | tagMissing hnone => cases ht.symm.trans hnone
    | tagUnknown => rfl
    | fieldMissing ht' => exact absurd ht' (h _ _ rfl)
    | noNumber ht' => exact absurd ht' (h _ _ rfl)
  | fieldMissing ht => exact absurd ht (h _ _ rfl)
  | noNumber ht => exact absurd ht (h _ _ rfl)

theorem sound_iff : Sound k ↔ ∀ f, ¬ Flaw k f := by
  constructor
  · rintro ⟨ht, hf, hv⟩ f hflaw
    rcases (flaw_iff_of_tagged ht).mp hflaw with ⟨field, hmem, h, -⟩ | ⟨hs, v, hval, h, -⟩
    · exact hf field hmem h
    · obtain ⟨x, hx⟩ := hv hs v hval
      exact h x hx
  · intro h
    by_cases hk : ∃ ms, k = .object ms
    · obtain ⟨ms, rfl⟩ := hk
      rcases type_cases ms with hnone | ⟨t, ht, hs⟩ | ⟨shape, ht⟩
      · exact absurd (.tagMissing hnone) (h _)
      · exact absurd (.tagUnknown ht hs) (h _)
      · refine .object ht (fun field hf hnone => h _ (.fieldMissing ht hf hnone)) ?_
        rintro rfl v hv
        by_contra hx
        exact h _ (.noNumber ht hv (not_exists.mp hx))
    · exact absurd (.notObject (not_exists.mp hk)) (h _)

theorem hasFault_of_flaw (h : Flaw j f) : HasFault j f := ⟨[], j, f, .root j, h, rfl⟩

/-- The faults that a field for an operand adds to a node. -/
inductive OperandFault (ms : List (String × Json)) (tag field : String) : Fault → Prop where
  | missing (h : Json.member? field ms = none) :
      OperandFault ms tag field ⟨.fieldMissing, [tag, field]⟩
  | inside {c : Json} {f : Fault} (hc : Json.member? field ms = some c) (hf : HasFault c f) :
      OperandFault ms tag field (f.under [tag, field])

theorem hasFault_iff_flaw
    (h : ∀ ms shape, j = .object ms → Tagged ms shape → shape = .number) :
    HasFault j f ↔ Flaw j f := by
  constructor
  · rintro ⟨path, k, g, hk, hg, rfl⟩
    cases hk with
    | root => exact hg
    | operand ht hf hc hk =>
      cases h _ _ rfl ht
      cases hf
  · exact hasFault_of_flaw

theorem fields_eq_operands (hs : shape ≠ .number) : shape.fields = shape.operands := by
  cases shape with
  | number => exact absurd rfl hs
  | group => rfl
  | binary op => rfl

/-- The faults of a node that has operands are those of its operands. -/
theorem hasFault_iff_operandFault (ht : Tagged ms shape) (hs : shape ≠ .number) :
    HasFault (.object ms) f ↔ ∃ field ∈ shape.operands, OperandFault ms shape.tag field f := by
  constructor
  · rintro ⟨path, k, g, hk, hg, rfl⟩
    cases hk with
    | root =>
      rcases (flaw_iff_of_tagged ht).mp hg with ⟨field, hf, h, rfl⟩ | ⟨hnumber, -⟩
      · rw [fields_eq_operands hs] at hf
        exact ⟨field, hf, .missing h⟩
      · exact absurd hnumber hs
    | operand ht' hf hc hk =>
      cases ht.unique ht'
      exact ⟨_, hf, .inside hc ⟨_, _, g, hk, hg, rfl⟩⟩
  · rintro ⟨field, hf, hfault⟩
    cases hfault with
    | missing h => exact hasFault_of_flaw (.fieldMissing ht (operands_subset_fields shape hf) h)
    | inside hc hin =>
      obtain ⟨path, k, g, hk, hg, rfl⟩ := hin
      exact ⟨_, k, g, .operand ht hf hc hk, hg, Fault.under_under _ _ _⟩

theorem OperandFault.exists_path (h : OperandFault ms tag field f) :
    ∃ p, f.path = tag :: field :: p := by
  cases h with
  | missing => exact ⟨[], rfl⟩
  | inside hc hf => exact ⟨_, rfl⟩

/-- An answer at a path is a sought expression if there are no faults, and otherwise all the faults
in order. -/
def Answers (path : List String) (r : Except (List Fault) Expr) (M : Expr → Prop)
    (F : Fault → Prop) : Prop :=
  ∃ fs : List Fault, (∀ f, f ∈ fs ↔ F f) ∧ fs.Pairwise Before ∧
    ((fs = [] ∧ ∃ e, M e ∧ r = .ok e) ∨ (fs ≠ [] ∧ r = .error (fs.map (Fault.under path))))

variable {r s : Except (List Fault) Expr} {M N : Expr → Prop} {F G : Fault → Prop}

theorem Answers.of_ok (hF : ∀ f, ¬ F f) (hM : M e) : Answers path (.ok e) M F :=
  ⟨[], by simp [hF], .nil, .inl ⟨rfl, e, hM, rfl⟩⟩

theorem Answers.of_fault (hF : ∀ f, F f ↔ f = g) : Answers path (.error [g.under path]) M F :=
  ⟨[g], by simp [hF], List.pairwise_singleton _ _, .inr ⟨by simp, rfl⟩⟩

theorem Answers.congr (h : Answers path r M F) (hM : ∀ e, M e → N e) (hF : ∀ f, F f ↔ G f) :
    Answers path r N G := by
  obtain ⟨fs, hmem, hord, hr⟩ := h
  refine ⟨fs, fun f => (hmem f).trans (hF f), hord, ?_⟩
  rcases hr with ⟨hnil, e, he, hr⟩ | hr
  · exact .inl ⟨hnil, e, hM e he, hr⟩
  · exact .inr hr

theorem Answers.group (h : Answers path r M F) :
    Answers path (r.map .group) (fun e => ∃ a, M a ∧ e = .group a) F := by
  obtain ⟨fs, hmem, hord, hr⟩ := h
  refine ⟨fs, hmem, hord, ?_⟩
  rcases hr with ⟨hnil, e, he, rfl⟩ | ⟨hne, rfl⟩
  · exact .inl ⟨hnil, _, ⟨e, he, rfl⟩, rfl⟩
  · exact .inr ⟨hne, rfl⟩

theorem Answers.combine (h : Answers path r M F) (h' : Answers path s N G)
    (hord : ∀ f g, F f → G g → Before f g) (op : Operation) :
    Answers path (Document.combine op r s) (fun e => ∃ a b, M a ∧ N b ∧ e = .binary op a b)
      fun f => F f ∨ G f := by
  obtain ⟨fs, hmem, hfs, hr⟩ := h
  obtain ⟨gs, hmem', hgs, hs⟩ := h'
  refine ⟨fs ++ gs, ?_, ?_, ?_⟩
  · intro f
    rw [List.mem_append, hmem, hmem']
  · rw [List.pairwise_append]
    exact ⟨hfs, hgs, fun f hf g hg => hord f g ((hmem f).mp hf) ((hmem' g).mp hg)⟩
  · -- faults of one operand do not hide those of the other
    rcases hr with ⟨rfl, a, ha, rfl⟩ | ⟨hne, rfl⟩ <;> rcases hs with ⟨rfl, b, hb, rfl⟩ | ⟨hne', rfl⟩
    · exact .inl ⟨rfl, _, ⟨a, b, ha, hb, rfl⟩, rfl⟩
    · exact .inr ⟨by simpa using hne', rfl⟩
    · exact .inr ⟨by simpa using hne, by simp [Document.combine]⟩
    · exact .inr ⟨by simp [hne], by simp [Document.combine]⟩

theorem Answers.operand (path : List String) (tag field : String)
    (h : ∀ c path, Json.member? field ms = some c →
      Answers path (check path c) (Mirrors c) (HasFault c)) :
    Answers path (operand (path ++ [tag, field]) field ms)
      (fun e => ∃ c, Json.member? field ms = some c ∧ Mirrors c e) (OperandFault ms tag field) := by
  cases hc : Json.member? field ms with
  | none =>
    have hF (f : Fault) : OperandFault ms tag field f ↔ f = ⟨.fieldMissing, [tag, field]⟩ := by
      constructor
      · intro hf
        cases hf with
        | missing => rfl
        | inside hc' => cases hc.symm.trans hc'
      · rintro rfl
        exact .missing hc
    rw [operand_of_none hc]
    exact Answers.of_fault hF
  | some c =>
    obtain ⟨fs, hmem, hord, hr⟩ := h c (path ++ [tag, field]) hc
    refine ⟨fs.map (Fault.under [tag, field]), ?_, ?_, ?_⟩
    · intro f
      rw [List.mem_map]
      constructor
      · rintro ⟨g, hg, rfl⟩
        exact .inside hc ((hmem g).mp hg)
      · intro hf
        cases hf with
        | missing hnone => cases hc.symm.trans hnone
        | inside hc' hg =>
          cases hc.symm.trans hc'
          exact ⟨_, (hmem _).mpr hg, rfl⟩
    · exact List.pairwise_map.mpr (hord.imp fun hb => hb.under _)
    · rw [operand_of_some hc]
      rcases hr with ⟨rfl, e, he, hr⟩ | ⟨hne, hr⟩
      · exact .inl ⟨rfl, e, ⟨c, rfl, he⟩, hr⟩
      · refine .inr ⟨by simpa using hne, ?_⟩
        rw [hr, List.map_map]
        exact congrArg Except.error (List.map_congr_left fun f _ => (f.under_under _ _).symm)

theorem Answers.of_flaw (h : ∀ ms shape, j = .object ms → ¬ Tagged ms shape) (hg : Flaw j g) :
    Answers path (.error [g.under path]) M (HasFault j) := by
  apply Answers.of_fault
  intro f
  rw [hasFault_iff_flaw fun ms shape hj ht => absurd ht (h ms shape hj)]
  constructor
  · exact fun hf => hf.unique h hg
  · rintro rfl
    exact hg

theorem answers_number (ht : Tagged ms .number) (path : List String) :
    Answers path (check path (.object ms)) (Mirrors (.object ms)) (HasFault (.object ms)) := by
  have hnode : ∀ ns shape, Json.object ms = .object ns → Tagged ns shape → shape = .number := by
    rintro _ shape ⟨⟩ hs
    exact hs.unique ht
  have hfault (f : Fault) : HasFault (.object ms) f ↔
      (Json.member? "value" ms = none ∧ f = ⟨.fieldMissing, ["number", "value"]⟩) ∨
      ∃ v, Json.member? "value" ms = some v ∧ (∀ x, ¬ HoldsNumber v x) ∧
        f = ⟨numberProblem v, ["number", "value"]⟩ := by
    rw [hasFault_iff_flaw hnode, flaw_iff_of_tagged ht]
    simp [Shape.fields, Shape.tag]
  rw [check_of_tagged ht, checkFields]
  cases hv : Json.member? "value" ms with
  | none =>
    have honly (f : Fault) :
        HasFault (.object ms) f ↔ f = ⟨.fieldMissing, ["number", "value"]⟩ := by
      rw [hfault, hv]
      simp
    exact Answers.of_fault honly
  | some v =>
    dsimp only
    by_cases hx : ∃ x, HoldsNumber v x
    · obtain ⟨x, hx⟩ := hx
      rw [readValue_eq_ok_iff.mpr hx]
      refine Answers.of_ok (fun f hf => ?_) (.number ht hv hx)
      rcases (hfault f).mp hf with ⟨hnone, -⟩ | ⟨w, hw, hno, -⟩
      · cases hv.symm.trans hnone
      · cases hv.symm.trans hw
        exact hno x hx
    · have honly (f : Fault) :
          HasFault (.object ms) f ↔ f = ⟨numberProblem v, ["number", "value"]⟩ := by
        rw [hfault, hv]
        simp [not_exists.mp hx]
      rw [readValue_of_not (not_exists.mp hx)]
      exact Answers.of_fault honly

theorem answers_group (ht : Tagged ms .group) (path : List String)
    (ih : ∀ c path, Json.member? "content" ms = some c →
      Answers path (check path c) (Mirrors c) (HasFault c)) :
    Answers path (check path (.object ms)) (Mirrors (.object ms)) (HasFault (.object ms)) := by
  rw [check_of_tagged ht, checkFields]
  refine (Answers.operand path "parentheses" "content" ih).group.congr ?_ ?_
  · rintro _ ⟨a, ⟨c, hc, ha⟩, rfl⟩
    exact .group ht hc ha
  · intro f
    rw [hasFault_iff_operandFault ht (by simp)]
    simp [Shape.operands, Shape.tag]

theorem answers_binary (ht : Tagged ms (.binary op)) (path : List String)
    (ih : ∀ field c path, Json.member? field ms = some c →
      Answers path (check path c) (Mirrors c) (HasFault c)) :
    Answers path (check path (.object ms)) (Mirrors (.object ms)) (HasFault (.object ms)) := by
  have hleft := Answers.operand path op.tag "left" (ih "left")
  have hright := Answers.operand path op.tag "right" (ih "right")
  have hord (f g : Fault) (hf : OperandFault ms op.tag "left" f)
      (hg : OperandFault ms op.tag "right" g) : Before f g := by
    obtain ⟨p, hp⟩ := hf.exists_path
    obtain ⟨q, hq⟩ := hg.exists_path
    exact ⟨[], op.tag, p, q, hp, hq⟩
  rw [check_of_tagged ht, checkFields]
  refine (hleft.combine hright hord op).congr ?_ ?_
  · rintro _ ⟨a, b, ⟨l, hl, ha⟩, ⟨r, hr, hb⟩, rfl⟩
    exact .binary ht hl hr ha hb
  · intro f
    rw [hasFault_iff_operandFault ht (by simp)]
    simp [Shape.operands, Shape.tag]

/-- The reader answers right at a node because it does at the operands. -/
theorem answers_check (j : Json) (path : List String) :
    Answers path (check path j) (Mirrors j) (HasFault j) := by
  induction j using Json.member_induction generalizing path with
  | h j ih =>
    by_cases hj : ∃ ms, j = .object ms
    · obtain ⟨ms, rfl⟩ := hj
      rcases type_cases ms with hnone | ⟨t, ht, hs⟩ | ⟨shape, ht⟩
      · rw [check_of_tagMissing hnone, ← Fault.under_nil]
        refine Answers.of_flaw ?_ (.tagMissing hnone)
        rintro _ shape ⟨⟩ hs
        cases hnone.symm.trans hs
      · rw [check_of_tagUnknown ht hs, ← Fault.under_nil]
        refine Answers.of_flaw ?_ (.tagUnknown ht hs)
        rintro _ shape ⟨⟩ hs'
        exact absurd (Option.some.inj (ht.symm.trans hs')) (hs shape)
      · cases shape with
        | number => exact answers_number ht path
        | group => exact answers_group ht path fun c path hc => ih ms "content" c rfl hc path
        | binary op => exact answers_binary ht path fun field c path hc => ih ms field c rfl hc path
    · rw [check_of_notObject (not_exists.mp hj), ← Fault.under_nil]
      refine Answers.of_flaw ?_ (.notObject (not_exists.mp hj))
      exact fun ms shape h => absurd ⟨ms, h⟩ hj

theorem check_eq_ok_iff : check path j = .ok e ↔ Mirrors j e := by
  constructor
  · intro h
    obtain ⟨fs, -, -, ⟨-, e', he, hr⟩ | ⟨-, hr⟩⟩ := answers_check j path
    · cases h.symm.trans hr
      exact he
    · cases h.symm.trans hr
  · exact fun h => check_of_mirrors h path

/-- The faults of a document that is no expression are listed without omission and in order. -/
theorem check_eq_error_iff {fs : List Fault} :
    check [] j = .error fs ↔
      fs ≠ [] ∧ (∀ f, f ∈ fs ↔ HasFault j f) ∧ fs.Pairwise Before := by
  obtain ⟨gs, hmem, hord, hr⟩ := answers_check j []
  have hmap : gs.map (Fault.under []) = gs := List.map_id gs
  rw [hmap] at hr
  constructor
  · intro h
    rcases hr with ⟨-, e, -, hr⟩ | ⟨hne, hr⟩
    · cases h.symm.trans hr
    · cases h.symm.trans hr
      exact ⟨hne, hmem, hord⟩
  · rintro ⟨hne, hmem', hord'⟩
    obtain rfl : fs = gs :=
      eq_of_pairwise_before hord' hord fun f => (hmem' f).trans (hmem f).symm
    rcases hr with ⟨hnil, -⟩ | ⟨-, hr⟩
    · exact absurd hnil hne
    · exact hr

theorem exists_check_eq_ok_iff :
    (∃ e, check [] j = .ok e) ↔ ∀ path k, Node j path k → Sound k := by
  have hsound : (∀ path k, Node j path k → Sound k) ↔ ∀ f, ¬ HasFault j f := by
    constructor
    · rintro h f ⟨path, k, g, hk, hg, -⟩
      exact sound_iff.mp (h path k hk) g hg
    · intro h path k hk
      exact sound_iff.mpr fun g hg => h _ ⟨path, k, g, hk, hg, rfl⟩
  obtain ⟨fs, hmem, -, hr⟩ := answers_check j []
  rw [hsound]
  constructor
  · rintro ⟨e, he⟩ f hf
    rcases hr with ⟨rfl, -⟩ | ⟨-, hr⟩
    · cases (hmem f).mpr hf
    · cases he.symm.trans hr
  · intro h
    rcases hr with ⟨-, e, -, hr⟩ | ⟨hne, -⟩
    · exact ⟨e, hr⟩
    · obtain ⟨f, hf⟩ := List.exists_mem_of_ne_nil fs hne
      exact absurd ((hmem f).mp hf) (h f)

/-- Where the limit on depth allows it, a text is checked as the document that it holds. -/
theorem ofText_eq_check {limit : Option Nat} {s : String} (hs : Json.read? s = some j)
    (hd : limit.any (· < j.depth) = false) : Expr.ofText limit s = check [] j := by
  unfold Expr.ofText
  rw [hs]
  exact if_neg (by simp [hd])

/-- A document is an expression, the one with its nodes, iff every node is sound. Otherwise the faults
of its nodes are listed, each at a path of its own. Superfluous members make no difference, and a text
is checked as its document. -/
theorem check_sound_or_faults (j : Json) :
    ((∃ e, check [] j = .ok e) ↔ ∀ path k, Node j path k → Sound k) ∧
    (∀ e, check [] j = .ok e ↔ Mirrors j e) ∧
    (∀ fs, check [] j = .error fs ↔
      fs ≠ [] ∧ (∀ f, f ∈ fs ↔ HasFault j f) ∧ fs.Pairwise Before) ∧
    (∀ fs, check [] j = .error fs → (fs.map Fault.path).Nodup) ∧
    (∀ j', Relation.ReflTransGen Padded j j' → check [] j' = check [] j) ∧
    ∀ limit s, Json.read? s = some j → Option.any (· < j.depth) limit = false →
      Expr.ofText limit s = check [] j := by
  refine ⟨exists_check_eq_ok_iff, fun e => check_eq_ok_iff, fun fs => check_eq_error_iff, ?_, ?_,
    fun limit s => ofText_eq_check⟩
  · intro fs h
    obtain ⟨-, -, hord⟩ := check_eq_error_iff.mp h
    exact List.pairwise_map.mpr (hord.imp Before.path_ne)
  · intro j' h
    induction h with
    | refl => rfl
    | tail _ hp ih => exact (hp.check_eq []).trans ih

/-- A number node may hold a word that is no numeral. -/
theorem check_word_isOk :
    (∃ e, check [] (.object [("type", .string "number"), ("value", .string "inf")]) = .ok e) ∧
      ∀ n : Numeral, ¬ n.Spells "inf".toList := by
  constructor
  · have hread : readValue (.string "inf") = .ok (Double.infinity false) := by rfl
    exact ⟨_, check_eq_ok_iff.mpr (.number rfl rfl (readValue_eq_ok_iff.mp hread))⟩
  · intro n hn
    have hchar : ¬ ('n'.isDigit ∨ 'n' ∈ ['+', '-', '.', 'e', 'E']) := by decide
    exact hchar (hn.char 'n' (by decide))

end DecimalComma.Document
