import DecimalComma.Proofs.Json.Scalar

/-! A document without infinities and NaNs is read back from its text, however the text is indented. -/
namespace DecimalComma.Json

/-- Documents with no numbers but finite ones. -/
inductive Finite : Json → Prop where
  | null : Finite null
  | bool (b : Bool) : Finite (bool b)
  | number {x : Float} (h : Double.isFinite x = true) : Finite (number x)
  | string (s : String) : Finite (string s)
  | array {js : List Json} (h : ∀ j ∈ js, Finite j) : Finite (array js)
  | object {ms : List (String × Json)} (h : ∀ m ∈ ms, Finite m.2) : Finite (object ms)

variable {rest : List Char} {j : Json} {js : List Json} {ms : List (String × Json)}
  {indent : Option Nat} {depth : Nat}

theorem lineBreak_subset (indent : Option Nat) (depth : Nat) :
    (lineBreak indent depth).toList ⊆ blanks := by
  cases indent with
  | none => exact List.nil_subset _
  | some n =>
    rw [lineBreak, String.toList_ofList]
    intro b hb
    rcases List.mem_cons.mp hb with rfl | hb
    · decide
    · rw [List.eq_of_mem_replicate hb]
      decide

/-- What can stand right behind a document. -/
def separators : List Char := [',', ']', '\x7d', '\n']

theorem ends_cons {c : Char} (hc : c ∈ separators) (r : List Char) : Numeral.Ends (c :: r) := by
  rintro _ ⟨⟩
  simp only [separators, List.mem_cons, List.not_mem_nil, or_false] at hc
  rcases hc with rfl | rfl | rfl | rfl <;> decide

theorem ends_lineBreak {c : Char} (hc : c ∈ separators) (r : List Char) :
    Numeral.Ends ((lineBreak indent depth).toList ++ c :: r) := by
  cases indent with
  | none => exact ends_cons hc r
  | some n =>
    rw [lineBreak, String.toList_ofList]
    exact ends_cons (by decide) _

theorem toList_writeString (s : String) :
    (writeString s).toList = '"' :: (s.toList.flatMap escape ++ ['"']) :=
  String.toList_ofList

/-- What stands between a name and its value: a colon and blanks. -/
theorem toList_colon (indent : Option Nat) :
    ∃ bs, (if indent.isSome then ": " else ":").toList = ':' :: bs ∧ bs ⊆ blanks := by
  cases indent with
  | none => exact ⟨[], by simp, by decide⟩
  | some n => exact ⟨[' '], by simp, by decide⟩

theorem write_array_append (indent : Option Nat) (depth : Nat) (j : Json) (js : List Json)
    (rest : List Char) :
    (write indent depth (.array (j :: js))).toList ++ rest =
      '[' :: ((lineBreak indent (depth + 1)).toList ++ ((write indent (depth + 1) j).toList ++
        ((writeItems indent (depth + 1) js).toList ++
          ((lineBreak indent depth).toList ++ ']' :: rest)))) := by
  rw [write]
  simp only [String.toList_append, List.append_assoc]
  rfl

theorem writeItems_append (indent : Option Nat) (depth : Nat) (j : Json) (js : List Json)
    (rest : List Char) :
    (writeItems indent depth (j :: js)).toList ++ rest =
      ',' :: ((lineBreak indent depth).toList ++ ((write indent depth j).toList ++
        ((writeItems indent depth js).toList ++ rest))) := by
  rw [writeItems]
  simp only [String.toList_append, List.append_assoc]
  rfl

theorem write_object_append (indent : Option Nat) (depth : Nat) (n : String) (j : Json)
    (ms : List (String × Json)) (rest : List Char) :
    (write indent depth (.object ((n, j) :: ms))).toList ++ rest =
      '\x7b' :: ((lineBreak indent (depth + 1)).toList ++ ((writeString n).toList ++
        ((if indent.isSome then ": " else ":").toList ++ ((write indent (depth + 1) j).toList ++
          ((writeMembers indent (depth + 1) ms).toList ++
            ((lineBreak indent depth).toList ++ '\x7d' :: rest)))))) := by
  rw [write]
  simp only [String.toList_append, List.append_assoc]
  rfl

theorem writeMembers_append (indent : Option Nat) (depth : Nat) (n : String) (j : Json)
    (ms : List (String × Json)) (rest : List Char) :
    (writeMembers indent depth ((n, j) :: ms)).toList ++ rest =
      ',' :: ((lineBreak indent depth).toList ++ ((writeString n).toList ++
        ((if indent.isSome then ": " else ":").toList ++ ((write indent depth j).toList ++
          ((writeMembers indent depth ms).toList ++ rest))))) := by
  rw [writeMembers]
  simp only [String.toList_append, List.append_assoc]
  rfl

/-- The text of a document begins with no blank and with no closing bracket. -/
theorem exists_write (hj : Finite j) (indent : Option Nat) (depth : Nat) :
    ∃ c t, (write indent depth j).toList = c :: t ∧ c ∉ blanks ∧ c ≠ ']' := by
  cases hj with
  | null => exact ⟨'n', _, by rw [write]; rfl, by decide, by decide⟩
  | bool b =>
    cases b
    · exact ⟨'f', _, by rw [write]; rfl, by decide, by decide⟩
    · exact ⟨'t', _, by rw [write]; rfl, by decide, by decide⟩
  | number h =>
    obtain ⟨c, t, ht, hc⟩ := exists_writeNumber h
    simp only [marks, List.mem_cons, not_or] at hc
    exact ⟨c, t, by rw [write, ht], hc.2.2.2.2, hc.2.2.1⟩
  | string s => exact ⟨'"', _, by rw [write, toList_writeString], by decide, by decide⟩
  | @array js h =>
    cases js with
    | nil => exact ⟨'[', _, by rw [write]; rfl, by decide, by decide⟩
    | cons j js =>
      have ht := write_array_append indent depth j js []
      rw [List.append_nil] at ht
      exact ⟨'[', _, ht, by decide, by decide⟩
  | @object ms h =>
    cases ms with
    | nil => exact ⟨'\x7b', _, by rw [write]; rfl, by decide, by decide⟩
    | cons m ms =>
      have ht := write_object_append indent depth m.1 m.2 ms []
      rw [List.append_nil] at ht
      exact ⟨'\x7b', _, ht, by decide, by decide⟩

theorem ends_writeItems (indent : Option Nat) (depth k : Nat) (js : List Json) (r : List Char) :
    Numeral.Ends ((writeItems indent depth js).toList ++
      ((lineBreak indent k).toList ++ ']' :: r)) := by
  cases js with
  | nil =>
    rw [writeItems]
    exact ends_lineBreak (by decide) r
  | cons j js =>
    rw [writeItems_append]
    exact ends_cons (by decide) _

theorem ends_writeMembers (indent : Option Nat) (depth k : Nat) (ms : List (String × Json))
    (r : List Char) :
    Numeral.Ends ((writeMembers indent depth ms).toList ++
      ((lineBreak indent k).toList ++ '\x7d' :: r)) := by
  cases ms with
  | nil =>
    rw [writeMembers]
    exact ends_lineBreak (by decide) r
  | cons m ms =>
    rw [writeMembers_append]
    exact ends_cons (by decide) _

/-- A document is read from its text at every depth, with blanks before it. -/
def IsRead (indent : Option Nat) (j : Json) : Prop :=
  ∀ (depth : Nat) (bs rest : List Char), bs ⊆ blanks → Numeral.Ends rest →
    outcome (takeValue (bs ++ ((write indent depth j).toList ++ rest))) = some (j, rest)

theorem takeMoreItems_write (hr : ∀ j ∈ js, IsRead indent j) (depth k : Nat) (rest : List Char) :
    outcome (takeMoreItems ((writeItems indent depth js).toList ++
      ((lineBreak indent k).toList ++ ']' :: rest))) = some (js, rest) := by
  induction js with
  | nil =>
    have hs : skipBlanks ((writeItems indent depth []).toList ++
        ((lineBreak indent k).toList ++ ']' :: rest)) = ']' :: rest := by
      rw [writeItems]
      exact skipBlanks_append_cons (lineBreak_subset indent k) (by decide) _
    rw [takeMoreItems_eq hs, if_pos rfl]
  | cons j js ih =>
    have hj := hr j List.mem_cons_self depth _ _ (lineBreak_subset indent depth)
      (ends_writeItems indent depth k js rest)
    have hjs := ih fun i hi => hr i (List.mem_cons_of_mem _ hi)
    rw [writeItems_append, takeMoreItems_eq (skipBlanks_cons (by decide) _), if_neg (by decide),
      if_pos rfl]
    simp only [hj, Option.bind_some, hjs, Option.map_some]

theorem takeItems_write (hf : Finite j) (hr : ∀ i ∈ j :: js, IsRead indent i) (depth k : Nat)
    (rest : List Char) :
    outcome (takeItems ((lineBreak indent depth).toList ++ ((write indent depth j).toList ++
      ((writeItems indent depth js).toList ++ ((lineBreak indent k).toList ++ ']' :: rest))))) =
        some (j :: js, rest) := by
  have hj := hr j List.mem_cons_self depth _ _ (lineBreak_subset indent depth)
    (ends_writeItems indent depth k js rest)
  have hjs := takeMoreItems_write (fun i hi => hr i (List.mem_cons_of_mem _ hi)) depth k rest
  -- the first item must not look like the end of the list
  obtain ⟨c, t, ht, hblank, hc⟩ := exists_write hf indent depth
  rw [ht, List.cons_append] at hj ⊢
  rw [takeItems_eq (skipBlanks_append_cons (lineBreak_subset indent depth) hblank _), if_neg hc]
  simp only [hj, Option.bind_some, hjs, Option.map_some]

theorem takeMember_write {bs : List Char} (hbs : bs ⊆ blanks) (n : String)
    (hr : IsRead indent j) (depth : Nat) (hrest : Numeral.Ends rest) :
    outcome (takeMember (bs ++ ((writeString n).toList ++
      ((if indent.isSome then ": " else ":").toList ++ ((write indent depth j).toList ++ rest))))) =
        some ((n, j), rest) := by
  obtain ⟨cs, hcolon, hcs⟩ := toList_colon indent
  have hv := hr depth cs rest hcs hrest
  have hs := skipBlanks_append_cons (c := '"') hbs (by decide)
    (n.toList.flatMap escape ++ '"' :: ':' :: (cs ++ ((write indent depth j).toList ++ rest)))
  rw [toList_writeString, hcolon, List.cons_append, List.append_assoc, List.singleton_append,
    List.cons_append, takeMember_eq hs (takeString_escape ..) (skipBlanks_cons (by decide) _), hv,
    Option.map_some, String.ofList_toList]
  rfl

theorem takeMoreMembers_write (hr : ∀ m ∈ ms, IsRead indent m.2) (depth k : Nat)
    (rest : List Char) :
    outcome (takeMoreMembers ((writeMembers indent depth ms).toList ++
      ((lineBreak indent k).toList ++ '\x7d' :: rest))) = some (ms, rest) := by
  induction ms with
  | nil =>
    have hs : skipBlanks ((writeMembers indent depth []).toList ++
        ((lineBreak indent k).toList ++ '\x7d' :: rest)) = '\x7d' :: rest := by
      rw [writeMembers]
      exact skipBlanks_append_cons (lineBreak_subset indent k) (by decide) _
    rw [takeMoreMembers_eq hs, if_pos rfl]
  | cons m ms ih =>
    have hm := takeMember_write (lineBreak_subset indent depth) m.1 (hr m List.mem_cons_self) depth
      (ends_writeMembers indent depth k ms rest)
    have hms := ih fun i hi => hr i (List.mem_cons_of_mem _ hi)
    rw [writeMembers_append, takeMoreMembers_eq (skipBlanks_cons (by decide) _),
      if_neg (by decide), if_pos rfl]
    simp only [hm, Option.bind_some, hms, Option.map_some]

theorem takeMembers_write {n : String} (hr : ∀ m ∈ (n, j) :: ms, IsRead indent m.2)
    (depth k : Nat) (rest : List Char) :
    outcome (takeMembers ((lineBreak indent depth).toList ++ ((writeString n).toList ++
      ((if indent.isSome then ": " else ":").toList ++ ((write indent depth j).toList ++
        ((writeMembers indent depth ms).toList ++
          ((lineBreak indent k).toList ++ '\x7d' :: rest))))))) = some ((n, j) :: ms, rest) := by
  have hm := takeMember_write (lineBreak_subset indent depth) n (hr (n, j) List.mem_cons_self) depth
    (ends_writeMembers indent depth k ms rest)
  have hms := takeMoreMembers_write (fun i hi => hr i (List.mem_cons_of_mem _ hi)) depth k rest
  rw [toList_writeString, List.cons_append] at hm ⊢
  rw [takeMembers_eq (skipBlanks_append_cons (lineBreak_subset indent depth) (by decide) _),
    if_neg (by decide)]
  simp only [hm, Option.bind_some, hms, Option.map_some]

theorem isRead_atom {c : Char} {t : List Char}
    (ht : ∀ depth, (write indent depth j).toList = c :: t) (hc : c ∉ marks)
    (h : ∀ rest, Numeral.Ends rest → outcome (takeAtom (c :: t ++ rest)) = some (j, rest)) :
    IsRead indent j := by
  intro depth bs rest hbs hrest
  simp only [marks, List.mem_cons, not_or] at hc
  obtain ⟨hquote, hbracket, -, hbrace, hblank⟩ := hc
  rw [ht, List.cons_append, takeValue_eq (skipBlanks_append_cons hbs hblank _), if_neg hquote,
    if_neg hbracket, if_neg hbrace]
  exact h rest hrest

theorem isRead_number {x : Float} (hx : Double.isFinite x = true) (indent : Option Nat) :
    IsRead indent (.number x) := by
  obtain ⟨c, t, ht, hc⟩ := exists_writeNumber hx
  apply isRead_atom (fun depth => by rw [write, ht]) hc
  intro rest hrest
  rw [← ht]
  exact takeAtom_writeNumber hx hrest

theorem isRead_string (s : String) (indent : Option Nat) : IsRead indent (.string s) := by
  intro depth bs rest hbs hrest
  rw [write, toList_writeString, List.cons_append, List.append_assoc,
    takeValue_eq (skipBlanks_append_cons hbs (by decide) _), if_pos rfl, List.singleton_append,
    takeString_escape, Option.map_some, Prod.map, Function.comp_apply, String.ofList_toList]
  rfl

theorem isRead_array (hf : ∀ j ∈ js, Finite j) (hr : ∀ j ∈ js, IsRead indent j) :
    IsRead indent (.array js) := by
  intro depth bs rest hbs hrest
  cases js with
  | nil =>
    have ht : (write indent depth (.array [])).toList = ['[', ']'] := by rw [write]; rfl
    rw [ht, List.cons_append, takeValue_eq (skipBlanks_append_cons hbs (by decide) _),
      if_neg (by decide), if_pos rfl, List.singleton_append,
      takeItems_eq (skipBlanks_cons (by decide) _)]
    rfl
  | cons j js =>
    have hitems := takeItems_write (hf j List.mem_cons_self) hr (depth + 1) depth rest
    rw [write_array_append, takeValue_eq (skipBlanks_append_cons hbs (by decide) _),
      if_neg (by decide), if_pos rfl, hitems]
    rfl

theorem isRead_object (hr : ∀ m ∈ ms, IsRead indent m.2) : IsRead indent (.object ms) := by
  intro depth bs rest hbs hrest
  cases ms with
  | nil =>
    have ht : (write indent depth (.object [])).toList = ['\x7b', '\x7d'] := by rw [write]; rfl
    rw [ht, List.cons_append, takeValue_eq (skipBlanks_append_cons hbs (by decide) _),
      if_neg (by decide), if_neg (by decide), if_pos rfl, List.singleton_append,
      takeMembers_eq (skipBlanks_cons (by decide) _)]
    rfl
  | cons m ms =>
    have hmembers := takeMembers_write hr (depth + 1) depth rest
    rw [write_object_append, takeValue_eq (skipBlanks_append_cons hbs (by decide) _),
      if_neg (by decide), if_neg (by decide), if_pos rfl, hmembers]
    rfl

/-- Every document is read from its text, if the documents in it are. -/
theorem isRead (hj : Finite j) (indent : Option Nat) : IsRead indent j := by
  induction hj with
  | null =>
    exact isRead_atom (fun depth => by rw [write]; rfl) (by decide) fun rest _ =>
      takeAtom_word (c := 'n') (w := ['u', 'l', 'l']) rfl
  | bool b =>
    cases b with
    | true =>
      exact isRead_atom (fun depth => by rw [write]; rfl) (by decide) fun rest _ =>
        takeAtom_word (c := 't') (w := ['r', 'u', 'e']) rfl
    | false =>
      exact isRead_atom (fun depth => by rw [write]; rfl) (by decide) fun rest _ =>
        takeAtom_word (c := 'f') (w := ['a', 'l', 's', 'e']) rfl
  | number hx => exact isRead_number hx indent
  | string s => exact isRead_string s indent
  | array hf ih => exact isRead_array hf ih
  | object _ ih => exact isRead_object ih

/-- A document is read back from its text, whatever the indentation. -/
theorem read?_render (hj : Finite j) (indent : Option Nat) : read? (render indent j) = some j := by
  have h := isRead hj indent 0 [] [] (List.nil_subset _) (by simp [Numeral.Ends])
  rw [List.nil_append, List.append_nil] at h
  obtain ⟨t, ht, hval⟩ := Option.map_eq_some_iff.mp h
  obtain ⟨hvalue, hrest⟩ := Prod.mk.inj hval
  unfold read? render
  rw [ht]
  show (if skipBlanks t.rest = [] then some t.value else none) = _
  rw [hrest, hvalue]
  rfl

end DecimalComma.Json
