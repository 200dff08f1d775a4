import ScratchDb.Catalog.SchemaText

/-!
# Reading back the text of a schema

Names, numbers and the fixed words of a schema text have none of its three
separators, so what is read back is what was written up to the operands of
`CHECK` constraints. Those are written as they are: a blank, a comma or a bar
in one of them is taken for a separator.
-/

namespace ScratchDb

open DelimitedText

/-! ## Texts without separators -/

/-- Not empty, and without blank, comma or bar. -/
structure Plain (w : List Char) : Prop where
  nonempty : w ≠ []
  noSpace : ∀ c ∈ w, isSpace c = false
  noComma : ',' ∉ w
  noBar : '|' ∉ w

theorem Plain.isWord {w : List Char} (h : Plain w) : IsWord isSpace w := ⟨h.nonempty, h.noSpace⟩

theorem isSpace_cases {c : Char} (h : isSpace c = true) : c = ' ' ∨ c = '\t' ∨ c = '\n' ∨ c = '\r' ∨
    c = Char.ofNat 11 ∨ c = Char.ofNat 12 := by
  simpa [isSpace, or_assoc] using h

theorem noSpace_of_all {w : List Char} (h : w.all (fun c => !isSpace c) = true) :
    ∀ c ∈ w, isSpace c = false := by
  simpa using h

/-- Letters, digits and underscores separate nothing. -/
theorem plain_of_nameChars {w : List Char} (hne : w ≠ [])
    (h : ∀ c ∈ w, c.isLower = true ∨ c.isDigit = true ∨ c = '_') : Plain w := by
  have hno : ∀ c ∈ w, ∀ x : Char, x.isLower = false → x.isDigit = false → x ≠ '_' → c ≠ x := by
    rintro c hc x h1 h2 h3 rfl
    rcases h c hc with h | h | h
    · rw [h] at h1
      cases h1
    · rw [h] at h2
      cases h2
    · exact h3 h
  refine ⟨hne, fun c hc => ?_, fun hc => ?_, fun hc => ?_⟩
  · by_contra hspace
    rcases isSpace_cases (by simpa using hspace) with h | h | h | h | h | h
    all_goals exact hno c hc _ (by decide) (by decide) (by decide) h
  · exact hno _ hc ',' (by decide) (by decide) (by decide) rfl
  · exact hno _ hc '|' (by decide) (by decide) (by decide) rfl

theorem plain_of_all {w : List Char} (hne : w ≠ [])
    (h : w.all (fun c => c.isLower || c = '_') = true) : Plain w := by
  refine plain_of_nameChars hne fun c hc => ?_
  have hchar := List.all_eq_true.mp h c hc
  rw [Bool.or_eq_true] at hchar
  rcases hchar with hchar | hchar
  · exact .inl hchar
  · exact .inr (.inr (by simpa using hchar))

theorem plain_name {name : String} (h : Column.isValidName name = true) : Plain name.toList := by
  unfold Column.isValidName at h
  cases hname : name.toList with
  | nil => rw [hname] at h; cases h
  | cons first rest =>
    rw [hname] at h
    simp only [Bool.and_eq_true, Bool.or_eq_true, decide_eq_true_eq, List.all_eq_true] at h
    refine plain_of_nameChars (List.cons_ne_nil _ _) fun c hc => ?_
    rcases List.mem_cons.mp hc with rfl | hc
    · rcases h.1 with h | h
      · exact .inl h
      · exact .inr (.inr h)
    · rcases h.2 c hc with (h | h) | h
      · exact .inl h
      · exact .inr (.inl h)
      · exact .inr (.inr h)

theorem plain_decimal (n : Nat) : Plain (decimal n) :=
  plain_of_nameChars Nat.toDigits_ne_nil fun _ hc => .inr (.inl (isDigit_of_mem_toDigits hc))

theorem plain_typeToString (t : ColumnType) : Plain (Column.typeToString t).toList := by
  refine plain_of_all ?_ ?_
  · cases t <;> decide
  · cases t <;> decide

theorem plain_kind (k : ConstraintKind) : Plain k.text.toList := by
  refine plain_of_all ?_ ?_
  · cases k <;> decide
  · cases k <;> decide

/-! ## Lists of names -/

theorem splitCsvLoop_eq (cs current : List Char) (h : ',' ∉ current) :
    splitCsvLoop cs current = splitNonempty ',' (current.reverse ++ cs) := by
  induction cs generalizing current with
  | nil =>
    rw [splitCsvLoop, List.append_nil, splitNonempty, List.splitOn_eq_singleton (by simpa using h)]
    split
    · rename_i hnil
      simp [hnil]
    · rename_i hnil
      simp [hnil]
  | cons c cs ih =>
    rw [splitCsvLoop]
    split
    · rename_i hc
      subst hc
      have hrest : splitCsvLoop cs [] = splitNonempty ',' cs := ih [] (by simp)
      rw [hrest, splitNonempty, splitNonempty,
        List.splitOn_append_cons_self_of_not_mem (by simpa using h)]
      split
      · rename_i hnil
        simp [hnil]
      · rename_i hnil
        simp [hnil]
    · rename_i hc
      rw [ih (c :: current) (by simp [h, Ne.symm hc]), List.reverse_cons, List.append_assoc,
        List.singleton_append]

theorem splitCsv_eq (text : List Char) : splitCsv text = (splitNonempty ',' text).map String.ofList := by
  rw [splitCsv, splitCsvLoop_eq text [] (by simp), List.reverse_nil, List.nil_append]

/-- Names without commas are read back. -/
theorem splitCsv_commaSeparated {names : List String}
    (h : ∀ a ∈ names, a ≠ "" ∧ ',' ∉ a.toList) : splitCsv (commaSeparated names) = names := by
  rw [splitCsv_eq, commaSeparated, splitNonempty_intercalate]
  · simp [List.map_map]
  · intro l hl
    obtain ⟨a, ha, rfl⟩ := List.mem_map.mp hl
    exact ⟨by simpa using (h a ha).1, (h a ha).2⟩

/-- What is read is not empty, has no comma and comes from the text. -/
theorem mem_splitCsv {text : List Char} {a : String} (h : a ∈ splitCsv text) :
    a ≠ "" ∧ ',' ∉ a.toList ∧ ∀ c ∈ a.toList, c ∈ text := by
  rw [splitCsv_eq] at h
  obtain ⟨l, hl, rfl⟩ := List.mem_map.mp h
  obtain ⟨hne, hcomma, hmem⟩ := mem_splitNonempty hl
  refine ⟨?_, ?_, ?_⟩
  · simpa using hne
  · simpa using hcomma
  · simpa using hmem

theorem splitCsv_ne_nil {c : Char} {cs : List Char} (h : c ≠ ',') : splitCsv (c :: cs) ≠ [] := by
  have hloop : ∀ (cs current : List Char), current ≠ [] → splitCsvLoop cs current ≠ [] := by
    intro cs
    induction cs with
    | nil =>
      intro current hne
      simp [splitCsvLoop, hne]
    | cons d cs ih =>
      intro current hne
      rw [splitCsvLoop]
      split
      · simp
      · exact ih (d :: current) (List.cons_ne_nil _ _)
  simpa [splitCsv, splitCsvLoop, h] using hloop cs [c] (List.cons_ne_nil _ _)

/-! ## Words and numbers of a line -/

theorem lineOf_cons (w w' : List Char) (ws : List (List Char)) :
    lineOf (w :: w' :: ws) = w ++ ' ' :: lineOf (w' :: ws) := by
  simp [lineOf, List.intercalate_cons_of_ne_nil]

theorem lineOf_singleton (w : List Char) : lineOf [w] = w := by simp [lineOf]

theorem readWord_blank (cs : List Char) : readWord (' ' :: cs) = readWord cs :=
  takeWord_cons_sep (by decide)

theorem readWord_lineOf {w w' : List Char} {ws : List (List Char)} (h : IsWord isSpace w) :
    readWord (lineOf (w :: w' :: ws)) = some (w, ' ' :: lineOf (w' :: ws)) := by
  rw [lineOf_cons]
  exact h.takeWord_append (by decide)

/-- A number of a line, and what follows it. -/
theorem scanNumber_decimal {n : Nat} {cs : List Char} (h : ∀ c ∈ cs.head?, c.isDigit = false) :
    scanNumber (' ' :: (decimal n ++ cs)) = some (false, n, cs) := by
  have hnumber := takeNumber_toDigits (n := n) h
  cases hd : decimal n with
  | nil => exact absurd hd (plain_decimal n).nonempty
  | cons c ds =>
    have hc : c ∈ decimal n := by rw [hd]; exact List.mem_cons_self
    have hspace := (plain_decimal n).noSpace c hc
    have hdigit : c.isDigit = true := isDigit_of_mem_toDigits hc
    rw [show Nat.toDigits 10 n = c :: ds from hd] at hnumber
    rw [scanNumber, List.dropWhile_cons_of_pos (by decide), List.cons_append,
      List.dropWhile_cons_of_neg (by simp [hspace])]
    split
    · rename_i heq
      cases heq
      exact absurd hdigit (by decide)
    · rename_i heq
      cases heq
      exact absurd hdigit (by decide)
    · rw [← List.cons_append, hnumber]
      rfl

theorem scanNumber_lineOf (n : Nat) (ws : List (List Char)) :
    scanNumber (' ' :: lineOf (decimal n :: ws)) =
      some (false, n, if ws = [] then [] else ' ' :: lineOf ws) := by
  cases ws with
  | nil =>
    rw [lineOf_singleton]
    have h : scanNumber (' ' :: (decimal n ++ [])) = some (false, n, []) :=
      scanNumber_decimal (by simp)
    rwa [List.append_nil] at h
  | cons w ws =>
    rw [lineOf_cons]
    exact scanNumber_decimal (by simp)

theorem readInt_lineOf {n : Nat} (hn : n < 2 ^ 31) (ws : List (List Char)) :
    readInt (' ' :: lineOf (decimal n :: ws)) =
      some ((n : Int), if ws = [] then [] else ' ' :: lineOf ws) := by
  simpa [readInt, scanNumber_lineOf] using hn

theorem readUInt16_lineOf {n : Nat} (hn : n < 2 ^ 16) (ws : List (List Char)) :
    readUInt16 (' ' :: lineOf (decimal n :: ws)) =
      some (n, if ws = [] then [] else ' ' :: lineOf ws) := by
  simpa [readUInt16, scanNumber_lineOf] using hn

theorem scanNumber_whole (n : Nat) : scanNumber (decimal n) = some (false, n, []) := by
  have h : scanNumber (' ' :: (decimal n ++ [])) = some (false, n, []) :=
    scanNumber_decimal (by simp)
  rw [List.append_nil] at h
  have hskip : scanNumber (' ' :: decimal n) = scanNumber (decimal n) := by
    rw [scanNumber, List.dropWhile_cons_of_pos (by decide), scanNumber]
  rw [← hskip, h]

theorem stoull_decimal {n : Nat} (hn : n < 2 ^ 64) : stoull (decimal n) = .ok n := by
  simpa [stoull, scanNumber_whole] using hn

/-! ## Columns -/

/-- A column that its constructor has made is made again. -/
theorem fromCatalog_eq {c : Column} (h : c.isValid = true)
    (hformat : c.type ≠ .number → c.precision = 0 ∧ c.scale = 0) :
    Column.fromCatalog c.name c.type c.nullable c.maxSize c.precision c.scale = some c := by
  obtain ⟨name, type, nullable, maxSize, precision, scale⟩ := c
  cases type
  all_goals
    simp only [Column.isValid, Column.fromCatalog, Column.make, Column.fixedSize] at h hformat ⊢
    simp_all
    try grind

theorem column_bounds {c : Column} (h : c.isValid = true)
    (hformat : c.type ≠ .number → c.precision = 0 ∧ c.scale = 0) :
    c.maxSize < 2 ^ 16 ∧ c.precision < 256 ∧ c.scale < 256 := by
  obtain ⟨name, type, nullable, maxSize, precision, scale⟩ := c
  cases type
  all_goals
    simp only [Column.isValid, Column.fixedSize] at h hformat ⊢
    simp_all
    try grind

theorem readColumn_line {c : Column} (h : c.isValid = true)
    (hformat : c.type ≠ .number → c.precision = 0 ∧ c.scale = 0) :
    ∃ rest, readWord c.line = some ("column".toList, rest) ∧ readColumn rest = some c := by
  obtain ⟨hsize, hprecision, hscale⟩ := column_bounds h hformat
  have hname : Column.isValidName c.name = true := by
    simp only [Column.isValid, Bool.and_eq_true] at h
    exact h.1.1.1
  refine ⟨_, readWord_lineOf ⟨by decide, noSpace_of_all (by decide)⟩, ?_⟩
  have hflag : (if c.nullable then ['1'] else ['0']) = decimal (if c.nullable then 1 else 0) := by
    cases c.nullable <;> decide
  have hsmall : (if c.nullable then 1 else 0) < 2 ^ 31 := by cases c.nullable <;> decide
  have h1 := readInt_lineOf hsmall [decimal c.maxSize, decimal c.precision, decimal c.scale]
  have h2 := readUInt16_lineOf hsize [decimal c.precision, decimal c.scale]
  have h3 := readInt_lineOf (n := c.precision) (by omega) [decimal c.scale]
  have h4 := readInt_lineOf (n := c.scale) (by omega) []
  simp only [reduceCtorEq, if_false, if_true] at h1 h2 h3 h4
  rw [readColumn, hflag, readWord_blank, readWord_lineOf (plain_name hname).isWord]
  simp only [Option.bind_eq_bind, Option.bind_some, readWord_blank,
    readWord_lineOf (plain_typeToString c.type).isWord]
  rw [h1]
  simp only [Option.bind_some]
  rw [h2]
  simp only [Option.bind_some]
  rw [readNumberFormat, h3]
  simp only
  rw [h4]
  simp only [Option.map_some, Option.bind_some, String.ofList_toList,
    Column.typeFromString_typeToString]
  have hback := fromCatalog_eq h hformat
  have hp : (((c.precision : Nat) : Int) % 256).toNat = c.precision := by omega
  have hs : (((c.scale : Nat) : Int) % 256).toNat = c.scale := by omega
  rw [hp, hs]
  cases hnull : c.nullable
  · simpa [hnull] using hback
  · simpa [hnull] using hback

/-! ## Constraints -/

/-- What is read back of a constraint that the text of the file keeps. -/
def ConstraintDefinition.raw (c : ConstraintDefinition) : RawConstraint :=
  { id := c.id, kind := c.kind.text, columns := c.columns, args := c.args }

theorem ConstraintKind.ofText_text (k : ConstraintKind) : ofText k.text = some k := by
  cases k <;> decide

theorem ConstraintDefinition.toDefinition_raw (c : ConstraintDefinition) :
    c.raw.toDefinition = some c := by
  simp [raw, RawConstraint.toDefinition, ConstraintKind.ofText_text]

/-- Every kind but `CHECK` names columns before its operands. -/
def ConstraintDefinition.Shaped (c : ConstraintDefinition) : Prop :=
  (c.kind = .check → c.columns = []) ∧ (c.kind ≠ .check → c.args ≠ [] → c.columns ≠ [])

theorem commaSeparated_cons_cons (a b : String) (names : List String) :
    commaSeparated (a :: b :: names) = a.toList ++ ',' :: commaSeparated (b :: names) := by
  simp [commaSeparated, List.intercalate_cons_of_ne_nil]

theorem mem_commaSeparated {names : List String} {c : Char} (h : c ∈ commaSeparated names) :
    c = ',' ∨ ∃ a ∈ names, c ∈ a.toList := by
  induction names with
  | nil => simp [commaSeparated] at h
  | cons a names ih =>
    cases names with
    | nil =>
      refine .inr ⟨a, List.mem_cons_self, ?_⟩
      simpa [commaSeparated] using h
    | cons b names =>
      rw [commaSeparated_cons_cons, List.mem_append, List.mem_cons] at h
      rcases h with h | h | h
      · exact .inr ⟨a, List.mem_cons_self, h⟩
      · exact .inl h
      · rcases ih h with h | ⟨n, hn, h⟩
        · exact .inl h
        · exact .inr ⟨n, List.mem_cons_of_mem a hn, h⟩

theorem mem_commaSeparated_of_mem {names : List String} {a : String} {c : Char} (ha : a ∈ names)
    (hc : c ∈ a.toList) : c ∈ commaSeparated names := by
  induction names with
  | nil => cases ha
  | cons b names ih =>
    cases names with
    | nil =>
      rcases List.mem_cons.mp ha with rfl | ha
      · simpa [commaSeparated] using hc
      · cases ha
    | cons b' names =>
      rw [commaSeparated_cons_cons, List.mem_append, List.mem_cons]
      rcases List.mem_cons.mp ha with rfl | ha
      · exact .inl hc
      · exact .inr (.inr (ih ha))

theorem noBar_commaSeparated {names : List String} (h : ∀ a ∈ names, '|' ∉ a.toList) :
    '|' ∉ commaSeparated names := by
  intro hbar
  rcases mem_commaSeparated hbar with hcomma | ⟨a, ha, hmem⟩
  · exact absurd hcomma (by decide)
  · exact h a ha hmem

/-- Where no name holds a blank, neither does the text of the constraint. -/
theorem ConstraintDefinition.isWord_serialized {c : ConstraintDefinition}
    (hc : ∀ a ∈ c.columns, ∀ x ∈ a.toList, isSpace x = false)
    (ha : ∀ a ∈ c.args, ∀ x ∈ a.toList, isSpace x = false) : IsWord isSpace c.serialized := by
  have hlist : ∀ names : List String, (∀ a ∈ names, ∀ x ∈ a.toList, isSpace x = false) →
      ∀ x ∈ (if names = [] then [] else '|' :: commaSeparated names), isSpace x = false := by
    intro names hnames x hx
    split at hx
    · cases hx
    · rcases List.mem_cons.mp hx with rfl | hx
      · decide
      · rcases mem_commaSeparated hx with rfl | ⟨a, hmem, hx⟩
        · decide
        · exact hnames a hmem x hx
  refine ⟨by simp [serialized], fun x hx => ?_⟩
  rw [serialized, List.mem_append, List.mem_append, List.mem_append, List.mem_cons] at hx
  rcases hx with ((hx | rfl | hx) | hx) | hx
  · exact (plain_decimal c.id).noSpace x hx
  · decide
  · exact (plain_kind c.kind).noSpace x hx
  · exact hlist c.columns hc x hx
  · exact hlist c.args ha x hx

/-- What follows the id and the kind. -/
theorem ConstraintDefinition.cut_serialized (c : ConstraintDefinition) :
    ∃ rest, cutAt '|' c.serialized = some (decimal c.id, rest) ∧
      rest = c.kind.text.toList ++ ((if c.columns = [] then [] else '|' :: commaSeparated c.columns) ++
        (if c.args = [] then [] else '|' :: commaSeparated c.args)) := by
  refine ⟨_, ?_, rfl⟩
  have h := cutAt_append (x := '|') (a := decimal c.id)
    (b := c.kind.text.toList ++ ((if c.columns = [] then [] else '|' :: commaSeparated c.columns) ++
        (if c.args = [] then [] else '|' :: commaSeparated c.args))) (plain_decimal c.id).noBar
  simpa [serialized, List.append_assoc] using h

theorem fromSerialized_serialized {c : ConstraintDefinition} (hid : c.id < 2 ^ 64) (hs : c.Shaped)
    (hc : ∀ a ∈ c.columns, Plain a.toList) (ha : ∀ a ∈ c.args, Plain a.toList) :
    RawConstraint.fromSerialized c.serialized = .ok c.raw := by
  have hcolumns : splitCsv (commaSeparated c.columns) = c.columns :=
    splitCsv_commaSeparated fun a h => ⟨by simpa using (hc a h).nonempty, (hc a h).noComma⟩
  have hargs : splitCsv (commaSeparated c.args) = c.args :=
    splitCsv_commaSeparated fun a h => ⟨by simpa using (ha a h).nonempty, (ha a h).noComma⟩
  have hbarColumns := noBar_commaSeparated fun a h => (hc a h).noBar
  have hbarArgs := noBar_commaSeparated fun a h => (ha a h).noBar
  have hkind := (plain_kind c.kind).noBar
  have htext : c.kind.text = "check" ↔ c.kind = .check := by cases c.kind <;> decide
  obtain ⟨rest, hcut, rfl⟩ := c.cut_serialized
  simp only [RawConstraint.fromSerialized, hcut, (plain_decimal c.id).nonempty, if_false,
    stoull_decimal hid, Except.map, Except.ok.injEq, RawConstraint.afterId]
  by_cases hcn : c.columns = []
  · by_cases han : c.args = []
    · simp only [hcn, han, if_true, List.append_nil, cutAt_eq_none hkind, String.ofList_toList]
      simp [ConstraintDefinition.raw, hcn, han]
    · have hcheck : c.kind = .check := by
        by_contra hne
        exact hs.2 hne han hcn
      simp only [hcn, han, if_true, if_false, List.nil_append, cutAt_append hkind,
        String.ofList_toList, cutAt_eq_none hbarArgs, if_pos (htext.mpr hcheck), hargs]
      simp [ConstraintDefinition.raw, hcn]
  · have hne : c.kind ≠ .check := fun h => hcn (hs.1 h)
    by_cases han : c.args = []
    · simp only [hcn, han, if_true, if_false, List.append_nil, cutAt_append hkind,
        String.ofList_toList, cutAt_eq_none hbarColumns, htext, hne, hcolumns]
      simp [ConstraintDefinition.raw, han]
    · simp only [hcn, han, if_false, List.cons_append, cutAt_append hkind,
        String.ofList_toList, cutAt_append hbarColumns, htext, hne, hcolumns, hargs, false_and]
      simp [ConstraintDefinition.raw]

/-- A bar in an operand of a `CHECK` is taken for the end of a list of columns. -/
theorem columns_of_bar {c : ConstraintDefinition} {r : RawConstraint}
    (hcolumns : c.columns = []) {first : String} {others : List String}
    (hargs : c.args = first :: others) (hfirst : Plain first.toList)
    {a : String} (ha : a ∈ c.args) (hbar : '|' ∈ a.toList)
    (hr : RawConstraint.fromSerialized c.serialized = .ok r) : r.columns ≠ [] := by
  obtain ⟨x, tail, hx⟩ := List.exists_cons_of_ne_nil hfirst.nonempty
  have hxbar : x ≠ '|' := fun h => hfirst.noBar (by rw [hx, h]; exact List.mem_cons_self)
  have hxcomma : x ≠ ',' := fun h => hfirst.noComma (by rw [hx, h]; exact List.mem_cons_self)
  have hhead : ∃ text, commaSeparated c.args = x :: text := by
    rw [hargs]
    cases others with
    | nil => exact ⟨tail, by simp [commaSeparated, hx]⟩
    | cons b others => exact ⟨_, by rw [commaSeparated_cons_cons, hx, List.cons_append]⟩
  obtain ⟨text, htext⟩ := hhead
  have hmem : '|' ∈ commaSeparated c.args := mem_commaSeparated_of_mem ha hbar
  obtain ⟨columnsText, argsText, hsplit, hnobar, hcutBar⟩ := cutAt_of_mem hmem
  -- The list of columns begins like the first operand.
  have hcolumnsText : splitCsv columnsText ≠ [] := by
    cases columnsText with
    | nil =>
      rw [htext, List.nil_append] at hsplit
      exact absurd (List.cons.inj hsplit).1 hxbar
    | cons y rest =>
      rw [htext, List.cons_append] at hsplit
      rw [← (List.cons.inj hsplit).1]
      exact splitCsv_ne_nil hxcomma
  obtain ⟨rest, hcut, hrest⟩ := c.cut_serialized
  have hne : c.args ≠ [] := by rw [hargs]; exact List.cons_ne_nil _ _
  rw [if_pos hcolumns, List.nil_append, if_neg hne] at hrest
  have hcutKind := cutAt_append (x := '|') (b := commaSeparated c.args) (plain_kind c.kind).noBar
  rw [← hrest] at hcutKind
  have hafter : ∀ id, (RawConstraint.afterId id rest).columns ≠ [] := by
    intro id
    simpa only [RawConstraint.afterId, hcutKind, hcutBar, hcolumnsText, and_false, if_false]
      using hcolumnsText
  simp only [RawConstraint.fromSerialized, hcut, (plain_decimal c.id).nonempty, if_false] at hr
  cases hid : stoull (decimal c.id) with
  | error e =>
    rw [hid] at hr
    cases hr
  | ok id =>
    rw [hid] at hr
    cases hr
    exact hafter id

theorem args_of_afterId (id : Nat) (rest : List Char) :
    ∀ a ∈ (RawConstraint.afterId id rest).args,
      a ≠ "" ∧ ',' ∉ a.toList ∧ ∀ x ∈ a.toList, x ∈ rest := by
  have hfrom : ∀ part : List Char, (∀ x ∈ part, x ∈ rest) → ∀ a ∈ splitCsv part,
      a ≠ "" ∧ ',' ∉ a.toList ∧ ∀ x ∈ a.toList, x ∈ rest := by
    intro part hpart a ha
    obtain ⟨hne, hcomma, hmem⟩ := mem_splitCsv ha
    exact ⟨hne, hcomma, fun x hx => hpart x (hmem x hx)⟩
  cases hkind : cutAt '|' rest with
  | none => simp [RawConstraint.afterId, hkind]
  | some parts =>
    obtain ⟨kindText, remaining⟩ := parts
    have hremaining : ∀ x ∈ remaining, x ∈ rest := by
      intro x hx
      rw [eq_of_cutAt hkind]
      simp [hx]
    cases hcolumns : cutAt '|' remaining with
    | none =>
      simp only [RawConstraint.afterId, hkind, hcolumns]
      split
      · exact hfrom remaining hremaining
      · simp
    | some parts =>
      obtain ⟨columnsText, argsText⟩ := parts
      simp only [RawConstraint.afterId, hkind, hcolumns]
      split
      · exact hfrom remaining hremaining
      · refine hfrom argsText fun x hx => hremaining x ?_
        rw [eq_of_cutAt hcolumns]
        simp [hx]

/-- The operands that are read come from the text and have no comma. -/
theorem args_of_fromSerialized {text : List Char} {r : RawConstraint}
    (h : RawConstraint.fromSerialized text = .ok r) :
    ∀ a ∈ r.args, a ≠ "" ∧ ',' ∉ a.toList ∧ ∀ x ∈ a.toList, x ∈ text := by
  unfold RawConstraint.fromSerialized at h
  cases hcut : cutAt '|' text with
  | none =>
    rw [hcut] at h
    cases h
    simp
  | some parts =>
    obtain ⟨idText, rest⟩ := parts
    obtain ⟨id, rfl⟩ : ∃ id, r = RawConstraint.afterId id rest := by
      rw [hcut] at h
      simp only at h
      split at h
      · cases h
        exact ⟨0, rfl⟩
      · cases hid : stoull idText with
        | error e =>
          rw [hid] at h
          cases h
        | ok id =>
          rw [hid] at h
          cases h
          exact ⟨id, rfl⟩
    intro a ha
    obtain ⟨hne, hcomma, hmem⟩ := args_of_afterId id rest a ha
    refine ⟨hne, hcomma, fun x hx => ?_⟩
    rw [eq_of_cutAt hcut]
    simp [hmem x hx]

theorem IndexDefinition.fromSerialized_serialized {i : IndexDefinition} (hid : i.id < 2 ^ 64)
    (hname : Plain i.name.toList) (hc : ∀ a ∈ i.columns, Plain a.toList) :
    fromSerialized i.serialized = .ok i := by
  have hcolumns : splitCsv (commaSeparated i.columns) = i.columns :=
    splitCsv_commaSeparated fun a h => ⟨by simpa using (hc a h).nonempty, (hc a h).noComma⟩
  have hflag : '|' ∉ (if i.unique then ['1'] else ['0']) := by cases i.unique <;> decide
  have hunique : decide ((if i.unique then ['1'] else ['0']) = ['1']) = i.unique := by
    cases i.unique <;> decide
  simp only [fromSerialized, serialized, cutAt_append (plain_decimal i.id).noBar,
    cutAt_append hname.noBar, cutAt_append hflag, stoull_decimal hid, hcolumns, hunique,
    String.ofList_toList, bind, Except.bind]

theorem IndexDefinition.isWord_serialized {i : IndexDefinition} (hname : Plain i.name.toList)
    (hc : ∀ a ∈ i.columns, Plain a.toList) : IsWord isSpace i.serialized := by
  have hflag : ∀ x ∈ (if i.unique then ['1'] else ['0']), isSpace x = false := by
    refine noSpace_of_all ?_
    cases i.unique <;> decide
  refine ⟨by simp [serialized], fun x hx => ?_⟩
  simp only [serialized, List.mem_append, List.mem_cons] at hx
  rcases hx with hx | rfl | hx | rfl | hx | rfl | hx
  · exact (plain_decimal i.id).noSpace x hx
  · decide
  · exact hname.noSpace x hx
  · decide
  · exact hflag x hx
  · decide
  · rcases mem_commaSeparated hx with rfl | ⟨a, ha, hx⟩
    · decide
    · exact (hc a ha).noSpace x hx

/-! ## Lines -/

theorem ne_nil_of_readWord {line word rest : List Char} (h : readWord line = some (word, rest)) :
    line ≠ [] := by
  rintro rfl
  cases h

theorem readLine_storage (read : SchemaLines) (mode : TableStorageMode) :
    readLine read (lineOf ["storage".toList, mode.text.toList]) =
      .ok { read with storageMode := mode } := by
  cases mode
  · rfl
  · rfl

theorem readLine_column (read : SchemaLines) {c : Column} (h : c.isValid = true)
    (hformat : c.type ≠ .number → c.precision = 0 ∧ c.scale = 0) :
    readLine read c.line = .ok { read with columns := read.columns ++ [c] } := by
  obtain ⟨rest, hword, hcolumn⟩ := readColumn_line h hformat
  have hne : c.line ≠ [] := ne_nil_of_readWord hword
  simp only [readLine, hne, if_false, hword, hcolumn,
    show "column".toList ≠ "storage".toList by decide, if_true]

theorem readWord_pair {word text : List Char} (hw : IsWord isSpace word) (ht : IsWord isSpace text) :
    readWord (lineOf [word, text]) = some (word, ' ' :: text) ∧
      readWord (' ' :: text) = some (text, []) := by
  constructor
  · have h : readWord (lineOf [word, text]) = some (word, ' ' :: lineOf [text]) :=
      readWord_lineOf hw
    rwa [lineOf_singleton] at h
  · rw [readWord_blank]
    exact ht.takeWord_eq

theorem readLine_constraint (read : SchemaLines) {text : List Char} (h : IsWord isSpace text) :
    readLine read (lineOf ["constraint".toList, text]) =
      (RawConstraint.fromSerialized text).map fun c =>
        { read with constraints := read.constraints ++ [c] } := by
  obtain ⟨hword, htext⟩ := readWord_pair
    (⟨by decide, noSpace_of_all (by decide)⟩ : IsWord isSpace "constraint".toList) h
  have hne : lineOf ["constraint".toList, text] ≠ [] := ne_nil_of_readWord hword
  simp only [readLine, hne, if_false, hword, htext,
    show "constraint".toList ≠ "storage".toList by decide,
    show "constraint".toList ≠ "column".toList by decide, if_true]
  rfl

theorem readLine_index (read : SchemaLines) {i : IndexDefinition} (hid : i.id < 2 ^ 64)
    (hname : Plain i.name.toList) (hc : ∀ a ∈ i.columns, Plain a.toList) :
    readLine read (lineOf ["index".toList, i.serialized]) =
      .ok { read with indexes := read.indexes ++ [i] } := by
  obtain ⟨hword, htext⟩ := readWord_pair
    (⟨by decide, noSpace_of_all (by decide)⟩ : IsWord isSpace "index".toList)
    (IndexDefinition.isWord_serialized hname hc)
  have hne : lineOf ["index".toList, i.serialized] ≠ [] := ne_nil_of_readWord hword
  simp only [readLine, hne, if_false, hword, htext,
    show "index".toList ≠ "storage".toList by decide, show "index".toList ≠ "column".toList by decide,
    show "index".toList ≠ "constraint".toList by decide, if_true,
    IndexDefinition.fromSerialized_serialized hid hname hc]
  rfl

theorem readLines_append (read : SchemaLines) (lines lines' : List (List Char)) :
    readLines read (lines ++ lines') = (readLines read lines >>= (readLines · lines')) := by
  induction lines generalizing read with
  | nil => rfl
  | cons line lines ih =>
    rw [List.cons_append, readLines, readLines]
    cases readLine read line with
    | error e => rfl
    | ok read' => exact ih read'

theorem readLines_columns (read : SchemaLines) {columns : List Column}
    (h : ∀ c ∈ columns, c.isValid = true)
    (hformat : ∀ c ∈ columns, c.type ≠ .number → c.precision = 0 ∧ c.scale = 0) :
    readLines read (columns.map Column.line) =
      .ok { read with columns := read.columns ++ columns } := by
  induction columns generalizing read with
  | nil => simp [readLines]
  | cons c columns ih =>
    rw [List.map_cons, readLines,
      readLine_column read (h c List.mem_cons_self) (hformat c List.mem_cons_self)]
    have hrest := ih { read with columns := read.columns ++ [c] }
      (fun d hd => h d (List.mem_cons_of_mem c hd)) fun d hd => hformat d (List.mem_cons_of_mem c hd)
    rw [List.append_assoc, List.singleton_append] at hrest
    exact hrest

theorem readLines_constraints (read : SchemaLines) {constraints : List ConstraintDefinition}
    (h : ∀ c ∈ constraints, IsWord isSpace c.serialized) :
    readLines read (constraints.map fun c => lineOf ["constraint".toList, c.serialized]) =
      (constraints.mapM fun c => RawConstraint.fromSerialized c.serialized).map fun raws =>
        { read with constraints := read.constraints ++ raws } := by
  induction constraints generalizing read with
  | nil => simp [readLines, Except.map, pure, Except.pure]
  | cons c constraints ih =>
    rw [List.map_cons, readLines, readLine_constraint read (h c List.mem_cons_self), List.mapM_cons]
    cases RawConstraint.fromSerialized c.serialized with
    | error e => rfl
    | ok raw =>
      have hrest := ih { read with constraints := read.constraints ++ [raw] }
        fun d hd => h d (List.mem_cons_of_mem c hd)
      refine Eq.trans hrest ?_
      cases constraints.mapM fun c => RawConstraint.fromSerialized c.serialized with
      | error e => rfl
      | ok raws =>
        show Except.ok { read with constraints := read.constraints ++ [raw] ++ raws } =
          Except.ok { read with constraints := read.constraints ++ raw :: raws }
        rw [List.append_assoc, List.singleton_append]

theorem readLines_indexes (read : SchemaLines) {indexes : List IndexDefinition}
    (hid : ∀ i ∈ indexes, i.id < 2 ^ 64) (hname : ∀ i ∈ indexes, Plain i.name.toList)
    (hc : ∀ i ∈ indexes, ∀ a ∈ i.columns, Plain a.toList) :
    readLines read (indexes.map fun i => lineOf ["index".toList, i.serialized]) =
      .ok { read with indexes := read.indexes ++ indexes } := by
  induction indexes generalizing read with
  | nil => simp [readLines]
  | cons i indexes ih =>
    rw [List.map_cons, readLines, readLine_index read (hid i List.mem_cons_self)
      (hname i List.mem_cons_self) (hc i List.mem_cons_self)]
    have hrest := ih { read with indexes := read.indexes ++ [i] }
      (fun j hj => hid j (List.mem_cons_of_mem i hj)) (fun j hj => hname j (List.mem_cons_of_mem i hj))
      fun j hj => hc j (List.mem_cons_of_mem i hj)
    rw [List.append_assoc, List.singleton_append] at hrest
    exact hrest

/-! ## Files -/

theorem newline_of_lineOf {ws : List (List Char)} (h : ∀ w ∈ ws, ∀ x ∈ w, isSpace x = false) :
    '\n' ∉ lineOf ws := by
  induction ws with
  | nil => simp [lineOf]
  | cons w ws ih =>
    have hw : '\n' ∉ w := fun hmem => by
      have hspace := h w List.mem_cons_self _ hmem
      exact absurd hspace (by decide)
    cases ws with
    | nil => rwa [lineOf_singleton]
    | cons w' ws =>
      rw [lineOf_cons, List.mem_append, List.mem_cons]
      rintro (hmem | hmem | hmem)
      · exact hw hmem
      · exact absurd hmem (by decide)
      · exact ih (fun v hv => h v (List.mem_cons_of_mem w hv)) hmem

/-- A column that the schema knows has a plain name. -/
theorem Schema.plain_of_columnIndex (s : Schema) {name : String}
    (h : (s.columnIndex name).isSome) : Plain name.toList := by
  rw [SchemaParts.columnIndex, List.findIdx?_isSome, List.any_eq_true] at h
  obtain ⟨c, hc, hname⟩ := h
  have hvalid := s.columnsValid.2.2.1 c hc
  simp only [Column.isValid, Bool.and_eq_true] at hvalid
  rw [← of_decide_eq_true hname]
  exact plain_name hvalid.1.1.1

theorem Schema.plain_index (s : Schema) {i : IndexDefinition} (h : i ∈ s.indexes) :
    Plain i.name.toList ∧ ∀ a ∈ i.columns, Plain a.toList := by
  obtain ⟨-, hname, -, hcolumns⟩ := s.indexesValid.1 i h
  exact ⟨plain_name hname, fun a ha => s.plain_of_columnIndex (hcolumns a ha)⟩

theorem plain_storageMode (mode : TableStorageMode) : ∀ x ∈ mode.text.toList, isSpace x = false := by
  refine noSpace_of_all ?_
  cases mode <;> decide

theorem newline_of_line {c : Column} (h : c.isValid = true) : '\n' ∉ c.line := by
  simp only [Column.isValid, Bool.and_eq_true] at h
  refine newline_of_lineOf ?_
  intro w hw
  simp only [List.mem_cons, List.not_mem_nil, or_false] at hw
  rcases hw with rfl | rfl | rfl | rfl | rfl | rfl | rfl
  · exact noSpace_of_all (by decide)
  · exact (plain_name h.1.1.1).noSpace
  · exact (plain_typeToString c.type).noSpace
  · refine noSpace_of_all ?_
    cases c.nullable <;> decide
  · exact (plain_decimal _).noSpace
  · exact (plain_decimal _).noSpace
  · exact (plain_decimal _).noSpace

/-- Where the texts of the constraints are words, the lines of the file are the lines written. -/
theorem linesOf_serializeSchema (s : Schema)
    (h : ∀ c ∈ s.constraints, IsWord isSpace c.serialized) :
    linesOf '\n' (serializeSchema s.toSchemaParts) = schemaLines s.toSchemaParts := by
  refine linesOf_unlines fun line hline => ?_
  simp only [schemaLines, List.mem_cons, List.mem_append, List.mem_map] at hline
  rcases hline with rfl | rfl | (⟨c, hc, rfl⟩ | ⟨c, hc, rfl⟩) | ⟨i, hi, rfl⟩
  · refine newline_of_lineOf ?_
    simp only [List.mem_cons, List.not_mem_nil, or_false, forall_eq_or_imp, forall_eq]
    exact ⟨noSpace_of_all (by decide), (plain_name s.nameValid).noSpace⟩
  · refine newline_of_lineOf ?_
    simp only [List.mem_cons, List.not_mem_nil, or_false, forall_eq_or_imp, forall_eq]
    exact ⟨noSpace_of_all (by decide), plain_storageMode s.storageMode⟩
  · exact newline_of_line (s.columnsValid.2.2.1 c hc)
  · refine newline_of_lineOf ?_
    simp only [List.mem_cons, List.not_mem_nil, or_false, forall_eq_or_imp, forall_eq]
    exact ⟨noSpace_of_all (by decide), (h c hc).plain⟩
  · refine newline_of_lineOf ?_
    simp only [List.mem_cons, List.not_mem_nil, or_false, forall_eq_or_imp, forall_eq]
    obtain ⟨hname, hcolumns⟩ := s.plain_index hi
    exact ⟨noSpace_of_all (by decide), (IndexDefinition.isWord_serialized hname hcolumns).plain⟩

theorem readLines_schemaLines (s : Schema) (hp : OfParser s.toSchemaParts)
    (h : ∀ c ∈ s.constraints, IsWord isSpace c.serialized) :
    readLines {} (schemaLines s.toSchemaParts).tail =
      (s.constraints.mapM fun c => RawConstraint.fromSerialized c.serialized).map fun raws =>
        { columns := s.columns, constraints := raws, indexes := s.indexes,
          storageMode := s.storageMode } := by
  have hcolumns := readLines_columns { storageMode := s.storageMode } s.columnsValid.2.2.1
    hp.numberFormat
  have hconstraints := readLines_constraints
    { columns := s.columns, storageMode := s.storageMode } h
  rw [schemaLines, List.tail_cons, readLines, readLine_storage]
  show readLines { storageMode := s.storageMode } _ = _
  rw [readLines_append, readLines_append, hcolumns]
  show (readLines { columns := s.columns, storageMode := s.storageMode } _ >>= _) = _
  rw [hconstraints]
  cases s.constraints.mapM fun c => RawConstraint.fromSerialized c.serialized with
  | error e => rfl
  | ok raws =>
    exact readLines_indexes
      { columns := s.columns, constraints := raws, storageMode := s.storageMode }
      hp.indexIds (fun i hi => (s.plain_index hi).1) fun i hi => (s.plain_index hi).2

/-- Then the file is read back up to its constraints. -/
theorem readSchemaFile_serializeSchema (s : Schema) (hp : OfParser s.toSchemaParts)
    (h : ∀ c ∈ s.constraints, IsWord isSpace c.serialized) :
    readSchemaFile (serializeSchema s.toSchemaParts) =
      ((s.constraints.mapM fun c => RawConstraint.fromSerialized c.serialized) >>= fun raws =>
        SchemaLines.toSchema
          { columns := s.columns, constraints := raws, indexes := s.indexes,
            storageMode := s.storageMode } s.tableName.toList) := by
  have htable : readTableLine (lineOf ["table".toList, s.tableName.toList]) =
      some s.tableName.toList := by
    obtain ⟨hword, hname⟩ := readWord_pair
      (⟨by decide, noSpace_of_all (by decide)⟩ : IsWord isSpace "table".toList)
      (plain_name s.nameValid).isWord
    simp only [readTableLine, hword, Option.bind_eq_bind, Option.bind_some, hname, if_true]
  have hlines := readLines_schemaLines s hp h
  rw [readSchemaFile, linesOf_serializeSchema s h]
  rw [schemaLines, List.tail_cons] at hlines
  simp only [schemaLines, htable]
  rw [hlines]
  cases s.constraints.mapM fun c => RawConstraint.fromSerialized c.serialized with
  | error e => rfl
  | ok raws => rfl

/-! ## Operands that are read -/

/-- The separators of the words of a line and of a list of names. -/
def OperandsApart (args : List String) : Prop :=
  ∀ a ∈ args, ',' ∉ a.toList ∧ ∀ x ∈ a.toList, isSpace x = false

theorem readLine_operands {read read' : SchemaLines} {line : List Char}
    (h : readLine read line = .ok read') (hread : ∀ c ∈ read.constraints, OperandsApart c.args) :
    ∀ c ∈ read'.constraints, OperandsApart c.args := by
  unfold readLine at h
  split at h
  · cases h
    exact hread
  · split at h
    · cases h
    · rename_i word rest hword
      split at h
      · split at h
        · cases h
        · split at h
          · cases h
            exact hread
          · split at h
            · cases h
              exact hread
            · cases h
      · split at h
        · split at h
          · cases h
          · cases h
            exact hread
        · split at h
          -- A constraint: its text is one word.
          · split at h
            · cases h
            · rename_i text rest' htext
              have hspace := (isWord_of_takeWord htext).plain
              cases hraw : RawConstraint.fromSerialized text with
              | error e =>
                rw [hraw] at h
                cases h
              | ok raw =>
                rw [hraw] at h
                cases h
                intro c hc
                rcases List.mem_append.mp hc with hc | hc
                · exact hread c hc
                · rw [List.mem_singleton] at hc
                  subst hc
                  intro a ha
                  obtain ⟨-, hcomma, hmem⟩ := args_of_fromSerialized hraw a ha
                  exact ⟨hcomma, fun x hx => hspace x (hmem x hx)⟩
          · split at h
            · split at h
              · cases h
              · rename_i text rest' htext
                cases hindex : IndexDefinition.fromSerialized text with
                | error e =>
                  rw [hindex] at h
                  cases h
                | ok index =>
                  rw [hindex] at h
                  cases h
                  exact hread
            · cases h

theorem readLines_operands {read read' : SchemaLines} {lines : List (List Char)}
    (h : readLines read lines = .ok read') (hread : ∀ c ∈ read.constraints, OperandsApart c.args) :
    ∀ c ∈ read'.constraints, OperandsApart c.args := by
  induction lines generalizing read with
  | nil =>
    cases h
    exact hread
  | cons line lines ih =>
    rw [readLines] at h
    cases hline : readLine read line with
    | error e =>
      rw [hline] at h
      cases h
    | ok next =>
      rw [hline] at h
      exact ih h (readLine_operands hline hread)

theorem toSchema_constraints {read : SchemaLines} {name : List Char} {s : Schema}
    (h : read.toSchema name = .ok s) :
    read.constraints.mapM RawConstraint.toDefinition = some s.constraints := by
  unfold SchemaLines.toSchema at h
  cases hdefinitions : read.constraints.mapM RawConstraint.toDefinition with
  | none =>
    rw [hdefinitions] at h
    cases h
  | some definitions =>
    rw [hdefinitions] at h
    simp only at h
    split at h
    · cases h
    · rename_i schema hmake
      cases h
      rw [Schema.make_eq_ok hmake]

theorem mem_of_mapM_toDefinition {raws : List RawConstraint} {cs : List ConstraintDefinition}
    (h : raws.mapM RawConstraint.toDefinition = some cs) {c : ConstraintDefinition} (hc : c ∈ cs) :
    ∃ r ∈ raws, r.toDefinition = some c := by
  induction raws generalizing cs with
  | nil =>
    cases h
    cases hc
  | cons r raws ih =>
    simp only [List.mapM_cons, Option.bind_eq_bind, Option.bind_eq_some_iff, Option.pure_def,
      Option.some.injEq] at h
    obtain ⟨d, hd, ds, hds, rfl⟩ := h
    rcases List.mem_cons.mp hc with rfl | hc
    · exact ⟨r, List.mem_cons_self, hd⟩
    · obtain ⟨r', hr', hdef⟩ := ih hds hc
      exact ⟨r', List.mem_cons_of_mem r hr', hdef⟩

theorem toDefinition_eq {r : RawConstraint} {c : ConstraintDefinition}
    (h : r.toDefinition = some c) : c.columns = r.columns ∧ c.args = r.args := by
  rw [RawConstraint.toDefinition, Option.map_eq_some_iff] at h
  obtain ⟨kind, -, rfl⟩ := h
  exact ⟨rfl, rfl⟩

/-- No operand of a schema that is read has a blank or a comma. -/
theorem readSchemaFile_operands {text : List Char} {s : Schema} (h : readSchemaFile text = .ok s) :
    ∀ c ∈ s.constraints, OperandsApart c.args := by
  unfold readSchemaFile at h
  split at h
  · cases h
  · split at h
    · cases h
    · rename_i lines _ _ name _
      cases hlines : readLines {} lines with
      | error e =>
        rw [hlines] at h
        cases h
      | ok read =>
        rw [hlines] at h
        intro c hc
        have hraws := readLines_operands hlines (fun c hc => by cases hc)
        obtain ⟨r, hr, hdef⟩ := mem_of_mapM_toDefinition (toSchema_constraints h) hc
        rw [(toDefinition_eq hdef).2]
        exact hraws r hr

/-! ## The round trip -/

/-- The operands of `CHECK` hold none of the three separators. -/
def PlainOperands (s : Schema) : Prop :=
  ∀ c ∈ s.constraints, c.kind = .check → ∀ a ∈ c.args, ∀ x ∈ a.toList,
    isSpace x = false ∧ x ≠ ',' ∧ x ≠ '|'

theorem checkParts_nonempty {tokens : List Token} : ∀ a ∈ checkParts tokens, a ≠ "" := by
  induction tokens with
  | nil => simp [checkParts]
  | cons t ts ih =>
    intro a ha
    rw [checkParts] at ha
    split at ha
    · cases ha
    · split at ha
      · rcases List.mem_cons.mp ha with rfl | ha
        · exact t.nonempty
        · exact ih a ha
      · exact ih a ha

/-- What the parser makes has plain names, and only `CHECK` has other operands. -/
theorem ParsedConstraint.shape {c : ConstraintDefinition} (h : ParsedConstraint c) :
    c.Shaped ∧ (∀ a ∈ c.columns, Plain a.toList) ∧ (∀ a ∈ c.args, a ≠ "") ∧
      (c.kind ≠ .check → ∀ a ∈ c.args, Plain a.toList) := by
  cases h with
  | primaryKey id columns h =>
    exact ⟨⟨by simp, by simp⟩, fun a ha => plain_name (h a ha), by simp, by simp⟩
  | unique id columns h =>
    exact ⟨⟨by simp, by simp⟩, fun a ha => plain_name (h a ha), by simp, by simp⟩
  | foreignKey id column refTable refColumn h =>
    have hargs : ∀ a ∈ [refTable, refColumn], Plain a.toList := fun a ha =>
      plain_name (h a (List.mem_cons_of_mem column ha))
    refine ⟨⟨by simp, by simp⟩, fun a ha => ?_, fun a ha => ?_, fun _ => hargs⟩
    · rw [List.mem_singleton.mp ha]
      exact plain_name (h column List.mem_cons_self)
    · simpa using (hargs a ha).nonempty
  | check id tokens =>
    exact ⟨⟨by simp, by simp⟩, by simp, checkParts_nonempty, by simp⟩

theorem Schema.make_toSchemaParts (s : Schema) : Schema.make s.toSchemaParts = .ok s := by
  rw [make, dif_pos s.nameValid, dif_pos s.columnsValid, dif_pos s.constraintsValid,
    dif_pos s.indexesValid]

theorem mapM_toDefinition_raw (cs : List ConstraintDefinition) :
    (cs.map ConstraintDefinition.raw).mapM RawConstraint.toDefinition = some cs := by
  induction cs with
  | nil => rfl
  | cons c cs ih => simp [List.mapM_cons, c.toDefinition_raw, ih]

theorem mapM_fromSerialized {cs : List ConstraintDefinition}
    (h : ∀ c ∈ cs, RawConstraint.fromSerialized c.serialized = .ok c.raw) :
    (cs.mapM fun c => RawConstraint.fromSerialized c.serialized) =
      .ok (cs.map ConstraintDefinition.raw) := by
  induction cs with
  | nil => rfl
  | cons c cs ih =>
    rw [List.mapM_cons, h c List.mem_cons_self, ih fun d hd => h d (List.mem_cons_of_mem c hd)]
    rfl

theorem toSchema_raw (s : Schema) :
    SchemaLines.toSchema
      { columns := s.columns, constraints := s.constraints.map ConstraintDefinition.raw,
        indexes := s.indexes, storageMode := s.storageMode } s.tableName.toList = .ok s := by
  have hmake := s.make_toSchemaParts
  simp only [SchemaLines.toSchema, mapM_toDefinition_raw, String.ofList_toList]
  rw [hmake]

/-- Each constraint of a schema that is read back has been read back itself. -/
theorem fromSerialized_of_mapM {cs : List ConstraintDefinition} {raws : List RawConstraint}
    (hraws : (cs.mapM fun c => RawConstraint.fromSerialized c.serialized) = .ok raws)
    (hdefs : raws.mapM RawConstraint.toDefinition = some cs) {c : ConstraintDefinition}
    (hc : c ∈ cs) :
    ∃ r, RawConstraint.fromSerialized c.serialized = .ok r ∧ r.toDefinition = some c := by
  induction cs generalizing raws with
  | nil => cases hc
  | cons d cs ih =>
    rw [List.mapM_cons] at hraws
    cases hd : RawConstraint.fromSerialized d.serialized with
    | error e =>
      rw [hd] at hraws
      cases hraws
    | ok r =>
      cases hrest : cs.mapM fun c => RawConstraint.fromSerialized c.serialized with
      | error e =>
        rw [hd, hrest] at hraws
        cases hraws
      | ok rest =>
        rw [hd, hrest] at hraws
        cases hraws
        simp only [List.mapM_cons, Option.bind_eq_bind, Option.bind_eq_some_iff, Option.pure_def,
          Option.some.injEq, List.cons.injEq] at hdefs
        obtain ⟨d', hd', ds, hds, rfl, rfl⟩ := hdefs
        rcases List.mem_cons.mp hc with rfl | hc
        · exact ⟨r, hd, hd'⟩
        · exact ih hrest hds hc

/-- A schema of the parser is read back from its own text exactly where no operand of its `CHECK`
constraints holds a separator. -/
theorem readSchemaFile_serializeSchema_iff (s : Schema) (hp : OfParser s.toSchemaParts) :
    readSchemaFile (serializeSchema s.toSchemaParts) = .ok s ↔ PlainOperands s := by
  have hargsSpace : (∀ c ∈ s.constraints, OperandsApart c.args) →
      ∀ c ∈ s.constraints, IsWord isSpace c.serialized := by
    intro happart c hc
    obtain ⟨-, hcolumns, -, -⟩ := (hp.constraints c hc).shape
    exact ConstraintDefinition.isWord_serialized (fun a ha => (hcolumns a ha).noSpace)
      fun a ha => (happart c hc a ha).2
  constructor
  · intro hread c hc hkind a ha x hx
    have happart := readSchemaFile_operands hread
    obtain ⟨hcomma, hspace⟩ := happart c hc a ha
    refine ⟨hspace x hx, ?_, ?_⟩
    · rintro rfl
      exact hcomma hx
    · rintro rfl
      obtain ⟨hshaped, -, -, -⟩ := (hp.constraints c hc).shape
      rw [readSchemaFile_serializeSchema s hp (hargsSpace happart)] at hread
      cases hraws : s.constraints.mapM fun c => RawConstraint.fromSerialized c.serialized with
      | error e =>
        rw [hraws] at hread
        cases hread
      | ok raws =>
        rw [hraws] at hread
        obtain ⟨r, hr, hdef⟩ := fromSerialized_of_mapM hraws (toSchema_constraints hread) hc
        have hvalid := (s.constraintsValid.1 c hc).2
        rw [hkind] at hvalid
        obtain ⟨first, others, hcons⟩ := List.exists_cons_of_ne_nil (List.ne_nil_of_mem ha)
        have hfirst := s.plain_of_columnIndex (hvalid.2 first (by rw [hcons]; rfl))
        have hcolumns := columns_of_bar (hshaped.1 hkind) hcons hfirst ha hx hr
        exact hcolumns (((toDefinition_eq hdef).1).symm.trans (hshaped.1 hkind))
  · intro hplain
    have hargs : ∀ c ∈ s.constraints, ∀ a ∈ c.args, Plain a.toList := by
      intro c hc a ha
      obtain ⟨-, -, hne, hnames⟩ := (hp.constraints c hc).shape
      by_cases hkind : c.kind = .check
      · exact ⟨by simpa using hne a ha, fun x hx => (hplain c hc hkind a ha x hx).1,
          fun hx => (hplain c hc hkind a ha _ hx).2.1 rfl,
          fun hx => (hplain c hc hkind a ha _ hx).2.2 rfl⟩
      · exact hnames hkind a ha
    have happart : ∀ c ∈ s.constraints, OperandsApart c.args := fun c hc a ha =>
      ⟨(hargs c hc a ha).noComma, (hargs c hc a ha).noSpace⟩
    have hback : ∀ c ∈ s.constraints, RawConstraint.fromSerialized c.serialized = .ok c.raw := by
      intro c hc
      obtain ⟨hshaped, hcolumns, -, -⟩ := (hp.constraints c hc).shape
      exact fromSerialized_serialized (hp.constraintIds c hc) hshaped hcolumns (hargs c hc)
    rw [readSchemaFile_serializeSchema s hp (hargsSpace happart), mapM_fromSerialized hback]
    exact toSchema_raw s

/-- `CHECK (s_1 = operand)`. -/
def operandTokens (operand : String) (h : operand ≠ "") : List Token :=
  [⟨.word, "s_1", by decide⟩, ⟨.op, "=", by decide⟩, ⟨.string, operand, h⟩]

def wordsParts (operand : String) (h : operand ≠ "") : SchemaParts where
  tableName := "words"
  columns := [⟨"s_1", .varstring, true, 10, 0, 0⟩]
  constraints := [⟨1, .check, [], checkParts (operandTokens operand h)⟩, ⟨2, .unique, ["s_1"], []⟩]
  indexes := [⟨3, "words_index", ["s_1"], false⟩]
  storageMode := .disk

/-- A table of words, each of them the operand. -/
def wordsSchema (operand : String) (h : operand ≠ "") : Schema where
  toSchemaParts := wordsParts operand h
  nameValid := show Column.isValidName "words" = true by decide
  columnsValid := by
    simp only [SchemaParts.ColumnsValid, wordsParts]
    decide
  constraintsValid := by
    have hcheck : checkParts (operandTokens operand h) = ["s_1", "=", operand] := rfl
    refine ⟨fun c hc => ?_, ?_, ?_⟩
    · simp only [wordsParts, List.mem_cons, List.not_mem_nil, or_false] at hc
      rcases hc with rfl | rfl
      · exact ⟨Nat.one_ne_zero, rfl, fun name hname => by cases hname; rfl⟩
      · exact ⟨Nat.succ_ne_zero 1, List.cons_ne_nil _ _, fun name hname => by
          rw [List.mem_singleton.mp hname]
          rfl⟩
    · show [1, 2].Nodup
      decide
    · show 0 ≤ 1
      decide
  indexesValid := by
    refine ⟨fun i hi => ?_, ?_, ?_⟩
    · rw [List.mem_singleton.mp hi]
      refine ⟨Nat.succ_ne_zero 2, by decide, rfl, fun name hname => ?_⟩
      rw [List.mem_singleton.mp hname]
      rfl
    · show [3].Nodup
      decide
    · show ["words_index"].Nodup
      decide

theorem wordsSchema_ofParser (operand : String) (h : operand ≠ "") :
    OfParser (wordsSchema operand h).toSchemaParts where
  constraints := by
    intro c hc
    simp only [wordsSchema, wordsParts, List.mem_cons, List.not_mem_nil, or_false] at hc
    rcases hc with rfl | rfl
    · exact .check 1 (operandTokens operand h)
    · exact .unique 2 ["s_1"] (by decide)
  constraintIds := by simp [wordsSchema, wordsParts]
  indexIds := by simp [wordsSchema, wordsParts]
  numberFormat := by simp [wordsSchema, wordsParts]

theorem readSchemaFile_serializeSchema_iff_words :
    readSchemaFile (serializeSchema (wordsSchema "'x'" (by decide)).toSchemaParts) =
        .ok (wordsSchema "'x'" (by decide)) ↔
      PlainOperands (wordsSchema "'x'" (by decide)) :=
  readSchemaFile_serializeSchema_iff (wordsSchema "'x'" (by decide)) (wordsSchema_ofParser _ _)

/-- An operand with a blank is not read back. -/
theorem blank_operand_lost :
    ¬ ∀ s : Schema, OfParser s.toSchemaParts →
      readSchemaFile (serializeSchema s.toSchemaParts) = .ok s := by
  intro hall
  have hread := hall (wordsSchema "'a b'" (by decide)) (wordsSchema_ofParser _ _)
  have hoperand := readSchemaFile_operands hread ⟨1, .check, [], ["s_1", "=", "'a b'"]⟩
    List.mem_cons_self "'a b'" (by decide)
  have hspace := hoperand.2 ' ' (by decide)
  exact absurd hspace (by decide)

end ScratchDb
