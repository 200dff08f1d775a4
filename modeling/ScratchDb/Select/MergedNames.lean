import ScratchDb.Catalog.RoundTrip
import ScratchDb.Select.JoinedRows

/-!
# Names of merged columns

A join renames the columns of the right table whose names are taken:
`join_columns_for_right_side` and `build_join_alias_map` of
`src/query/query_executor.cpp` both look for the first suffix that makes a name
free. The merged names are always distinct, so that a schema is refused for its
number of columns only.
-/

namespace ScratchDb.Select

/-! ## A free name -/

theorem decimal_injective {m n : Nat} (h : decimal m = decimal n) : m = n := by
  rw [← @Nat.ofDigitChars_toDigits 10 m (by decide) (by decide),
    ← @Nat.ofDigitChars_toDigits 10 n (by decide) (by decide)]
  exact congrArg (Nat.ofDigitChars 10 · 0) h

/-- `name_1`, `name_2`, ... -/
def suffixed (name : String) (i : Nat) : String := name ++ "_" ++ String.ofList (decimal (i + 1))

theorem suffixed_injective (name : String) : Function.Injective (suffixed name) := by
  intro i j h
  have hdecimal : decimal (i + 1) = decimal (j + 1) := by
    have hlist := congrArg String.toList h
    simp only [suffixed, String.toList_append, String.toList_ofList] at hlist
    exact List.append_cancel_left hlist
  exact Nat.succ_injective (decimal_injective hdecimal)

/-- More suffixes are tried than there are names. -/
theorem exists_suffixed_free (seen : List String) (name : String) :
    ∃ i, i < seen.length + 1 ∧ suffixed name i ∉ seen := by
  by_contra hnone
  have hsub : (List.range (seen.length + 1)).map (suffixed name) ⊆ seen := by
    intro n hn
    obtain ⟨i, hi, rfl⟩ := List.mem_map.mp hn
    by_contra hfree
    exact hnone ⟨i, List.mem_range.mp hi, hfree⟩
  have hnodup : ((List.range (seen.length + 1)).map (suffixed name)).Nodup :=
    List.nodup_range.map (suffixed_injective name)
  have hlength := (hnodup.subperm hsub).length_le
  rw [List.length_map, List.length_range] at hlength
  omega

theorem freeName_cases (seen : List String) (name : String) :
    freeName seen name = name ∧ name ∉ seen ∨
      ∃ i, freeName seen name = suffixed name i ∧ suffixed name i ∉ seen := by
  unfold freeName
  split
  · right
    cases hfind : ((List.range (seen.length + 1)).map fun i =>
        name ++ "_" ++ String.ofList (decimal (i + 1))).find? fun n => n ∉ seen with
    | none =>
      obtain ⟨i, hi, hfree⟩ := exists_suffixed_free seen name
      have hmem := List.find?_eq_none.mp hfind (suffixed name i)
        (List.mem_map.mpr ⟨i, List.mem_range.mpr hi, rfl⟩)
      exact absurd (decide_eq_true hfree) hmem
    | some n =>
      obtain ⟨i, -, rfl⟩ := List.mem_map.mp (List.mem_of_find?_eq_some hfind)
      exact ⟨i, rfl, by simpa [suffixed] using List.find?_some hfind⟩
  · rename_i hfree
    exact .inl ⟨rfl, hfree⟩

theorem freeName_not_mem (seen : List String) (name : String) : freeName seen name ∉ seen := by
  rcases freeName_cases seen name with ⟨heq, hfree⟩ | ⟨i, heq, hfree⟩
  · rw [heq]
    exact hfree
  · rw [heq]
    exact hfree

theorem isValidName_iff {name : String} :
    Column.isValidName name = true ↔
      ∃ first rest, name.toList = first :: rest ∧ (first.isLower || first = '_') = true ∧
        ∀ c ∈ rest, (c.isLower || c.isDigit || c = '_') = true := by
  unfold Column.isValidName
  cases name.toList with
  | nil => simp
  | cons first rest => simp

/-- A name stays one with a suffix. -/
theorem isValidName_suffixed {name : String} (h : Column.isValidName name = true) (i : Nat) :
    Column.isValidName (suffixed name i) = true := by
  obtain ⟨first, rest, hname, hfirst, hrest⟩ := isValidName_iff.mp h
  refine isValidName_iff.mpr ⟨first, rest ++ '_' :: decimal (i + 1), ?_, hfirst, fun c hc => ?_⟩
  · simp [suffixed, hname]
  · rcases List.mem_append.mp hc with hc | hc
    · exact hrest c hc
    · rcases List.mem_cons.mp hc with rfl | hc
      · decide
      · simp [DelimitedText.isDigit_of_mem_toDigits hc]

theorem isValidName_freeName {name : String} (seen : List String)
    (h : Column.isValidName name = true) : Column.isValidName (freeName seen name) = true := by
  rcases freeName_cases seen name with ⟨heq, -⟩ | ⟨i, heq, -⟩
  · rw [heq]
    exact h
  · rw [heq]
    exact isValidName_suffixed h i

/-- A name has no dot. -/
theorem dot_not_mem {name : String} (h : Column.isValidName name = true) : '.' ∉ name.toList := by
  obtain ⟨first, rest, hname, hfirst, hrest⟩ := isValidName_iff.mp h
  rw [hname]
  intro hmem
  rcases List.mem_cons.mp hmem with rfl | hmem
  · revert hfirst
    decide
  · have hdot := hrest '.' hmem
    revert hdot
    decide

/-! ## The columns that a join adds -/

theorem validName {c : Column} (h : c.isValid = true) : Column.isValidName c.name = true := by
  simp only [Column.isValid, Bool.and_eq_true] at h
  exact h.1.1.1

theorem nodup_addedColumns {type : QueryJoinType} {seen : List String} (hseen : seen.Nodup)
    (columns : List Column) :
    (seen ++ (addedColumns type seen columns).map (·.2)).Nodup := by
  induction columns generalizing seen with
  | nil =>
    rw [addedColumns, List.map_nil, List.append_nil]
    exact hseen
  | cons c columns ih =>
    rw [addedColumns]
    split
    · exact ih hseen
    · rw [List.map_cons]
      refine List.perm_middle.nodup_iff.mpr ?_
      exact ih (List.nodup_cons.mpr ⟨freeName_not_mem seen c.name, hseen⟩)

theorem mem_addedColumns {type : QueryJoinType} {seen : List String} {columns : List Column}
    {c : Column × String} (h : c ∈ addedColumns type seen columns) :
    c.1 ∈ columns ∧ ∃ seen', c.2 = freeName seen' c.1.name := by
  induction columns generalizing seen with
  | nil => cases h
  | cons column columns ih =>
    rw [addedColumns] at h
    split at h
    · obtain ⟨hmem, hname⟩ := ih h
      exact ⟨List.mem_cons_of_mem column hmem, hname⟩
    · rcases List.mem_cons.mp h with rfl | h
      · exact ⟨List.mem_cons_self, seen, rfl⟩
      · obtain ⟨hmem, hname⟩ := ih h
        exact ⟨List.mem_cons_of_mem column hmem, hname⟩

/-- The same column under another name. -/
structure SameKind (c c' : Column) : Prop where
  type : c'.type = c.type
  nullable : c'.nullable = c.nullable
  maxSize : c'.maxSize = c.maxSize
  format : c.type = .number → c'.precision = c.precision ∧ c'.scale = c.scale

theorem SameKind.refl (c : Column) : SameKind c c := ⟨rfl, rfl, rfl, fun _ => ⟨rfl, rfl⟩⟩

/-- The column that `from_catalog` makes under a name. -/
def renamedColumn (c : Column) (name : String) : Column :=
  if c.type = .number then { c with name } else { c with name, precision := 0, scale := 0 }

theorem sameKind_renamedColumn (c : Column) (name : String) : SameKind c (renamedColumn c name) := by
  unfold renamedColumn
  split
  · exact ⟨rfl, rfl, rfl, fun _ => ⟨rfl, rfl⟩⟩
  · rename_i htype
    exact ⟨rfl, rfl, rfl, fun h => absurd h htype⟩

theorem name_renamedColumn (c : Column) (name : String) : (renamedColumn c name).name = name := by
  unfold renamedColumn
  split
  · rfl
  · rfl

theorem isValid_renamedColumn {c : Column} (hc : c.isValid = true) {name : String}
    (hname : Column.isValidName name = true) : (renamedColumn c name).isValid = true := by
  obtain ⟨oldName, type, nullable, maxSize, precision, scale⟩ := c
  simp only [Column.isValid, Bool.and_eq_true] at hc
  cases type <;> simpa [renamedColumn, Column.isValid, hname, hc.1.1.1] using hc

/-- A valid column is made again under another name. -/
theorem fromCatalog_rename {c : Column} (hc : c.isValid = true) {name : String}
    (hname : Column.isValidName name = true) :
    Column.fromCatalog name c.type c.nullable c.maxSize c.precision c.scale =
      some (renamedColumn c name) := by
  have hmade := fromCatalog_eq (isValid_renamedColumn hc hname) fun htype => ?_
  · rw [name_renamedColumn, (sameKind_renamedColumn c name).type,
      (sameKind_renamedColumn c name).nullable, (sameKind_renamedColumn c name).maxSize] at hmade
    rw [← hmade]
    -- only a NUMBER column reads its format
    unfold renamedColumn
    obtain ⟨oldName, type, nullable, maxSize, precision, scale⟩ := c
    cases type <;> rfl
  · rw [(sameKind_renamedColumn c name).type] at htype
    rw [renamedColumn, if_neg htype]
    exact ⟨rfl, rfl⟩

/-- The columns that a join adds can always be made. -/
theorem joinColumnsForRightSide_eq (current right : Schema) (type : QueryJoinType) :
    joinColumnsForRightSide current right type =
      some ((addedColumns type (columnNames current) right.columns).map fun c =>
        renamedColumn c.1 c.2) := by
  have hmapM : ∀ {cs : List (Column × String)},
      (∀ c ∈ cs, c.1 ∈ right.columns ∧ ∃ seen, c.2 = freeName seen c.1.name) →
      cs.mapM (fun c => Column.fromCatalog c.2 c.1.type c.1.nullable c.1.maxSize c.1.precision
        c.1.scale) = some (cs.map fun c => renamedColumn c.1 c.2) := by
    intro cs hcs
    induction cs with
    | nil => rfl
    | cons c cs ih =>
      obtain ⟨hmem, seen, hname⟩ := hcs c List.mem_cons_self
      have hvalid := right.columnsValid.2.2.1 c.1 hmem
      have hvalidName : Column.isValidName c.2 = true := by
        rw [hname]
        exact isValidName_freeName seen (validName hvalid)
      rw [List.mapM_cons, fromCatalog_rename hvalid hvalidName,
        ih fun c' hc' => hcs c' (List.mem_cons_of_mem c hc')]
      rfl
  exact hmapM fun c hc => mem_addedColumns hc

/-- The merged columns have distinct names. -/
theorem nodup_merged (current right : Schema) (type : QueryJoinType) :
    ((current.columns ++ (addedColumns type (columnNames current) right.columns).map fun c =>
      renamedColumn c.1 c.2).map (·.name)).Nodup := by
  have hnames : ((addedColumns type (columnNames current) right.columns).map fun c =>
      renamedColumn c.1 c.2).map (·.name) =
      (addedColumns type (columnNames current) right.columns).map (·.2) := by
    rw [List.map_map]
    exact List.map_congr_left fun c _ => name_renamedColumn c.1 c.2
  rw [List.map_append, hnames]
  exact nodup_addedColumns current.columnsValid.2.2.2 right.columns

/-- Only the number of the columns can keep them from making a schema. -/
theorem mergedJoinSchema_isSome {current right : Schema} {type : QueryJoinType} {added : List Column}
    (hadded : joinColumnsForRightSide current right type = some added)
    (hcount : (current.columns ++ added).length ≤ 991) :
    (mergedJoinSchema current added).isSome = true := by
  rw [joinColumnsForRightSide_eq] at hadded
  cases hadded
  let parts : SchemaParts :=
    { tableName := current.tableName
      columns := current.columns ++ (addedColumns type (columnNames current) right.columns).map
        fun c => renamedColumn c.1 c.2
      constraints := [], indexes := [], storageMode := .disk }
  have hcolumns : parts.ColumnsValid := by
    refine ⟨fun hnil => ?_, hcount, fun c hc => ?_, nodup_merged current right type⟩
    · exact current.columnsValid.1 (List.append_eq_nil_iff.mp hnil).1
    · rcases List.mem_append.mp hc with hc | hc
      · exact current.columnsValid.2.2.1 c hc
      · obtain ⟨a, ha, rfl⟩ := List.mem_map.mp hc
        obtain ⟨hmem, seen, hname⟩ := mem_addedColumns ha
        have hvalid := right.columnsValid.2.2.1 a.1 hmem
        refine isValid_renamedColumn hvalid ?_
        rw [hname]
        exact isValidName_freeName seen (validName hvalid)
  have hconstraints : parts.ConstraintsValid := ⟨fun c hc => (by cases hc), .nil, Nat.zero_le 1⟩
  have hindexes : parts.IndexesValid := ⟨fun i hi => (by cases hi), .nil, .nil⟩
  have hmake : Schema.make parts =
      .ok ⟨parts, current.nameValid, hcolumns, hconstraints, hindexes⟩ := by
    rw [Schema.make, dif_pos current.nameValid, dif_pos hcolumns, dif_pos hconstraints,
      dif_pos hindexes]
  rw [mergedJoinSchema, hmake]
  rfl

/-! ## Aliases -/

/-- The name of a column behind the alias of its table. -/
def dotted (tableAlias name : String) : String := tableAlias ++ "." ++ name

theorem dot_mem_dotted (tableAlias name : String) : '.' ∈ (dotted tableAlias name).toList := by
  simp [dotted]

theorem cutAt_dotted {tableAlias : String} (h : '.' ∉ tableAlias.toList) (name : String) :
    DelimitedText.cutAt '.' (dotted tableAlias name).toList = some (tableAlias.toList, name.toList) := by
  have hlist : (dotted tableAlias name).toList = tableAlias.toList ++ '.' :: name.toList := by
    simp [dotted]
  rw [hlist]
  exact DelimitedText.cutAt_append h

theorem dotted_inj {a a' name name' : String} (ha : '.' ∉ a.toList) (ha' : '.' ∉ a'.toList)
    (h : dotted a name = dotted a' name') : a = a' ∧ name = name' := by
  have hcut := cutAt_dotted ha name
  rw [h, cutAt_dotted ha'] at hcut
  obtain ⟨halias, hname⟩ := Prod.mk.inj (Option.some.inj hcut)
  exact ⟨String.toList_inj.mp halias.symm, String.toList_inj.mp hname.symm⟩

theorem lookup_set (m : AliasMap) (key value name : String) :
    (m.set key value).lookup name = if name = key then some value else m.lookup name := by
  rw [AliasMap.set, List.lookup_cons]
  by_cases hname : name = key
  · rw [if_pos hname, hname]
    simp
  · rw [if_neg hname, beq_eq_false_iff_ne.mpr hname]
    dsimp only
    induction m with
    | nil => rfl
    | cons p m ih =>
      rw [List.filter_cons]
      split
      · rw [List.lookup_cons, List.lookup_cons, ih]
      · rename_i hkey
        have hkey : p.1 = key := by simpa using hkey
        rw [ih, List.lookup_cons, hkey, beq_eq_false_iff_ne.mpr hname]

/-- Every key of an alias map has one value. -/
def AliasMap.Keyed (m : AliasMap) : Prop := (m.map (·.1)).Nodup

theorem AliasMap.Keyed.set {m : AliasMap} (h : m.Keyed) (key value : String) :
    (m.set key value).Keyed := by
  refine List.nodup_cons.mpr ⟨fun hmem => ?_, ?_⟩
  · obtain ⟨p, hp, hkey⟩ := List.mem_map.mp hmem
    have hne := (List.mem_filter.mp hp).2
    simp [hkey] at hne
  · exact h.sublist (List.filter_sublist.map _)

theorem AliasMap.Keyed.lookup {m : AliasMap} (h : m.Keyed) {key value : String}
    (hmem : (key, value) ∈ m) : m.lookup key = some value := by
  induction m with
  | nil => cases hmem
  | cons p m ih =>
    obtain ⟨hp, hm⟩ := List.nodup_cons.mp h
    rw [List.lookup_cons]
    rcases List.mem_cons.mp hmem with rfl | hmem
    · simp
    · have hne : key ≠ p.1 := fun heq => hp (List.mem_map.mpr ⟨(key, value), hmem, heq⟩)
      rw [beq_eq_false_iff_ne.mpr hne]
      exact ih hm hmem

/-- The aliases of the columns of one table: their names and the names they get. -/
def addAliases (tableAlias : String) (entries : List (String × String)) (m : AliasMap) : AliasMap :=
  entries.foldl (fun (m : AliasMap) e =>
    (if tableAlias = "" then m else m.set (dotted tableAlias e.1) e.2).set e.1 e.2) m

theorem buildAliasMap_eq (tableAlias : String) (schema : Schema) :
    buildAliasMap tableAlias schema =
      addAliases tableAlias (schema.columns.map fun c => (c.name, c.name)) [] := by
  rw [addAliases, List.foldl_map]
  rfl

theorem buildJoinAliasMap_eq (aliases : AliasMap) (tableAlias : String) (current right : Schema)
    (type : QueryJoinType) :
    buildJoinAliasMap aliases tableAlias current right type =
      addAliases tableAlias ((addedColumns type (columnNames current) right.columns).map fun c =>
        (c.1.name, c.2)) aliases := by
  rw [addAliases, List.foldl_map]
  rfl

theorem keyed_addAliases {tableAlias : String} {entries : List (String × String)} {m : AliasMap}
    (h : m.Keyed) : (addAliases tableAlias entries m).Keyed := by
  induction entries generalizing m with
  | nil => exact h
  | cons e entries ih =>
    refine ih (m := (if tableAlias = "" then m else m.set (dotted tableAlias e.1) e.2).set e.1 e.2) ?_
    split
    · exact h.set _ _
    · exact (h.set _ _).set _ _

section Aliases

variable {tableAlias : String} {entries : List (String × String)}
  (halias : tableAlias ≠ "") (hentries : ∀ e ∈ entries, '.' ∉ e.1.toList)

include halias hentries

/-- The other names with a dot keep their meaning. -/
theorem lookup_addAliases_of_ne {m : AliasMap} {key : String} (hdot : '.' ∈ key.toList)
    (hkey : ∀ e ∈ entries, key ≠ dotted tableAlias e.1) :
    (addAliases tableAlias entries m).lookup key = m.lookup key := by
  induction entries generalizing m with
  | nil => rfl
  | cons e entries ih =>
    have hplain : key ≠ e.1 := by
      rintro rfl
      exact hentries e List.mem_cons_self hdot
    have hrest := @ih (fun e' he' => hentries e' (List.mem_cons_of_mem e he'))
      ((if tableAlias = "" then m else m.set (dotted tableAlias e.1) e.2).set e.1 e.2)
      (fun e' he' => hkey e' (List.mem_cons_of_mem e he'))
    refine hrest.trans ?_
    rw [lookup_set, if_neg hplain, if_neg halias, lookup_set, if_neg (hkey e List.mem_cons_self)]

/-- The name of a column behind the alias means the name that the column has got. -/
theorem lookup_addAliases (hdotless : '.' ∉ tableAlias.toList)
    (hnodup : (entries.map (·.1)).Nodup) {m : AliasMap} {e : String × String} (he : e ∈ entries) :
    (addAliases tableAlias entries m).lookup (dotted tableAlias e.1) = some e.2 := by
  induction entries generalizing m with
  | nil => cases he
  | cons first entries ih =>
    obtain ⟨hfirst, hrest⟩ := List.nodup_cons.mp hnodup
    have hdots : ∀ e' ∈ entries, '.' ∉ e'.1.toList :=
      fun e' he' => hentries e' (List.mem_cons_of_mem first he')
    rcases List.mem_cons.mp he with rfl | he
    · have hothers : ∀ e' ∈ entries, dotted tableAlias e.1 ≠ dotted tableAlias e'.1 := by
        intro e' he' heq
        refine hfirst (List.mem_map.mpr ⟨e', he', ?_⟩)
        exact (dotted_inj hdotless hdotless heq).2.symm
      refine (lookup_addAliases_of_ne halias hdots (dot_mem_dotted _ _) hothers).trans ?_
      have hplain : dotted tableAlias e.1 ≠ e.1 := by
        intro heq
        exact hentries e List.mem_cons_self (heq ▸ dot_mem_dotted tableAlias e.1)
      rw [lookup_set, if_neg hplain, if_neg halias, lookup_set, if_pos rfl]
    · exact ih hdots hrest he

/-- A name with a dot is an old one or that of a column. -/
theorem lookup_addAliases_cases {m : AliasMap} {key value : String} (hdot : '.' ∈ key.toList)
    (h : (addAliases tableAlias entries m).lookup key = some value) :
    m.lookup key = some value ∨ ∃ e ∈ entries, key = dotted tableAlias e.1 := by
  by_cases hkey : ∃ e ∈ entries, key = dotted tableAlias e.1
  · exact .inr hkey
  · refine .inl ?_
    rw [← h]
    refine (lookup_addAliases_of_ne halias hentries hdot fun e he heq => ?_).symm
    exact hkey ⟨e, he, heq⟩

end Aliases

end ScratchDb.Select
