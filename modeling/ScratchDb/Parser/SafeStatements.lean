import ScratchDb.Parser.Escapes

/-!
# When statements escape

The functions that read statements are safe as well, and with them the parser
of whole texts.
-/

namespace ScratchDb.QueryParser

open Select

variable {command : List Char} {least most : Nat} {parseText : ParseText}

/-! ## Selects -/

theorem safe_parseAlias (label : String) :
    Safe command least most 0 (fun _ => True) (parseAlias label) :=
  (isMatch_matchText _).safe ((safe_readIdentifier label).forget (by omega)) (.pure trivial)

theorem safe_parseTableReference :
    Safe command least most 0 (fun _ => True) parseTableReference := by
  refine (isMatch_matchType _).safe_matchedToken (fun _ _ _ => .fail _ _ _) ?_
  refine (safe_readIdentifier _).bind fun name _ => (safe_parseAlias _).bind fun tableAlias _ => ?_
  exact .pure trivial

theorem safe_parseSelected : Safe command least most 0 (fun _ => True) parseSelected := by
  refine .positionHere fun position => .nextNames ?_ fun aggregate => .advance ?_
  · refine .nextNames ?_ fun scalarFunction => .advance ?_
    · refine (safe_parseColumnReference _).bind fun column _ => ?_
      exact .positionBefore fun _ => .pure trivial
    · refine (safe_expectType _ _).bind fun _ _ => ?_
      refine (safe_parseColumnReference _).bind fun column _ => ?_
      exact (safe_expectType _ _).bind fun _ _ => .pure trivial
  · exact (safe_parseAggregated _ _).bind fun column _ => .pure trivial

theorem safe_parseSelectedColumn :
    Safe command least most 0 (fun _ => True) parseSelectedColumn :=
  safe_parseSelected.bind fun _ _ => (safe_parseAlias _).bind fun _ _ => .pure trivial

theorem safe_parseSelectList : Safe command least most 0 (fun _ => True) parseSelectList :=
  (isMatch_matchType _).safe (.pure trivial)
    ((safe_listOf fun _ => safe_parseSelectedColumn).bind fun _ _ => .pure trivial)

theorem safe_parsePlainColumn (label : String) :
    Safe command least most 0 (fun _ => True) (parsePlainColumn label) := by
  refine .positionHere fun position => (safe_parseColumnReference label).bind fun column _ => ?_
  exact .positionBefore fun _ => .pure trivial

theorem safe_parseOrderByColumn :
    Safe command least most 0 (fun _ => True) parseOrderByColumn := by
  refine (safe_parsePlainColumn _).bind fun column _ => ?_
  exact (isMatch_matchText _).safe (.pure trivial)
    ((isMatch_matchText _).safe (.pure trivial) (.pure trivial))

theorem safe_parseLimit : Safe command least most 0 (fun _ => True) parseLimit := by
  refine .atEnd (.failAtEnd _) (.takeToken fun t _ => .ite (fun _ => .fail _ _ _) fun _ => ?_)
  split
  · exact .pure trivial
  · exact .fail _ _ _

theorem safe_parseLimitClause : Safe command least most 0 (fun _ => True) parseLimitClause :=
  (isMatch_matchText _).safe (safe_parseLimit.bind fun _ _ => .pure trivial) (.pure trivial)

theorem safe_parseBy {α : Type} {column : Parser α}
    (hcolumn : ∀ n, Safe command 0 n 0 (fun _ => True) column) (word : String) :
    Safe command least most 0 (fun _ => True) (parseBy word column) :=
  (isMatch_matchText _).safe ((safe_expectText _).bind fun _ _ => safe_listOf hcolumn)
    (.pure trivial)

theorem safe_parseQuantifier : Safe command least most 0 (fun _ => True) parseQuantifier := by
  refine (isMatch_matchText _).safe (.pure trivial) ?_
  exact (isMatch_matchText "SOME").safe_bind fun _ => .pure trivial

section Select

variable (hbelow : SafeBelow command parseText)
include hbelow

theorem safe_parseFromSource :
    Safe command least most 0 (fun _ => True) (parseFromSource parseText) := by
  refine (isMatch_matchType _).safe_matchedToken (fun _ opened hopened => ?derived) ?table
  case derived =>
    refine (safe_parseSelectText hbelow _ hopened).bind fun query _ => ?_
    refine (isMatch_matchText "AS").safe_bind fun _ => ?_
    exact (safe_readIdentifier _).bind fun _ _ => .pure trivial
  case table => exact safe_parseTableReference.bind fun _ _ => .pure trivial

theorem safe_parseConditionAfter (word : String) :
    Safe command least most 0 (fun _ => True) (parseConditionAfter parseText word) :=
  (isMatch_matchText _).safe
    ((safe_parseConditionExpression hbelow).bind fun _ _ => .pure trivial) (.pure trivial)

theorem safe_parseJoined (type : QueryJoinType) :
    Safe command least most 0 (fun _ => True) (parseJoined parseText type) :=
  safe_parseTableReference.bind fun _ _ =>
    (safe_parseConditionAfter hbelow "ON").bind fun _ _ => .pure trivial

theorem safe_parseConditionJoin :
    Safe command least most 0 (fun _ => True) (parseConditionJoin parseText) := by
  refine .previous fun word => .ite (fun _ => ?_) fun _ => .ite (fun _ => ?_) fun _ => ?_
  · exact (safe_expectText _).bind fun _ _ => safe_parseJoined hbelow _
  · exact (safe_expectText _).bind fun _ _ => safe_parseJoined hbelow _
  · exact safe_parseJoined hbelow _

omit hbelow in
theorem safe_parseNaturalJoin : Safe command least most 0 (fun _ => True) parseNaturalJoin :=
  (safe_expectText _).bind fun _ _ => safe_parseTableReference.bind fun _ _ => .pure trivial

theorem safe_joinLoop {turns : Nat} (hturns : most < turns) :
    Safe command least most 0 (fun _ => True) (joinLoop parseText turns) := by
  induction turns generalizing least most with
  | zero => exact absurd hturns (Nat.not_lt_zero _)
  | succ turns ih =>
    refine (isMatch_matchType _).safe_of_pos (fun hpos => ?_)
      ((isMatch_matchOneOf _).safe_of_pos (fun hpos => ?_)
        ((isMatch_matchText _).safe_of_pos (fun hpos => ?_) (.pure trivial)))
    · exact safe_itemAnd (safe_parseJoined hbelow _) (ih (by omega))
    · exact safe_itemAnd (safe_parseConditionJoin hbelow) (ih (by omega))
    · exact safe_itemAnd safe_parseNaturalJoin (ih (by omega))

theorem safe_parseJoins : Safe command least most 0 (fun _ => True) (parseJoins parseText) :=
  .tokensLeft fun n _ => safe_joinLoop hbelow (Nat.lt_succ_self n)

theorem safe_parseSingleSelect :
    Safe command least most 0 (fun _ => True) (parseSingleSelect parseText) := by
  refine safe_parseSelectList.bind fun list _ => (safe_expectText _).bind fun _ _ => ?_
  refine (safe_parseFromSource hbelow).bind fun source _ => ?_
  refine (safe_parseJoins hbelow).bind fun joins _ => ?_
  refine (safe_parseConditionAfter hbelow _).bind fun condition _ => ?_
  refine (safe_parseBy (fun _ => safe_parsePlainColumn _) _).bind fun groups _ => ?_
  refine (safe_parseConditionAfter hbelow _).bind fun having _ => ?_
  refine (safe_parseBy (fun _ => safe_parseOrderByColumn) _).bind fun orders _ => ?_
  exact safe_parseLimitClause.bind fun limit _ => .pure trivial

theorem safe_compoundLoop {turns : Nat} (hturns : most < turns) :
    Safe command least most 0 (fun _ => True) (compoundLoop parseText turns) := by
  induction turns generalizing least most with
  | zero => exact absurd hturns (Nat.not_lt_zero _)
  | succ turns ih =>
    refine (isMatch_matchOneOf _).safe_matchedToken (fun hpos word _ => ?_) (.pure trivial)
    refine safe_parseQuantifier.bind fun quantifier _ => (safe_expectText _).bind fun _ _ => ?_
    refine (safe_parseSingleSelect hbelow).bind fun query _ => ?_
    exact (ih (by omega)).bind fun compound _ => .pure trivial

theorem safe_parseCompoundSelect :
    Safe command least most 0 (fun _ => True) (parseCompoundSelect parseText) := by
  refine (safe_parseSingleSelect hbelow).bind fun query _ => .tokensLeft fun n _ => ?_
  exact (safe_compoundLoop hbelow (Nat.lt_succ_self n)).bind fun _ _ => safe_endOrError _

theorem safe_parseSelect : Safe command least most 0 (fun _ => True) (parseSelect parseText) :=
  (safe_parseCompoundSelect hbelow).bind fun _ _ => .pure trivial

theorem safe_parseCommonTableExpression :
    Safe command least most 0 (fun _ => True) (parseCommonTableExpression parseText) := by
  refine (safe_readIdentifier _).bind fun name _ => (safe_expectText _).bind fun _ _ => ?_
  exact (safe_parseSubquery hbelow).bind fun _ _ => .pure trivial

theorem safe_parseWith : Safe command least most 0 (fun _ => True) (parseWith parseText) := by
  refine (safe_listOf fun _ => safe_parseCommonTableExpression hbelow).bind fun ctes _ => ?_
  refine (safe_expectText _).bind fun _ _ => ?_
  exact (safe_parseCompoundSelect hbelow).bind fun _ _ => .pure trivial

end Select

/-! ## Columns -/

/-- The name of an identifier is a name of a column. -/
theorem isValidName_of_isIdentifier {name : String} (h : isIdentifier name = true) :
    Column.isValidName name = true := by
  unfold isIdentifier at h
  unfold Column.isValidName
  cases hname : name.toList with
  | nil =>
    rw [hname] at h
    cases h
  | cons ch rest =>
    rw [hname] at h
    simp only [isIdentifierStart, List.all_cons, Bool.and_eq_true] at h
    simp only [Bool.and_eq_true]
    exact ⟨h.1, h.2.2⟩

theorem safe_makeColumn {name : String} {type : ColumnType} {maxSize precision scale : Nat}
    (h : (Column.make name type true maxSize precision scale).isSome) :
    Safe command least most 0 (fun _ => True) (makeColumn name type maxSize precision scale) := by
  obtain ⟨column, hcolumn⟩ := Option.isSome_iff_exists.mp h
  rw [makeColumn, hcolumn]
  exact .pure trivial

theorem makeColumn_escapes {name : String} {type : ColumnType} {maxSize precision scale : Nat}
    (h : Column.make name type true maxSize precision scale = none) (s : Cursor) :
    ∃ e, makeColumn name type maxSize precision scale s = (.error (.escape e), s) := by
  rw [makeColumn, h]
  exact ⟨_, rfl⟩

theorem safe_parseSize {read : String → Option Nat} (atEndMessage message : String) :
    Safe command least most 1 (fun n => ∃ text, read text = some n.1)
      (parseSize read atEndMessage message) := by
  refine .atEnd (.failAtEnd _) (.takeToken fun t _ => .ite (fun _ => ?_) fun _ => .fail _ _ _)
  cases hread : read t.text with
  | none => exact .fail _ _ _
  | some n => exact .pure ⟨t.text, hread⟩

theorem safe_parseOneSize (typeName : String) (typeToken : Token) :
    Safe command least most 0 (fun _ => True) (parseOneSize typeName typeToken) :=
  (isMatch_matchType _).safe
    ((safe_parseSize _ _).bind fun _ _ => (safe_expectType _ _).bind fun _ _ => .pure trivial)
    (.fail _ _ _)

theorem safe_parseNumberFormat (typeToken : Token) :
    Safe command least most 0 (fun format => format.1 ≤ 18 ∧ format.2 ≤ format.1)
      (parseNumberFormat typeToken) := by
  refine (isMatch_matchType _).safe ?_ (.fail _ _ _)
  refine (safe_parseSize _ _).bind fun precision _ => (safe_expectType _ _).bind fun _ _ => ?_
  refine (safe_parseSize _ _).bind fun scale _ => (safe_expectType _ _).bind fun _ _ => ?_
  refine .ite (fun _ => .fail _ _ _) fun hprecision => .ite (fun _ => .fail _ _ _) fun hscale => ?_
  exact .pure ⟨Nat.not_lt.mp hprecision, Nat.not_lt.mp hscale⟩

/-- STRING and VARSTRING. -/
theorem safe_parseSizedColumn {name : String} (hname : isIdentifier name = true) (typeName : String)
    {type : ColumnType} (htype : type = .string ∨ type = .varstring) (typeToken : Token) :
    Safe command least most 0 (fun _ => True)
      (parseSizedColumn name typeName type typeToken) := by
  have hvalid := isValidName_of_isIdentifier hname
  refine (safe_parseOneSize _ _).bind fun size _ => .noteCall (fun hsize => ?_) fun hsize s _ _ => ?_
  · refine safe_makeColumn ?_
    obtain ⟨hpos, hmax⟩ := hsize
    have hne : size ≠ 0 := Nat.pos_iff_ne_zero.mp hpos
    rcases htype with rfl | rfl <;> simp [Column.make, hvalid, hne, hmax]
  · refine makeColumn_escapes ?_ s
    have hnot : ¬ (size ≠ 0 ∧ size ≤ 1024) := fun h => hsize ⟨Nat.pos_iff_ne_zero.mpr h.1, h.2⟩
    have hlarge : size ≠ 0 → 1024 < size := fun h => Nat.not_le.mp fun hle => hnot ⟨h, hle⟩
    rcases htype with rfl | rfl <;> simpa [Column.make, hvalid] using hlarge

theorem safe_parseNumberColumn {name : String} (hname : isIdentifier name = true)
    (typeToken : Token) :
    Safe command least most 0 (fun _ => True) (parseNumberColumn name typeToken) := by
  have hvalid := isValidName_of_isIdentifier hname
  refine (safe_parseNumberFormat _).bind fun format hformat =>
    .noteCall (fun hprecision => ?_) fun hprecision s _ _ => ?_
  · refine safe_makeColumn ?_
    have hpos : 0 < format.1 := hprecision
    simp [Column.make, hvalid, Column.fixedSize, hpos, hformat.1, hformat.2]
  · refine makeColumn_escapes ?_ s
    have hzero : format.1 = 0 := Nat.eq_zero_of_not_pos hprecision
    simp [Column.make, hvalid, hzero]

theorem safe_parseColumnType {name : String} (hname : isIdentifier name = true) (t : Token) :
    Safe command least most 0 (fun _ => True) (parseColumnType name t) := by
  have hvalid := isValidName_of_isIdentifier hname
  rw [parseColumnType]
  cases htype : plainType t.text with
  | some type =>
    refine safe_makeColumn ?_
    have hplain : type = .integer ∨ type = .character ∨ type = .date ∨ type = .time ∨
        type = .datetime ∨ type = .text := by
      unfold plainType at htype
      grind
    rcases hplain with rfl | rfl | rfl | rfl | rfl | rfl <;>
      simp [Column.make, hvalid, plainSize, Column.fixedSize]
  | none =>
    refine .ite (fun _ => safe_parseSizedColumn hname _ (.inl rfl) _) fun _ => ?_
    refine .ite (fun _ => safe_parseSizedColumn hname _ (.inr rfl) _) fun _ => ?_
    exact .ite (fun _ => safe_parseNumberColumn hname _) fun _ => .fail _ _ _

theorem safe_parseNullability : Safe command least most 0 (fun _ => True) parseNullability :=
  (isMatch_matchText _).safe (.pure trivial) ((isMatch_matchText _).safe
    ((safe_expectText _).bind fun _ _ => .pure trivial) (.pure trivial))

theorem safe_parseColumn : Safe command least most 0 (fun _ => True) parseColumn := by
  refine (safe_readIdentifier _).bind fun name hname => .atEnd (.failAtEnd _) ?_
  refine .takeToken fun t _ => .ite (fun _ => .fail _ _ _) fun _ => ?_
  refine (safe_parseColumnType hname t).bind fun column _ => ?_
  exact safe_parseNullability.bind fun _ _ => .pure trivial

/-! ## Constraints and tables -/

theorem safe_readColumnList (label : String) :
    Safe command least most 0 (fun _ => True) (readColumnList label) := by
  refine (safe_expectType _ _).bind fun _ _ => ?_
  refine (safe_listOf fun _ => (safe_readIdentifier label).weaken (by omega)).bind fun columns _ => ?_
  exact (safe_expectType _ _).bind fun _ _ => .pure trivial

theorem safe_readOneColumn (label message : String) :
    Safe command least most 0 (fun _ => True) (readOneColumn label message) := by
  refine (safe_readColumnList label).bind fun columns _ => ?_
  split
  · exact .pure trivial
  · exact .get fun s _ => .positionBefore fun _ => .fail _ _ _

theorem safe_checkLoop {isPart : Token → Bool} {turns : Nat} (hturns : most < turns) :
    Safe command least most 0 (fun _ => True) (checkLoop isPart turns) := by
  induction turns generalizing least most with
  | zero => exact absurd hturns (Nat.not_lt_zero _)
  | succ turns ih =>
    refine .peek (.pure trivial) fun t _ => .ite (fun _ => .pure trivial) fun _ => ?_
    by_cases hpos : most = 0
    · exact .vacuous (by omega)
    · exact .advance ((ih (by omega)).bind fun parts _ => .pure trivial)

theorem safe_parseCheck (isPart : Token → Bool) (id : Nat) :
    Safe command least most 0 (fun _ => True) (parseCheck isPart id) := by
  refine (safe_expectType _ _).bind fun _ _ => .tokensLeft fun n _ => ?_
  refine (safe_checkLoop (Nat.lt_succ_self n)).bind fun parts _ => ?_
  exact (safe_expectType _ _).bind fun _ _ => .pure trivial

theorem safe_parseTableConstraint (id : Nat) :
    Safe command least most 0 (fun _ => True) (parseTableConstraint id) := by
  refine (isMatch_matchText _).safe ?primary ((isMatch_matchText _).safe ?unique
    ((isMatch_matchText _).safe ?foreign ((isMatch_matchText _).safe (safe_parseCheck _ _)
      (.expected _))))
  case primary =>
    refine (safe_expectText _).bind fun _ _ => ?_
    exact (safe_readColumnList _).bind fun _ _ => .pure trivial
  case unique => exact (safe_readColumnList _).bind fun _ _ => .pure trivial
  case foreign =>
    refine (safe_expectText _).bind fun _ _ => (safe_readOneColumn _ _).bind fun column _ => ?_
    refine (safe_expectText _).bind fun _ _ => (safe_readIdentifier _).bind fun refTable _ => ?_
    exact (safe_readOneColumn _ _).bind fun refColumn _ => .pure trivial

theorem safe_parseReference (name : String) (id : Nat) :
    Safe command least most 0 (fun _ => True) (parseReference name id) := by
  refine (safe_readIdentifier _).bind fun refTable _ => (safe_expectType _ _).bind fun _ _ => ?_
  refine (safe_readIdentifier _).bind fun refColumn _ => ?_
  exact (safe_expectType _ _).bind fun _ _ => .pure trivial

theorem safe_columnConstraintLoop (name : String) {turns : Nat} (hturns : most < turns) (id : Nat) :
    Safe command least most 0 (fun _ => True) (columnConstraintLoop name turns id) := by
  induction turns generalizing least most id with
  | zero => exact absurd hturns (Nat.not_lt_zero _)
  | succ turns ih =>
    refine (isMatch_matchText _).safe_of_pos (fun hpos => ?_)
      ((isMatch_matchText _).safe_of_pos (fun hpos => ?_)
        ((isMatch_matchText _).safe_of_pos (fun hpos => ?_)
          ((isMatch_matchText _).safe_of_pos (fun hpos => ?_) (.pure trivial))))
    · have hkey : Safe command 0 (most - 1) 0 (fun _ => True) (parseColumnKey name id) :=
        (safe_expectText _).bind fun _ _ => .pure trivial
      exact safe_itemAnd hkey (ih (by omega) _)
    · exact safe_itemAnd (Q := fun _ => True) (.pure trivial) (ih (by omega) _)
    · exact safe_itemAnd (safe_parseReference _ _) (ih (by omega) _)
    · exact safe_itemAnd (safe_parseCheck _ _) (ih (by omega) _)

theorem safe_parseColumnConstraints (name : String) (id : Nat) :
    Safe command least most 0 (fun _ => True) (parseColumnConstraints name id) :=
  .tokensLeft fun n _ => safe_columnConstraintLoop name (Nat.lt_succ_self n) id

theorem safe_definitionLoop {turns : Nat} (hturns : most < turns) (id : Nat) (parts : TableParts) :
    Safe command least most 0 (fun _ => True) (definitionLoop turns id parts) := by
  induction turns generalizing least most id parts with
  | zero => exact absurd hturns (Nat.not_lt_zero _)
  | succ turns ih =>
    refine (isMatch_matchType _).safe (.pure trivial) (safe_parseColumn.bind fun column _ => ?_)
    refine (safe_parseColumnConstraints _ _).bind fun constraints _ => ?_
    refine (isMatch_matchType _).safe_of_pos (fun hpos => ih (by omega) _ _)
      ((isMatch_matchType _).safe (.pure trivial) (.peek (.expected _) fun t _ => ?_))
    refine .ite (fun _ => ?_) fun _ => .expected _
    refine (safe_parseTableConstraint _).bind fun c _ => ?_
    exact (isMatch_matchType _).safe_of_pos (fun hpos => ih (by omega) _ _)
      ((isMatch_matchType _).safe (.pure trivial) (.expected _))

theorem safe_parseStorageEngine :
    Safe command least most 0 (fun _ => True) parseStorageEngine := by
  refine (isMatch_matchText _).safe ((isMatch_matchType _).safe ?_ (.expected _)) (.pure trivial)
  refine .previous fun t => ?_
  cases t with
  | none => exact .expected _
  | some t =>
    refine .ite (fun _ => .expected _) fun _ => ?_
    exact (isMatch_matchText _).safe (.pure trivial)
      ((isMatch_matchText _).safe (.pure trivial) (.expected _))

theorem safe_parseIfNotExists : Safe command least most 0 (fun _ => True) parseIfNotExists :=
  (isMatch_matchText _).safe ((safe_expectText _).bind fun _ _ =>
    (safe_expectText _).bind fun _ _ => .pure trivial) (.pure trivial)

theorem safe_parseCreateTable : Safe command least most 0 (fun _ => True) parseCreateTable := by
  refine safe_parseIfNotExists.bind fun ifNotExists _ => ?_
  refine (safe_readIdentifier _).bind fun name _ => (safe_expectType _ _).bind fun _ _ => ?_
  refine (isMatch_matchType _).safe_matchedToken (fun _ _ _ => .fail _ _ _) ?_
  refine .tokensLeft fun n _ => (safe_definitionLoop (Nat.lt_succ_self n) _ _).bind fun parts _ => ?_
  exact safe_parseStorageEngine.bind fun _ _ => safe_endOrError _

/-! ## Statements -/

theorem safe_parseNamed (label : String) (named : String → ParsedCommand) :
    Safe command least most 0 (fun _ => True) (parseNamed label named) :=
  (safe_readIdentifier label).bind fun _ _ => safe_endOrError _

theorem safe_parseShow : Safe command least most 0 (fun _ => True) parseShow := by
  refine (isMatch_matchText _).safe (safe_endOrError _) ((isMatch_matchText _).safe
    (safe_endOrError _) ((isMatch_matchText _).safe ?_ (.expected _)))
  exact (safe_expectText _).bind fun _ _ => safe_parseNamed _ _

theorem safe_parseCreateIndex (unique : Bool) :
    Safe command least most 0 (fun _ => True) (parseCreateIndex unique) := by
  refine (safe_readIdentifier _).bind fun indexName _ => (safe_expectText _).bind fun _ _ => ?_
  refine (safe_readIdentifier _).bind fun tableName _ => (safe_expectType _ _).bind fun _ _ => ?_
  refine (safe_readIdentifier _).bind fun columnName _ => (safe_expectType _ _).bind fun _ _ => ?_
  exact safe_endOrError _

theorem safe_parseCreate : Safe command least most 0 (fun _ => True) parseCreate := by
  refine (isMatch_matchText _).safe ?_ ((isMatch_matchText _).safe (safe_parseNamed _ _)
    ((isMatch_matchText _).safe safe_parseCreateTable ((isMatch_matchText _).safe
      (safe_parseCreateIndex _) (.expected _))))
  exact (safe_expectText _).bind fun _ _ => safe_parseCreateIndex _

theorem safe_parseDrop : Safe command least most 0 (fun _ => True) parseDrop := by
  refine (isMatch_matchText _).safe (safe_parseNamed _ _) ((isMatch_matchText _).safe
    (safe_parseNamed _ _) ((isMatch_matchText _).safe ?_ (.expected _)))
  refine (safe_readIdentifier _).bind fun indexName _ => (safe_expectText _).bind fun _ _ => ?_
  exact safe_parseNamed _ _

theorem safe_parseConstraintId : Safe command least most 0 (fun _ => True) parseConstraintId := by
  refine .atEnd (.expected _) (.token fun t _ => .ite (fun _ => .expected _) fun _ => ?_)
  refine .noteCall (fun hid => ?_) fun hid s _ _ => ?_
  · obtain ⟨id, hid⟩ := hid
    rw [hid]
    exact .advance (.pure trivial)
  · cases hstoull : stoull t.text.toList with
    | ok id => exact absurd ⟨id, hstoull⟩ hid
    | error e => exact ⟨.number, rfl⟩

theorem safe_parseAlter : Safe command least most 0 (fun _ => True) parseAlter := by
  refine (safe_expectText _).bind fun _ _ => (safe_readIdentifier _).bind fun name _ => ?_
  refine (isMatch_matchText _).safe ?_ ((isMatch_matchText _).safe ?_ (.expected _))
  · exact (safe_parseTableConstraint _).bind fun _ _ => safe_endOrError _
  · refine (safe_expectText _).bind fun _ _ => ?_
    exact safe_parseConstraintId.bind fun _ _ => safe_endOrError _

theorem safe_parseInsertColumns :
    Safe command least most 0 (fun _ => True) parseInsertColumns := by
  refine (isMatch_matchType _).safe ?_ (.pure trivial)
  refine (safe_listOf fun _ => (safe_readIdentifier _).weaken (by omega)).bind fun columns _ => ?_
  exact (safe_expectType _ _).bind fun _ _ => .pure trivial

theorem safe_parseAssigned : Safe command least most 0 (fun _ => True) parseAssigned := by
  refine .peek (.expected _) fun t _ => .ite (fun _ => .advance (.pure trivial)) fun _ => ?_
  exact .ite (fun _ => safe_parseParenthesizedBody.weaken (by omega)) fun _ => .expected _

theorem safe_parseAssignment : Safe command least most 0 (fun _ => True) parseAssignment := by
  refine (safe_readIdentifier _).bind fun name _ => (isMatch_matchType _).safe ?_ (.expected _)
  refine .previous fun t => ?_
  cases t with
  | none => exact .expected _
  | some t =>
    exact .ite (fun _ => .expected _) fun _ => safe_parseAssigned.bind fun _ _ => .pure trivial

theorem safe_parseUpdateSet : Safe command least most 0 (fun _ => True) parseUpdateSet :=
  (isMatch_matchText _).safe (safe_parseParenthesizedBody.bind fun _ _ => .pure trivial)
    ((safe_listOf fun _ => safe_parseAssignment).bind fun _ _ => .pure trivial)

section Statements

variable (hbelow : SafeBelow command parseText)
include hbelow

theorem safe_parseInsert : Safe command least most 0 (fun _ => True) (parseInsert parseText) := by
  refine (safe_expectText _).bind fun _ _ => (safe_readIdentifier _).bind fun name _ => ?_
  refine safe_parseInsertColumns.bind fun columns _ => ?_
  refine (isMatch_matchText _).safe ?_ ((isMatch_matchText _).safe ?_ (.expected _))
  · exact (safe_parseSingleSelect hbelow).bind fun _ _ => safe_endOrError _
  · refine (safe_listOf fun _ => safe_parseParenthesizedBody.weaken (by omega)).bind fun rows _ => ?_
    exact safe_endOrError _

theorem safe_parseWhere : Safe command least most 0 (fun _ => True) (parseWhere parseText) :=
  (safe_expectText _).bind fun _ _ => (safe_parseConditionExpression hbelow).weaken (by omega)

theorem safe_parseDelete : Safe command least most 0 (fun _ => True) (parseDelete parseText) := by
  refine (safe_expectText _).bind fun _ _ => (safe_readIdentifier _).bind fun name _ => ?_
  exact (safe_parseWhere hbelow).bind fun _ _ => safe_endOrError _

theorem safe_parseUpdate : Safe command least most 0 (fun _ => True) (parseUpdate parseText) := by
  refine (safe_readIdentifier _).bind fun name _ => (safe_expectText _).bind fun _ _ => ?_
  refine safe_parseUpdateSet.bind fun set _ => ?_
  exact (safe_parseWhere hbelow).bind fun _ _ => safe_endOrError _

theorem safe_parseKnown (first : Token) :
    Safe command least most 0 (fun _ => True) (parseKnown parseText first) :=
  (isMatch_matchOneOf _).safe (safe_endOrError _) <|
  (isMatch_matchText _).safe (safe_endOrError _) <|
  (isMatch_matchText _).safe (safe_endOrError _) <|
  (isMatch_matchText _).safe (safe_endOrError _) <|
  (isMatch_matchText _).safe (safe_endOrError _) <|
  (isMatch_matchText _).safe safe_parseShow <|
  (isMatch_matchText _).safe safe_parseCreate <|
  (isMatch_matchText _).safe safe_parseDrop <|
  (isMatch_matchText _).safe safe_parseAlter <|
  (isMatch_matchText _).safe (safe_parseNamed _ _) <|
  (isMatch_matchOneOf _).safe (safe_parseNamed _ _) <|
  (isMatch_matchText _).safe (safe_parseInsert hbelow) <|
  (isMatch_matchText _).safe (safe_parseSelect hbelow) <|
  (isMatch_matchText _).safe (safe_parseWith hbelow) <|
  (isMatch_matchText _).safe (safe_parseDelete hbelow) <|
  (isMatch_matchText _).safe (safe_parseUpdate hbelow) (.fail _ _ _)

theorem safe_parse : Safe command least most 0 (fun _ => True) (parse parseText) := by
  refine .atEnd (.fail _ _ _) (.token fun first _ => .ite (fun _ => .fail _ _ _) fun _ => ?_)
  exact safe_parseKnown hbelow first

end Statements

/-! ## Texts -/

/-- Tokens begin inside the text that they are read from. -/
theorem position_of_tokenizeFrom {turns i : Nat} {rest : List Char} {parens : List Nat}
    {tokens : List Token} (h : tokenizeFrom turns i rest parens = .ok tokens) :
    ∀ t ∈ tokens, t.position < i + rest.length := by
  have hfinish : ∀ parens tokens, finishTokens parens = .ok tokens → tokens = [] := by
    intro parens tokens h
    cases parens with
    | nil =>
      cases h
      rfl
    | cons p ps => cases h
  induction turns generalizing i rest parens tokens with
  | zero =>
    rw [hfinish _ _ h]
    exact fun t ht => absurd ht List.not_mem_nil
  | succ turns ih =>
    rw [tokenizeFrom] at h
    cases hrest : rest.dropWhile isSpace with
    | nil =>
      rw [hrest] at h
      rw [hfinish _ _ h]
      exact fun t ht => absurd ht List.not_mem_nil
    | cons ch cs =>
      rw [hrest] at h
      dsimp only at h
      have hlen : (rest.takeWhile isSpace).length + (cs.length + 1) = rest.length := by
        rw [← List.length_cons (a := ch), ← hrest, ← List.length_append,
          List.takeWhile_append_dropWhile]
      generalize (rest.takeWhile isSpace).length = blanks at h hlen
      cases hread : readToken (i + blanks) ch cs with
      | error e =>
        rw [hread] at h
        cases h
      | ok read =>
        obtain ⟨type, size⟩ := read
        rw [hread] at h
        dsimp only at h
        have hnext : ∀ parens, (tokenizeFrom turns (i + blanks + size) ((ch :: cs).drop size)
            parens).map (⟨type, String.ofList ((ch :: cs).take size), i + blanks⟩ :: ·) =
              .ok tokens → ∀ t ∈ tokens, t.position < i + rest.length := by
          intro parens h
          cases hnext : tokenizeFrom turns (i + blanks + size) ((ch :: cs).drop size) parens with
          | error e =>
            rw [hnext] at h
            cases h
          | ok later =>
            rw [hnext] at h
            cases h
            intro t ht
            rcases List.mem_cons.mp ht with rfl | ht
            · show i + blanks < _
              omega
            · have hlater := ih hnext t ht
              rw [List.length_drop, List.length_cons] at hlater
              rcases Nat.lt_or_ge size (cs.length + 1) with hsize | hsize
              · omega
              · -- nothing is left of the text then
                have hnil : (ch :: cs).drop size = [] := List.drop_eq_nil_of_le hsize
                rw [hnil] at hnext
                cases turns with
                | zero =>
                  rw [hfinish _ _ hnext] at ht
                  exact absurd ht List.not_mem_nil
                | succ turns =>
                  rw [hfinish _ _ hnext] at ht
                  exact absurd ht List.not_mem_nil
        split at h
        · exact hnext _ h
        · cases h
        · exact hnext _ h
        · exact hnext _ h

theorem position_of_tokenize {tokens : List Token} (h : tokenize command = .ok tokens) :
    ∀ t ∈ tokens, t.position < command.length := by
  have hpos := position_of_tokenizeFrom h
  rwa [Nat.zero_add] at hpos

/-- With enough levels, the parser of a text escapes only in a call. -/
theorem endsWith_parseLevels {levels : Nat} (hlevels : command.length < levels) :
    EndsWith (parseLevels levels command).2 (parseLevels levels command).1 := by
  induction levels generalizing command with
  | zero => exact absurd hlevels (Nat.not_lt_zero _)
  | succ levels ih =>
    rw [parseLevels]
    cases htokens : tokenize command with
    | error e => exact fun c hc => absurd hc List.not_mem_nil
    | ok tokens =>
      have hfits : Cursor.Fits ⟨command, tokens, none, []⟩ :=
        ⟨position_of_tokenize htokens, fun t ht => by cases ht⟩
      have hbelow : SafeBelow command (parseLevels levels) := fun text htext => ih (by omega)
      have hparsed := safe_parse hbelow ⟨command, tokens, none, []⟩ rfl hfits (Nat.zero_le _) le_rfl
      obtain ⟨calls, hcalls, hends⟩ := hparsed.calls
      rw [List.append_nil] at hcalls
      dsimp only
      rwa [hcalls]

/-- `parse_with_error` returns a query or an error. -/
def Returns (command : List Char) : Prop :=
  (∃ query, (parseWithError command).1 = .ok query) ∨
    ∃ e, (parseWithError command).1 = .error (.error e)

/-- The parser returns exactly when it reads no bound of a `BETWEEN` behind the last token, and
takes no constraint id, size or precision that does not fit. -/
theorem returns_iff (command : List Char) :
    Returns command ↔ ∀ c ∈ (parseWithError command).2, c.Accepted := by
  have hends : EndsWith (parseWithError command).2 (parseWithError command).1 :=
    endsWith_parseLevels (Nat.lt_succ_self _)
  rw [Returns]
  generalize (parseWithError command).1 = r at hends ⊢
  rcases r with (e | e) | query
  · exact ⟨fun _ => hends, fun _ => .inr ⟨e, rfl⟩⟩
  · obtain ⟨c, hc, hnot⟩ := hends
    refine ⟨?_, fun hall => absurd (hall c hc) hnot⟩
    rintro (⟨query, hquery⟩ | ⟨e', he'⟩)
    · cases hquery
    · cases he'
  · exact ⟨fun _ => hends, fun _ => .inl ⟨query, rfl⟩⟩

/-- The run has left the result type of the parser. -/
def hasEscaped : Except Stop ParsedCommand → Bool
  | .error (.escape _) => true
  | _ => false

/-- A condition may end with `BETWEEN`. -/
theorem parse_unfinished_between : ¬ ∀ command : List Char, Returns command := by
  intro h
  have hescaped :
      hasEscaped (parseWithError "SELECT * FROM t WHERE a BETWEEN".toList).1 = true := by
    decide +kernel
  rcases h "SELECT * FROM t WHERE a BETWEEN".toList with ⟨query, hquery⟩ | ⟨e, he⟩
  · rw [hquery] at hescaped
    cases hescaped
  · rw [he] at hescaped
    cases hescaped

end ScratchDb.QueryParser
