import ScratchDb.Catalog.RoundTrip
import ScratchDb.Parser.PlacedTokens

/-!
# The grammar of `SELECT`

Which tokens a query may be written with: any nesting of subqueries, derived tables
and common table expressions, joins with their conditions, trees of conditions with
redundant parentheses, aggregates, clauses and compounds. The positions in a query
and the texts of its subqueries are left open.
-/

namespace ScratchDb.Select

/-! ## Queries without positions -/

def SelectedColumn.erased (c : SelectedColumn) : SelectedColumn := { c with position := 0 }

def OrderByColumn.erased (c : OrderByColumn) : OrderByColumn :=
  { c with column := c.column.erased }

mutual

/-- The same expression at position 0, with an empty text for a subquery. -/
def QueryExpression.erased : QueryExpression → QueryExpression
  | .columnReference tableAlias name text _ => .columnReference tableAlias name text 0
  | .aggregate function tableAlias name _ => .aggregate function tableAlias name 0
  | .literal text _ => .literal text 0
  | .scalarSubquery _ query _ => .scalarSubquery "" query.erased 0

def QueryCondition.erased : QueryCondition → QueryCondition
  | .comparison left op right => .comparison left.erased op right.erased
  | .subquery left test query => .subquery left.erased test query.erased
  | .rightValues left test values => .rightValues left.erased test values
  | .existsSubquery query => .existsSubquery query.erased
  | .existsResult result => .existsResult result
  | .not child => .not child.erased
  | .and left right => .and left.erased right.erased
  | .or left right => .or left.erased right.erased

def QueryJoin.erased : QueryJoin → QueryJoin
  | ⟨type, tableName, tableAlias, condition⟩ =>
    ⟨type, tableName, tableAlias, erasedCondition condition⟩

def QueryCommonTableExpression.erased : QueryCommonTableExpression → QueryCommonTableExpression
  | ⟨name, query⟩ => ⟨name, query.erased⟩

def QueryCompound.erased : QueryCompound → QueryCompound
  | ⟨operator, quantifier, query⟩ => ⟨operator, quantifier, query.erased⟩

/-- The same query with all positions 0, in its subqueries as well. -/
def ParsedQuery.erased : ParsedQuery → ParsedQuery
  | ⟨tableName, tableAlias, derivedTable, selectAll, selectedColumns, groupByColumns,
      orderByColumns, condition, havingCondition, joins, commonTableExpressions, compound,
      limitCount⟩ =>
    ⟨tableName, tableAlias, erasedQuery derivedTable, selectAll,
      selectedColumns.map SelectedColumn.erased, groupByColumns.map SelectedColumn.erased,
      orderByColumns.map OrderByColumn.erased, erasedCondition condition,
      erasedCondition havingCondition, erasedJoins joins, erasedTables commonTableExpressions,
      erasedCompound compound, limitCount⟩

def erasedCondition : Option QueryCondition → Option QueryCondition
  | none => none
  | some c => some c.erased

def erasedQuery : Option ParsedQuery → Option ParsedQuery
  | none => none
  | some q => some q.erased

def erasedCompound : Option QueryCompound → Option QueryCompound
  | none => none
  | some c => some c.erased

def erasedJoins : List QueryJoin → List QueryJoin
  | [] => []
  | j :: joins => j.erased :: erasedJoins joins

def erasedTables : List QueryCommonTableExpression → List QueryCommonTableExpression
  | [] => []
  | c :: ctes => c.erased :: erasedTables ctes

end

theorem erasedCondition_eq (c : Option QueryCondition) :
    erasedCondition c = c.map QueryCondition.erased := by
  cases c <;> rfl

theorem erasedJoins_eq (joins : List QueryJoin) : erasedJoins joins = joins.map QueryJoin.erased := by
  induction joins with
  | nil => rfl
  | cons j joins ih => rw [erasedJoins, ih, List.map_cons]

theorem erasedTables_eq (ctes : List QueryCommonTableExpression) :
    erasedTables ctes = ctes.map QueryCommonTableExpression.erased := by
  induction ctes with
  | nil => rfl
  | cons c ctes ih => rw [erasedTables, ih, List.map_cons]

end ScratchDb.Select

namespace ScratchDb.QueryParser

open Select DelimitedText

/-! ## Parts of a query -/

def inParens (ls : List Lexeme) : List Lexeme :=
  ⟨.leftParen, "("⟩ :: (ls ++ [⟨.rightParen, ")"⟩])

section Lists

variable {α : Type}

/-- Items with commas between them. -/
inductive Listed (Item : List Lexeme → α → Prop) : List Lexeme → List α → Prop where
  | one {ls : List Lexeme} {a : α} : Item ls a → Listed Item ls [a]
  | next {ls ls' : List Lexeme} {a : α} {as : List α} : Item ls a → Listed Item ls' as →
      Listed Item (ls ++ ⟨.comma, ","⟩ :: ls') (a :: as)

/-- Items one after the other. -/
inductive Repeated (Item : List Lexeme → α → Prop) : List Lexeme → List α → Prop where
  | nil : Repeated Item [] []
  | next {ls ls' : List Lexeme} {a : α} {as : List α} : Item ls a → Repeated Item ls' as →
      Repeated Item (ls ++ ls') (a :: as)

/-- What follows a keyword, where it stands. -/
inductive Clause (keyword : String) (Body : List Lexeme → α → Prop) :
    List Lexeme → Option α → Prop where
  | absent : Clause keyword Body [] none
  | present {ls : List Lexeme} {a : α} : Body ls a → Clause keyword Body (word keyword :: ls) (some a)

/-- A list behind a keyword and `BY`, where it stands. -/
inductive ByClause (keyword : String) (Item : List Lexeme → α → Prop) :
    List Lexeme → List α → Prop where
  | absent : ByClause keyword Item [] []
  | present {ls : List Lexeme} {as : List α} : Listed Item ls as →
      ByClause keyword Item (word keyword :: word "BY" :: ls) as

end Lists

def aggregateText : QueryAggregateFunction → String
  | .none => ""
  | .max => "MAX"
  | .min => "MIN"
  | .avg => "AVG"
  | .sum => "SUM"
  | .count => "COUNT"

def scalarText : QueryScalarFunction → String
  | .none => ""
  | .length => "LENGTH"
  | .upper => "UPPER"
  | .lower => "LOWER"

/-- The alias in front of a column. -/
def ColumnName.tableAlias (c : ColumnName) : String := c.qualifier.elim "" Name.text

/-- `AS` and a name, or nothing. -/
inductive AliasText : List Lexeme → String → Prop where
  | absent : AliasText [] ""
  | present (n : Name) : AliasText [word "AS", word n.text] n.text

/-- An aggregate and the names of its column. -/
inductive AggregateText : List Lexeme → QueryAggregateFunction → String → String → Prop where
  | column {function : QueryAggregateFunction} (c : ColumnName) : function ≠ .none →
      AggregateText (word (aggregateText function) :: inParens c.lexemes) function c.tableAlias
        c.name.text
  | countAll : AggregateText (word "COUNT" :: inParens [⟨.star, "*"⟩]) .count "" "*"

inductive SelectedText : List Lexeme → SelectedColumn → Prop where
  | column (c : ColumnName) :
      SelectedText c.lexemes { tableAlias := c.tableAlias, columnName := c.name.text }
  | aggregate {ls : List Lexeme} {function : QueryAggregateFunction} {tableAlias name : String} :
      AggregateText ls function tableAlias name →
      SelectedText ls { tableAlias, columnName := name, aggregate := function }
  | scalar {function : QueryScalarFunction} (c : ColumnName) : function ≠ .none →
      SelectedText (word (scalarText function) :: inParens c.lexemes)
        { tableAlias := c.tableAlias, columnName := c.name.text, scalarFunction := function }

inductive SelectedColumnText : List Lexeme → SelectedColumn → Prop where
  | mk {ls ls' : List Lexeme} {c : SelectedColumn} {columnAlias : String} : SelectedText ls c →
      AliasText ls' columnAlias → SelectedColumnText (ls ++ ls') { c with columnAlias }

inductive SelectListText : List Lexeme → Bool × List SelectedColumn → Prop where
  | all : SelectListText [⟨.star, "*"⟩] (true, [])
  | columns {ls : List Lexeme} {cs : List SelectedColumn} : Listed SelectedColumnText ls cs →
      SelectListText ls (false, cs)

inductive PlainColumnText : List Lexeme → SelectedColumn → Prop where
  | mk (c : ColumnName) :
      PlainColumnText c.lexemes { tableAlias := c.tableAlias, columnName := c.name.text }

inductive OrderColumnText : List Lexeme → OrderByColumn → Prop where
  | plain {ls : List Lexeme} {column : SelectedColumn} : PlainColumnText ls column →
      OrderColumnText ls { column }
  | ascending {ls : List Lexeme} {column : SelectedColumn} : PlainColumnText ls column →
      OrderColumnText (ls ++ [word "ASC"]) { column }
  | descending {ls : List Lexeme} {column : SelectedColumn} : PlainColumnText ls column →
      OrderColumnText (ls ++ [word "DESC"]) { column, descending := true }

/-- A number that `std::stoull` reads. -/
inductive LimitText : List Lexeme → Nat → Prop where
  | mk {n : Nat} : n < 2 ^ 64 → LimitText [⟨.number, String.ofList (decimal n)⟩] n

/-- A table with its alias. -/
inductive TableText : List Lexeme → String × String → Prop where
  | mk {ls : List Lexeme} {tableAlias : String} (n : Name) : AliasText ls tableAlias →
      TableText (word n.text :: ls) (n.text, tableAlias)

/-! ## Conditions and queries -/

section Grammar

variable (Nested : List Lexeme → ParsedQuery → Prop)

/-- A value: an operand, or a subquery between parentheses. -/
inductive ValueText : List Lexeme → Select.QueryExpression → Prop where
  | operand (o : Operand) : ValueText o.lexemes o.expression
  | subquery {ls : List Lexeme} {q : ParsedQuery} : Nested ls q →
      ValueText (inParens ls) (.scalarSubquery "" q 0)

/-- The left side of a comparison. -/
inductive ColumnText : List Lexeme → Select.QueryExpression → Prop where
  | column (c : ColumnName) : ColumnText c.lexemes (c.expression "")
  | aggregate {ls : List Lexeme} {function : QueryAggregateFunction} {tableAlias name : String} :
      AggregateText ls function tableAlias name →
      ColumnText ls (.aggregate function tableAlias name 0)

/-- What follows the left side of a comparison, with the condition they make. -/
inductive TestText (left : Select.QueryExpression) :
    List Lexeme → Select.QueryCondition → Prop where
  | comparison {ls : List Lexeme} {right : Select.QueryExpression} (op : QueryOperator) :
      ValueText Nested ls right →
      TestText left (⟨.op, operatorText op⟩ :: ls) (.comparison left op right)
  | between {ls ls' : List Lexeme} {lower upper : Select.QueryExpression} :
      ValueText Nested ls lower → ValueText Nested ls' upper →
      TestText left (word "BETWEEN" :: (ls ++ word "AND" :: ls'))
        (.and (.comparison left .greaterEqual lower) (.comparison left .lessEqual upper))
  | isIn {ls : List Lexeme} {q : ParsedQuery} : Nested ls q →
      TestText left (word "IN" :: inParens ls) (.subquery left .isIn q)
  | notIn {ls : List Lexeme} {q : ParsedQuery} : Nested ls q →
      TestText left (word "NOT" :: word "IN" :: inParens ls) (.not (.subquery left .isIn q))
  | any {ls : List Lexeme} {q : ParsedQuery} (op : QueryOperator) : Nested ls q →
      TestText left (⟨.op, operatorText op⟩ :: word "ANY" :: inParens ls) (.subquery left (.any op) q)
  | all {ls : List Lexeme} {q : ParsedQuery} (op : QueryOperator) : Nested ls q →
      TestText left (⟨.op, operatorText op⟩ :: word "ALL" :: inParens ls) (.subquery left (.all op) q)

/-- What a condition is an operand of. -/
inductive Rank where
  | or
  | and
  | not

/-- A condition as an operand: `OR` and `AND` group from the left, `NOT` binds the closest, and any
condition may stand between parentheses. -/
inductive ConditionText : Rank → List Lexeme → Select.QueryCondition → Prop where
  | or {ls ls' : List Lexeme} {c c' : Select.QueryCondition} : ConditionText .or ls c →
      ConditionText .and ls' c' → ConditionText .or (ls ++ word "OR" :: ls') (.or c c')
  | ofAnd {ls : List Lexeme} {c : Select.QueryCondition} : ConditionText .and ls c →
      ConditionText .or ls c
  | and {ls ls' : List Lexeme} {c c' : Select.QueryCondition} : ConditionText .and ls c →
      ConditionText .not ls' c' → ConditionText .and (ls ++ word "AND" :: ls') (.and c c')
  | ofNot {ls : List Lexeme} {c : Select.QueryCondition} : ConditionText .not ls c →
      ConditionText .and ls c
  | not {ls : List Lexeme} {c : Select.QueryCondition} : ConditionText .not ls c →
      ConditionText .not (word "NOT" :: ls) (.not c)
  | group {ls : List Lexeme} {c : Select.QueryCondition} : ConditionText .or ls c →
      ConditionText .not (inParens ls) c
  | exists {ls : List Lexeme} {q : ParsedQuery} : Nested ls q →
      ConditionText .not (word "EXISTS" :: inParens ls) (.existsSubquery q)
  | test {ls ls' : List Lexeme} {left : Select.QueryExpression} {c : Select.QueryCondition} :
      ColumnText ls left → TestText Nested left ls' c → ConditionText .not (ls ++ ls') c

/-- What follows `FROM`. -/
inductive SourceText : List Lexeme → String × String × Option ParsedQuery → Prop where
  | table {ls : List Lexeme} {name tableAlias : String} : TableText ls (name, tableAlias) →
      SourceText ls (name, tableAlias, none)
  | derived {ls ls' : List Lexeme} {q : ParsedQuery} (n : Name) : Nested ls q →
      ls' = [] ∨ ls' = [word "AS"] →
      SourceText (inParens ls ++ (ls' ++ [word n.text])) ("", n.text, some q)

/-- The tokens in front of a joined table. -/
def joinLexemes : QueryJoinType → List Lexeme
  | .cross => [⟨.comma, ","⟩]
  | .inner => [word "JOIN"]
  | .left => [word "LEFT", word "JOIN"]
  | .right => [word "RIGHT", word "JOIN"]
  | .natural => [word "NATURAL", word "JOIN"]

inductive JoinText : List Lexeme → QueryJoin → Prop where
  | mk {ls ls' : List Lexeme} {tableName tableAlias : String}
      {condition : Option Select.QueryCondition} (type : QueryJoinType) :
      TableText ls (tableName, tableAlias) → Clause "ON" (ConditionText Nested .or) ls' condition →
      (type = .natural → condition = none) →
      JoinText (joinLexemes type ++ (ls ++ ls')) ⟨type, tableName, tableAlias, condition⟩

/-- A query without `WITH` and without compound parts, behind `SELECT`. -/
inductive SingleText : List Lexeme → ParsedQuery → Prop where
  | mk {list source joined where_ group having order limit : List Lexeme} {selectAll : Bool}
      {selectedColumns groupByColumns : List SelectedColumn} {orderByColumns : List OrderByColumn}
      {tableName tableAlias : String} {derivedTable : Option ParsedQuery} {joins : List QueryJoin}
      {condition havingCondition : Option Select.QueryCondition} {limitCount : Option Nat} :
      SelectListText list (selectAll, selectedColumns) →
      SourceText Nested source (tableName, tableAlias, derivedTable) →
      Repeated (JoinText Nested) joined joins →
      Clause "WHERE" (ConditionText Nested .or) where_ condition →
      ByClause "GROUP" PlainColumnText group groupByColumns →
      Clause "HAVING" (ConditionText Nested .or) having havingCondition →
      ByClause "ORDER" OrderColumnText order orderByColumns →
      Clause "LIMIT" LimitText limit limitCount →
      SingleText
        (list ++ word "FROM" :: (source ++ (joined ++ (where_ ++ (group ++ (having ++
          (order ++ limit)))))))
        { tableName, tableAlias, derivedTable, selectAll, selectedColumns, groupByColumns,
          orderByColumns, condition, havingCondition, joins, commonTableExpressions := [],
          compound := none, limitCount }

inductive QuantifierText : List Lexeme → QuerySetQuantifier → Prop where
  | all : QuantifierText [word "ALL"] .all
  | some : QuantifierText [word "SOME"] .some
  | absent : QuantifierText [] .some

def operatorWord : QueryCompoundOperator → String
  | .unionOp => "UNION"
  | .intersectOp => "INTERSECT"

/-- The compound parts behind a query. -/
inductive CompoundText : List Lexeme → Option QueryCompound → Prop where
  | absent : CompoundText [] none
  | next {ls ls' ls'' : List Lexeme} {quantifier : QuerySetQuantifier} {q : ParsedQuery}
      {compound : Option QueryCompound} (operator : QueryCompoundOperator) :
      QuantifierText ls quantifier → SingleText Nested ls' q → CompoundText ls'' compound →
      CompoundText (word (operatorWord operator) :: (ls ++ word "SELECT" :: (ls' ++ ls'')))
        (some { operator, quantifier, query := { q with compound } })

inductive TableExpressionText : List Lexeme → QueryCommonTableExpression → Prop where
  | mk {ls : List Lexeme} {q : ParsedQuery} (n : Name) : Nested ls q →
      TableExpressionText (word n.text :: word "AS" :: inParens ls) ⟨n.text, q⟩

inductive SelectText : List Lexeme → ParsedQuery → Prop where
  | plain {ls ls' : List Lexeme} {q : ParsedQuery} {compound : Option QueryCompound} :
      SingleText Nested ls q → CompoundText Nested ls' compound →
      SelectText (word "SELECT" :: (ls ++ ls')) { q with compound }
  | common {ls ls' ls'' : List Lexeme} {ctes : List QueryCommonTableExpression} {q : ParsedQuery}
      {compound : Option QueryCompound} : Listed (TableExpressionText Nested) ls ctes →
      SingleText Nested ls' q → CompoundText Nested ls'' compound →
      SelectText (word "WITH" :: (ls ++ word "SELECT" :: (ls' ++ ls'')))
        { q with compound, commonTableExpressions := ctes }

end Grammar

/-- The tokens of a query, with no more than `n` levels of queries in queries. -/
def SelectWithin : Nat → List Lexeme → ParsedQuery → Prop
  | 0, _, _ => False
  | n + 1, ls, q => SelectWithin n ls q ∨ SelectText (SelectWithin n) ls q

/-- The tokens of a query, with the query without its positions. -/
def SelectSentence (ls : List Lexeme) (q : ParsedQuery) : Prop := ∃ n, SelectWithin n ls q

/-! ## The tokens can be written -/

/-- A text of letters. -/
def isKeyword (text : String) : Bool := (text.toList.any fun _ => true) && text.toList.all isLetter

/-- Tokens that a text may have, and that close their own parentheses. -/
structure Written (ls : List Lexeme) : Prop where
  plain : ∀ l ∈ ls, l.Plain
  balanced : Balanced ls

namespace Written

variable {α : Type} {ls ls' : List Lexeme}

theorem nil : Written [] where
  plain l hl := absurd hl List.not_mem_nil
  balanced _ _ := Iff.rfl

theorem append (h : Written ls) (h' : Written ls') : Written (ls ++ ls') where
  plain := List.forall_mem_append.mpr ⟨h.plain, h'.plain⟩
  balanced := h.balanced.append h'.balanced

theorem single {l : Lexeme} (h : l.Plain) (hopen : l.type ≠ .leftParen)
    (hclose : l.type ≠ .rightParen) : Written [l] where
  plain := List.forall_mem_singleton.mpr h
  balanced := balanced_singleton l.text hopen hclose

theorem cons {l : Lexeme} (h : l.Plain) (hopen : l.type ≠ .leftParen)
    (hclose : l.type ≠ .rightParen) (h' : Written ls) : Written (l :: ls) :=
  (single h hopen hclose).append h'

theorem name (n : Name) (h : Written ls) : Written (word n.text :: ls) :=
  cons n.plain (fun h => by cases h) (fun h => by cases h) h

theorem keyword {text : String} (htext : isKeyword text = true)
    (h : Written ls) : Written (word text :: ls) := by
  obtain ⟨hsome, hall⟩ := Bool.and_eq_true_iff.mp htext
  have hplain : (word text).Plain := by
    show Plain .word text.toList
    cases hchars : text.toList with
    | nil =>
      rw [hchars] at hsome
      cases hsome
    | cons c cs =>
      rw [hchars] at hall
      have hletters := List.all_eq_true.mp hall
      refine Plain.word c cs (hletters c List.mem_cons_self) fun d hd => ?_
      rw [hletters d (List.mem_cons_of_mem c hd), Bool.true_or]
  exact cons hplain (fun h => by cases h) (fun h => by cases h) h

theorem comma (h : Written ls) : Written (⟨.comma, ","⟩ :: ls) := by
  have hcomma : Lexeme.Plain ⟨.comma, ","⟩ := Plain.comma
  exact cons hcomma (by decide) (by decide) h

theorem star : Written [⟨.star, "*"⟩] := by
  have hstar : Lexeme.Plain ⟨.star, "*"⟩ := Plain.star
  exact single hstar (by decide) (by decide)

theorem operator (op : QueryOperator) (h : Written ls) : Written (⟨.op, operatorText op⟩ :: ls) :=
  cons (plain_operator op) (fun h => by cases h) (fun h => by cases h) h

theorem inParens (h : Written ls) : Written (inParens ls) := by
  have hplain := @plain_parenthesized True _ ls h.plain
  have hbalanced := @Balanced.parenthesized True _ ls h.balanced
  rw [parenthesized, if_pos trivial] at hplain hbalanced
  exact ⟨hplain, hbalanced⟩

theorem column (c : ColumnName) : Written c.lexemes := ⟨c.plain, c.balanced⟩

theorem operand (o : Operand) : Written o.lexemes := ⟨o.plain, o.balanced⟩

end Written

/-! ### Lists -/

section Lists

variable {α : Type} {ls : List Lexeme}

theorem Listed.written {Item : List Lexeme → α → Prop} {as : List α} (h : Listed Item ls as)
    (hitem : ∀ ls a, Item ls a → Written ls) : Written ls := by
  induction h with
  | one h => exact hitem _ _ h
  | next h _ ih => exact (hitem _ _ h).append ih.comma

theorem Repeated.written {Item : List Lexeme → α → Prop} {as : List α} (h : Repeated Item ls as)
    (hitem : ∀ ls a, Item ls a → Written ls) : Written ls := by
  induction h with
  | nil => exact .nil
  | next h _ ih => exact (hitem _ _ h).append ih

theorem Clause.written {text : String} {Body : List Lexeme → α → Prop} {a : Option α}
    (h : Clause text Body ls a)
    (htext : isKeyword text = true)
    (hbody : ∀ ls a, Body ls a → Written ls) : Written ls := by
  cases h with
  | absent => exact .nil
  | present h => exact (hbody _ _ h).keyword htext

theorem ByClause.written {text : String} {Item : List Lexeme → α → Prop} {as : List α}
    (h : ByClause text Item ls as)
    (htext : isKeyword text = true)
    (hitem : ∀ ls a, Item ls a → Written ls) : Written ls := by
  cases h with
  | absent => exact .nil
  | present h => exact ((h.written hitem).keyword (by decide)).keyword htext

end Lists

section Parts

variable {ls : List Lexeme}

theorem AliasText.written {tableAlias : String} (h : AliasText ls tableAlias) : Written ls := by
  cases h with
  | absent => exact .nil
  | present n => exact (Written.nil.name n).keyword (by decide)

theorem AggregateText.written {function : QueryAggregateFunction} {tableAlias name : String}
    (h : AggregateText ls function tableAlias name) : Written ls := by
  cases h with
  | column c hfunction =>
    have hcolumn := (Written.column c).inParens
    cases function with
    | none => exact absurd rfl hfunction
    | _ => exact hcolumn.keyword (by decide)
  | countAll => exact Written.star.inParens.keyword (by decide)

theorem SelectedText.written {c : SelectedColumn} (h : SelectedText ls c) : Written ls := by
  cases h with
  | column c => exact .column c
  | aggregate h => exact h.written
  | @scalar function c hfunction =>
    have hcolumn := (Written.column c).inParens
    cases function with
    | none => exact absurd rfl hfunction
    | _ => exact hcolumn.keyword (by decide)

theorem SelectedColumnText.written {c : SelectedColumn} (h : SelectedColumnText ls c) :
    Written ls := by
  cases h with
  | mk h halias => exact h.written.append halias.written

theorem SelectListText.written {list : Bool × List SelectedColumn} (h : SelectListText ls list) :
    Written ls := by
  cases h with
  | all => exact .star
  | columns h => exact h.written fun _ _ h => h.written

theorem PlainColumnText.written {c : SelectedColumn} (h : PlainColumnText ls c) : Written ls := by
  cases h with
  | mk c => exact .column c

theorem OrderColumnText.written {c : OrderByColumn} (h : OrderColumnText ls c) : Written ls := by
  cases h with
  | plain h => exact h.written
  | ascending h => exact h.written.append (Written.nil.keyword (by decide))
  | descending h => exact h.written.append (Written.nil.keyword (by decide))

theorem TableText.written {names : String × String} (h : TableText ls names) : Written ls := by
  cases h with
  | mk n halias => exact halias.written.name n

theorem QuantifierText.written {quantifier : QuerySetQuantifier} (h : QuantifierText ls quantifier) :
    Written ls := by
  cases h with
  | all => exact Written.nil.keyword (by decide)
  | some => exact Written.nil.keyword (by decide)
  | absent => exact .nil

theorem LimitText.written {n : Nat} (h : LimitText ls n) : Written ls := by
  cases h with
  | mk h =>
    have hplain : Lexeme.Plain ⟨.number, String.ofList (decimal n)⟩ := by
      show Plain .number (String.ofList (decimal n)).toList
      rw [String.toList_ofList]
      have hdigits : ∀ c ∈ decimal n, c.isDigit = true := fun c hc => isDigit_of_mem_toDigits hc
      cases hchars : decimal n with
      | nil => exact absurd hchars Nat.toDigits_ne_nil
      | cons d ds =>
        rw [hchars] at hdigits
        have hnumber := Plain.number [] d ds [] (.inl rfl) hdigits (.inl rfl)
        rwa [List.append_nil, List.nil_append] at hnumber
    exact .single hplain (fun h => by cases h) (fun h => by cases h)

end Parts

section Grammar

variable {Nested : List Lexeme → ParsedQuery → Prop} {ls : List Lexeme}

theorem ValueText.written {e : Select.QueryExpression} (h : ValueText Nested ls e)
    (hnested : ∀ ls q, Nested ls q → Written ls) : Written ls := by
  cases h with
  | operand o => exact .operand o
  | subquery h => exact (hnested _ _ h).inParens

theorem ColumnText.written {e : Select.QueryExpression} (h : ColumnText ls e) : Written ls := by
  cases h with
  | column c => exact .column c
  | aggregate h => exact h.written

theorem TestText.written {left : Select.QueryExpression} {c : Select.QueryCondition}
    (h : TestText Nested left ls c) (hnested : ∀ ls q, Nested ls q → Written ls) : Written ls := by
  cases h with
  | comparison op h => exact (h.written hnested).operator op
  | between h h' =>
    exact ((h.written hnested).append ((h'.written hnested).keyword (by decide))).keyword (by decide)
  | isIn h => exact (hnested _ _ h).inParens.keyword (by decide)
  | notIn h => exact ((hnested _ _ h).inParens.keyword (by decide)).keyword (by decide)
  | any op h => exact ((hnested _ _ h).inParens.keyword (by decide)).operator op
  | all op h => exact ((hnested _ _ h).inParens.keyword (by decide)).operator op

theorem ConditionText.written {rank : Rank} {c : Select.QueryCondition}
    (h : ConditionText Nested rank ls c) (hnested : ∀ ls q, Nested ls q → Written ls) :
    Written ls := by
  induction h with
  | or _ _ ih ih' => exact ih.append (ih'.keyword (by decide))
  | ofAnd _ ih => exact ih
  | and _ _ ih ih' => exact ih.append (ih'.keyword (by decide))
  | ofNot _ ih => exact ih
  | not _ ih => exact ih.keyword (by decide)
  | group _ ih => exact ih.inParens
  | «exists» h => exact (hnested _ _ h).inParens.keyword (by decide)
  | test h h' => exact h.written.append (h'.written hnested)

theorem SourceText.written {source : String × String × Option ParsedQuery}
    (h : SourceText Nested ls source) (hnested : ∀ ls q, Nested ls q → Written ls) :
    Written ls := by
  cases h with
  | table h => exact h.written
  | derived n h has =>
    refine (hnested _ _ h).inParens.append ?_
    rcases has with rfl | rfl
    · exact Written.nil.name n
    · exact (Written.nil.name n).keyword (by decide)

theorem JoinText.written {j : QueryJoin} (h : JoinText Nested ls j)
    (hnested : ∀ ls q, Nested ls q → Written ls) : Written ls := by
  cases h with
  | mk type htable hon =>
    have hcondition := hon.written (by decide) fun _ _ h => h.written hnested
    refine Written.append ?_ (htable.written.append hcondition)
    cases type with
    | cross => exact Written.nil.comma
    | inner => exact Written.nil.keyword (by decide)
    | _ => exact (Written.nil.keyword (by decide)).keyword (by decide)

theorem SingleText.written {q : ParsedQuery} (h : SingleText Nested ls q)
    (hnested : ∀ ls q, Nested ls q → Written ls) : Written ls := by
  cases h with
  | mk hlist hsource hjoins hwhere hgroup hhaving horder hlimit =>
    have hcondition : ∀ ls c, ConditionText Nested .or ls c → Written ls :=
      fun _ _ h => h.written hnested
    have hend := (horder.written (by decide) fun _ _ h => h.written).append
      (hlimit.written (by decide) fun _ _ h => h.written)
    have hafter := (hgroup.written (by decide) fun _ _ h => h.written).append
      ((hhaving.written (by decide) hcondition).append hend)
    have hbehind := (hjoins.written fun _ _ h => h.written hnested).append
      ((hwhere.written (by decide) hcondition).append hafter)
    exact hlist.written.append (((hsource.written hnested).append hbehind).keyword (by decide))

theorem CompoundText.written {c : Option QueryCompound} (h : CompoundText Nested ls c)
    (hnested : ∀ ls q, Nested ls q → Written ls) : Written ls := by
  induction h with
  | absent => exact .nil
  | @next ls ls' ls'' quantifier q compound operator hquantifier hsingle _ ih =>
    have hselect : Written (word "SELECT" :: (ls' ++ ls'')) :=
      ((hsingle.written hnested).append ih).keyword (by decide)
    have hwords := hquantifier.written.append hselect
    cases operator with
    | unionOp => exact hwords.keyword (by decide)
    | intersectOp => exact hwords.keyword (by decide)

theorem SelectText.written {q : ParsedQuery} (h : SelectText Nested ls q)
    (hnested : ∀ ls q, Nested ls q → Written ls) : Written ls := by
  cases h with
  | plain hsingle hcompound =>
    exact ((hsingle.written hnested).append (hcompound.written hnested)).keyword (by decide)
  | @common ls ls' ls'' ctes q compound hctes hsingle hcompound =>
    have hselect : Written (word "SELECT" :: (ls' ++ ls'')) :=
      ((hsingle.written hnested).append (hcompound.written hnested)).keyword (by decide)
    refine ((hctes.written fun _ _ h => ?_).append hselect).keyword (by decide)
    cases h with
    | mk n h => exact ((hnested _ _ h).inParens.keyword (by decide)).name n

end Grammar

theorem SelectWithin.written {n : Nat} {ls : List Lexeme} {q : ParsedQuery}
    (h : SelectWithin n ls q) : Written ls := by
  induction n generalizing ls q with
  | zero => exact absurd h id
  | succ n ih =>
    rcases h with h | h
    · exact ih h
    · exact h.written fun _ _ h => ih h

end ScratchDb.QueryParser
