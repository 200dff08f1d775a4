import ScratchDb.Query.Executor

/-!
# Parsed queries

The part of `ParsedQuery` of `src/include/query/query_parser.hpp` that a
`SELECT` uses, with its conditions, joins, common table expressions and compound
parts. Literal texts and names are strings.
-/

namespace ScratchDb.Select

inductive QueryCompoundOperator where
  | unionOp
  | intersectOp
deriving DecidableEq, Repr

inductive QuerySetQuantifier where
  | some
  | all
deriving DecidableEq, Repr

inductive QueryJoinType where
  | cross
  | inner
  | left
  | right
  | natural
deriving DecidableEq, Repr

inductive QueryAggregateFunction where
  | none
  | max
  | min
  | avg
  | sum
  | count
deriving DecidableEq, Repr

inductive QueryScalarFunction where
  | none
  | length
  | upper
  | lower
deriving DecidableEq, Repr

/-- An empty alias is none. -/
structure SelectedColumn where
  tableAlias : String := ""
  columnName : String
  columnAlias : String := ""
  aggregate : QueryAggregateFunction := .none
  scalarFunction : QueryScalarFunction := .none
  position : Nat := 0
deriving DecidableEq, Repr

structure OrderByColumn where
  column : SelectedColumn
  descending : Bool := false
deriving DecidableEq, Repr

mutual

inductive QueryExpression where
  /-- `literalText` is the text the parser keeps for an operand on the right -/
  | columnReference (tableAlias columnName literalText : String) (position : Nat)
  | aggregate (function : QueryAggregateFunction) (tableAlias columnName : String) (position : Nat)
  | literal (text : String) (position : Nat)
  | scalarSubquery (text : String) (query : ParsedQuery) (position : Nat)

/-- The nodes of a condition. A subquery that has been resolved leaves its values behind. -/
inductive QueryCondition where
  | comparison (left : QueryExpression) (op : QueryOperator) (right : QueryExpression)
  | subquery (left : QueryExpression) (test : SubqueryTest) (query : ParsedQuery)
  | rightValues (left : QueryExpression) (test : SubqueryTest) (values : List String)
  | existsSubquery (query : ParsedQuery)
  | existsResult (result : Bool)
  | not (child : QueryCondition)
  | and (left right : QueryCondition)
  | or (left right : QueryCondition)

structure QueryJoin where
  type : QueryJoinType
  tableName : String
  tableAlias : String
  condition : Option QueryCondition

structure QueryCommonTableExpression where
  name : String
  query : ParsedQuery

/-- What follows `UNION` or `INTERSECT`. -/
structure QueryCompound where
  operator : QueryCompoundOperator
  quantifier : QuerySetQuantifier
  query : ParsedQuery

/-- `joins` is the chain from `join` over `next_join`. -/
structure ParsedQuery where
  tableName : String
  tableAlias : String
  derivedTable : Option ParsedQuery
  selectAll : Bool
  selectedColumns : List SelectedColumn
  groupByColumns : List SelectedColumn
  orderByColumns : List OrderByColumn
  condition : Option QueryCondition
  havingCondition : Option QueryCondition
  joins : List QueryJoin
  commonTableExpressions : List QueryCommonTableExpression
  compound : Option QueryCompound
  limitCount : Option Nat

end

/-- `SELECT * FROM name`. -/
def ParsedQuery.allOf (name : String) : ParsedQuery where
  tableName := name
  tableAlias := ""
  derivedTable := none
  selectAll := true
  selectedColumns := []
  groupByColumns := []
  orderByColumns := []
  condition := none
  havingCondition := none
  joins := []
  commonTableExpressions := []
  compound := none
  limitCount := none

/-! ## Expressions -/

def QueryAggregateFunction.name : QueryAggregateFunction → String
  | .none => ""
  | .max => "max"
  | .min => "min"
  | .avg => "avg"
  | .sum => "sum"
  | .count => "count"

namespace QueryExpression

def position : QueryExpression → Nat
  | .columnReference _ _ _ p => p
  | .aggregate _ _ _ p => p
  | .literal _ p => p
  | .scalarSubquery _ _ p => p

def literalText : QueryExpression → String
  | .columnReference _ _ text _ => text
  | .aggregate _ _ _ _ => ""
  | .literal text _ => text
  | .scalarSubquery text _ _ => text

/-- `expression_label`. -/
def label : QueryExpression → String
  | .columnReference tableAlias name _ _ =>
    if tableAlias = "" then name else tableAlias ++ "." ++ name
  | .aggregate function _ column _ => function.name ++ "(" ++ column ++ ")"
  | .literal text _ => text
  | .scalarSubquery text _ _ => text

end QueryExpression

def flippedOperator : QueryOperator → QueryOperator
  | .greater => .less
  | .less => .greater
  | .greaterEqual => .lessEqual
  | .lessEqual => .greaterEqual
  | op => op

end ScratchDb.Select
