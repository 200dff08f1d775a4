import ScratchDb.Storage.WalRecord

/-!
# Columns, values and schemas

Model of `src/catalog/column.cpp`, `src/catalog/schema.cpp` and
`src/record/value.cpp`. Names are ASCII and modelled as `String`; string data
may hold any byte.
-/

namespace ScratchDb

inductive ColumnType where
  | nullType
  | integer
  | number
  | character
  | string
  | varstring
  | date
  | time
  | datetime
  | text
deriving DecidableEq, Repr

structure Column where
  name : String
  type : ColumnType
  nullable : Bool
  maxSize : Nat
  precision : Nat
  scale : Nat
deriving DecidableEq, Repr

inductive Value where
  | null
  | integer (n : Int)
  | number (scaled : Int)
  | character (text : Bytes)
  | string (text : Bytes)
  | varstring (text : Bytes)
  | date (daysSinceEpoch : Int)
  | time (secondsSinceMidnight : Nat)
  | datetime (secondsSinceEpoch : Int)
  | text (text : Bytes)
deriving DecidableEq, Repr

namespace Value

def isNull : Value → Bool
  | .null => true
  | _ => false

def type : Value → ColumnType
  | .null => .nullType
  | .integer _ => .integer
  | .number _ => .number
  | .character _ => .character
  | .string _ => .string
  | .varstring _ => .varstring
  | .date _ => .date
  | .time _ => .time
  | .datetime _ => .datetime
  | .text _ => .text

/-! The accessors of the members that a value of another type leaves at their defaults. -/

def integerData : Value → Int
  | .integer n => n
  | _ => 0

def numberData : Value → Int
  | .number n => n
  | _ => 0

def stringData : Value → Bytes
  | .character s => s
  | .string s => s
  | .varstring s => s
  | .text s => s
  | _ => []

def dateData : Value → Int
  | .date n => n
  | _ => 0

def timeData : Value → Nat
  | .time n => n
  | _ => 0

def datetimeData : Value → Int
  | .datetime n => n
  | _ => 0

/-- The number of decimal digits, at least one. -/
def digitCount (n : Nat) : Nat := (Nat.toDigits 10 n).length

def matchesColumn (v : Value) (c : Column) : Bool :=
  match v with
  | .null => c.nullable
  | v =>
    v.type = c.type &&
      match v with
      | .character s => s.length = 1
      | .number n => digitCount n.natAbs ≤ c.precision
      | .string s => s.length ≤ c.maxSize
      | .varstring s => s.length ≤ c.maxSize
      | .text s => s.length ≤ c.maxSize
      | _ => true

/-- How `compare_values` compares the members of one type. -/
def compareData {α : Type} [DecidableEq α] [LT α] [DecidableLT α] (x y : α) : Ordering :=
  if x = y then .eq else if x < y then .lt else .gt

def compareValues (left right : Value) : Ordering :=
  if left.isNull || right.isNull then
    if left.isNull = right.isNull then .eq else if left.isNull then .lt else .gt
  else
    match left.type with
    | .integer => compareData left.integerData right.integerData
    | .number => compareData left.numberData right.numberData
    | .date => compareData left.dateData right.dateData
    | .time => compareData left.timeData right.timeData
    | .datetime => compareData left.datetimeData right.datetimeData
    | _ => compareData left.stringData right.stringData

theorem compareData_eq_iff {α : Type} [DecidableEq α] [LT α] [DecidableLT α] {x y : α} :
    compareData x y = .eq ↔ x = y := by
  rw [compareData]
  split
  · simpa
  · split <;> simpa

/-- Equal values compare equal. -/
@[simp] theorem compareValues_self (v : Value) : compareValues v v = .eq := by
  cases v <;> simp [compareValues, isNull, type, compareData]

/-- Values of one type that compare equal are equal. -/
theorem eq_of_compareValues {v w : Value} (ht : v.type = w.type)
    (h : compareValues v w = .eq) : v = w := by
  cases v <;> cases w <;> simp_all [compareValues, isNull, type, compareData_eq_iff, integerData,
    numberData, stringData, dateData, timeData, datetimeData]

end Value

/-! ## Columns -/

namespace Column

def fixedSize : ColumnType → Nat
  | .integer => 8
  | .number => 8
  | .character => 1
  | .date => 4
  | .time => 4
  | .datetime => 8
  | _ => 0

/-- A lowercase letter or underscore, then lowercase letters, digits and underscores. -/
def isValidName (name : String) : Bool :=
  match name.toList with
  | [] => false
  | first :: rest =>
    (first.isLower || first = '_') && rest.all fun c => c.isLower || c.isDigit || c = '_'

def isValid (c : Column) : Bool :=
  isValidName c.name && c.maxSize ≠ 0 && c.type ≠ .nullType &&
    match c.type with
    | .string => c.maxSize ≤ 1024
    | .varstring => c.maxSize ≤ 1024
    | .text => c.maxSize = 2048
    | .number =>
      c.maxSize = fixedSize c.type && 0 < c.precision && c.precision ≤ 18 &&
        c.scale ≤ c.precision
    | _ => c.maxSize = fixedSize c.type

end Column

/-! ## Schemas -/

inductive TableStorageMode where
  | disk
  | memory
deriving DecidableEq, Repr

/-- The four kinds that `set_constraints` lets pass. -/
inductive ConstraintKind where
  | primaryKey
  | unique
  | foreignKey
  | check
deriving DecidableEq, Repr

def ConstraintKind.text : ConstraintKind → String
  | .primaryKey => "primary_key"
  | .unique => "unique"
  | .foreignKey => "foreign_key"
  | .check => "check"

structure ConstraintDefinition where
  id : Nat
  kind : ConstraintKind
  columns : List String
  args : List String
deriving DecidableEq, Repr

structure IndexDefinition where
  id : Nat
  name : String
  columns : List String
  unique : Bool
deriving DecidableEq, Repr

/-- What a schema is made of. -/
structure SchemaParts where
  tableName : String
  columns : List Column
  constraints : List ConstraintDefinition
  indexes : List IndexDefinition
  storageMode : TableStorageMode
deriving DecidableEq, Repr

namespace SchemaParts

/-- `column_index`; `none` for -1. -/
def columnIndex (s : SchemaParts) (name : String) : Option Nat :=
  s.columns.findIdx? fun c => c.name = name

def findColumn (s : SchemaParts) (name : String) : Option Column :=
  (s.columnIndex name).bind fun i => s.columns[i]?

def ColumnsValid (s : SchemaParts) : Prop :=
  s.columns ≠ [] ∧ s.columns.length ≤ 991 ∧ (∀ c ∈ s.columns, c.isValid = true) ∧
    (s.columns.map (·.name)).Nodup

/-- The checks of `set_constraints` for one constraint. -/
def ConstraintValid (s : SchemaParts) (c : ConstraintDefinition) : Prop :=
  c.id ≠ 0 ∧
    match c.kind with
    | .foreignKey =>
      c.columns.length = 1 ∧ c.args.length = 2 ∧ (∀ a ∈ c.args, a ≠ "") ∧
        ∀ name ∈ c.columns, (s.columnIndex name).isSome
    | .check => c.args.length = 3 ∧ ∀ name ∈ c.args.head?, (s.columnIndex name).isSome
    | _ => c.columns ≠ [] ∧ ∀ name ∈ c.columns, (s.columnIndex name).isSome

def ConstraintsValid (s : SchemaParts) : Prop :=
  (∀ c ∈ s.constraints, s.ConstraintValid c) ∧ (s.constraints.map (·.id)).Nodup ∧
    (s.constraints.filter fun c => c.kind = .primaryKey).length ≤ 1

def IndexesValid (s : SchemaParts) : Prop :=
  (∀ i ∈ s.indexes, i.id ≠ 0 ∧ Column.isValidName i.name = true ∧ i.columns.length = 1 ∧
    ∀ name ∈ i.columns, (s.columnIndex name).isSome) ∧
    (s.indexes.map (·.id)).Nodup ∧ (s.indexes.map (·.name)).Nodup

instance (s : SchemaParts) : Decidable s.ColumnsValid :=
  inferInstanceAs (Decidable (_ ∧ _ ∧ _ ∧ _))

instance (s : SchemaParts) (c : ConstraintDefinition) : Decidable (s.ConstraintValid c) := by
  unfold ConstraintValid
  cases c.kind <;> infer_instance

instance (s : SchemaParts) : Decidable s.ConstraintsValid :=
  inferInstanceAs (Decidable (_ ∧ _ ∧ _))

instance (s : SchemaParts) : Decidable s.IndexesValid :=
  inferInstanceAs (Decidable (_ ∧ _ ∧ _))

end SchemaParts

/-- A schema that its constructor accepts. -/
structure Schema extends SchemaParts where
  nameValid : Column.isValidName tableName = true
  columnsValid : toSchemaParts.ColumnsValid
  constraintsValid : toSchemaParts.ConstraintsValid
  indexesValid : toSchemaParts.IndexesValid

/-- The constructor, with the text of the exception it throws. -/
def Schema.make (p : SchemaParts) : Except String Schema :=
  if hn : Column.isValidName p.tableName = true then
    if hc : p.ColumnsValid then
      if hk : p.ConstraintsValid then
        if hi : p.IndexesValid then .ok ⟨p, hn, hc, hk, hi⟩
        else .error "invalid schema indexes"
      else .error "invalid schema constraints"
    else .error "invalid schema columns"
  else .error "invalid table name"

theorem Schema.make_eq_ok {p : SchemaParts} {s : Schema} (h : Schema.make p = .ok s) :
    s.toSchemaParts = p := by
  rw [make] at h
  repeat' split at h
  all_goals cases h
  rfl

/-- A table of one INTEGER column. -/
def numbersSchema : Schema where
  tableName := "numbers"
  columns :=
    [{ name := "n", type := .integer, nullable := false, maxSize := 8, precision := 0, scale := 0 }]
  constraints := []
  indexes := []
  storageMode := .disk
  nameValid := by decide
  columnsValid := by decide
  constraintsValid := by decide
  indexesValid := by decide

end ScratchDb
