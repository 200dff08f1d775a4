import ScratchDb.Parser.Conditions
import ScratchDb.Parser.Lexemes

/-!
# Conditions as trees

The conditions that are made of comparisons, `AND`, `OR` and `NOT`: the tokens
they are written with, with no more parentheses than needed, and the condition
that the parser makes of them.
-/

namespace ScratchDb.QueryParser

/-! ## Operands -/

/-- An identifier that is no reserved lowercase word. -/
structure Name where
  text : String
  identifier : isIdentifier text = true
  notReserved : isLowercaseKeyword text = false

/-- A column, which the name of a table may qualify. -/
structure ColumnName where
  qualifier : Option Name
  name : Name

structure NumberLiteral where
  negative : Bool
  first : Char
  digits : List Char
  fraction : List Char
  areDigits : ∀ c ∈ first :: digits, c.isDigit = true
  isFraction : IsFraction fraction

/-- A text between two quotes that it does not contain. -/
structure QuotedText where
  quote : Char
  body : List Char
  isQuote : quote = '\'' ∨ quote = '"'
  quoteless : ∀ c ∈ body, c ≠ quote

inductive Literal where
  | number (n : NumberLiteral)
  | null
  | quoted (t : QuotedText)

inductive Operand where
  | literal (l : Literal)
  | column (c : ColumnName)

/-- A condition, as a tree. -/
inductive Tree where
  | comparison (left : ColumnName) (op : QueryOperator) (right : Operand)
  | not (child : Tree)
  | and (left right : Tree)
  | or (left right : Tree)

/-! ## Tokens -/

def word (text : String) : Lexeme := ⟨.word, text⟩

def ColumnName.lexemes (c : ColumnName) : List Lexeme :=
  match c.qualifier with
  | none => [word c.name.text]
  | some q => [word q.text, ⟨.dot, "."⟩, word c.name.text]

def NumberLiteral.chars (n : NumberLiteral) : List Char :=
  (if n.negative then ['-'] else []) ++ n.first :: (n.digits ++ n.fraction)

def QuotedText.chars (t : QuotedText) : List Char := t.quote :: (t.body ++ [t.quote])

def Literal.lexeme : Literal → Lexeme
  | .number n => ⟨.number, String.ofList n.chars⟩
  | .null => word "NULL"
  | .quoted t => ⟨.string, String.ofList t.chars⟩

def Operand.lexemes : Operand → List Lexeme
  | .literal l => [l.lexeme]
  | .column c => c.lexemes

def operatorText : QueryOperator → String
  | .equal => "="
  | .notEqual => "!="
  | .greater => ">"
  | .less => "<"
  | .greaterEqual => ">="
  | .lessEqual => "<="

/-- Tokens between parentheses, where these are needed. -/
def parenthesized (needed : Prop) [Decidable needed] (ls : List Lexeme) : List Lexeme :=
  if needed then ⟨.leftParen, "("⟩ :: (ls ++ [⟨.rightParen, ")"⟩]) else ls

/-- The tokens of a tree where an operand of this level is written: any condition at 0, one without
`OR` outside parentheses at 1, and one without `AND` as well at 2. -/
def Tree.lexemes : Tree → Nat → List Lexeme
  | .comparison left op right, _ => left.lexemes ++ ⟨.op, operatorText op⟩ :: right.lexemes
  | .not child, _ => word "NOT" :: child.lexemes 2
  | .and left right, level =>
    parenthesized (1 < level) (left.lexemes 1 ++ word "AND" :: right.lexemes 2)
  | .or left right, level =>
    parenthesized (0 < level) (left.lexemes 0 ++ word "OR" :: right.lexemes 1)

/-! ## Conditions -/

/-- The text of an operand that is a column. -/
def ColumnName.text (c : ColumnName) : String :=
  c.qualifier.elim c.name.text fun q => q.text ++ "." ++ c.name.text

/-- The expression of a column, with the text that the parser keeps for it. -/
def ColumnName.expression (c : ColumnName) (literalText : String) : Select.QueryExpression :=
  .columnReference (c.qualifier.elim "" Name.text) c.name.text literalText 0

def Operand.expression : Operand → Select.QueryExpression
  | .literal l => .literal l.lexeme.text 0
  | .column c => c.expression c.text

/-- The condition of a tree, with all positions 0. -/
def Tree.condition : Tree → Select.QueryCondition
  | .comparison left op right => .comparison (left.expression "") op right.expression
  | .not child => .not child.condition
  | .and left right => .and left.condition right.condition
  | .or left right => .or left.condition right.condition

/-! ## The tokens can be written -/

theorem Name.plain (n : Name) : (word n.text).Plain := by
  have hid := n.identifier
  unfold isIdentifier at hid
  show Plain .word n.text.toList
  cases htext : n.text.toList with
  | nil =>
    rw [htext] at hid
    cases hid
  | cons c cs =>
    rw [htext] at hid
    simp only [Bool.and_eq_true, List.all_eq_true] at hid
    have hlower : ∀ d : Char, d.isLower = true → d.isAlpha = true := fun d hd =>
      Bool.or_eq_true_iff.mpr (.inr hd)
    refine Plain.word c cs ?_ fun d hd => ?_
    · have hstart := hid.1
      rw [isIdentifierStart, Bool.or_eq_true] at hstart
      rw [isLetter, Bool.or_eq_true]
      exact hstart.imp_left (hlower c)
    · have hbody := hid.2 d (List.mem_cons_of_mem c hd)
      simp only [isIdentifierBody, Bool.or_eq_true] at hbody
      simp only [isLetter, Bool.or_eq_true]
      rcases hbody with (hd' | hd') | hd'
      · exact .inl (.inl (hlower d hd'))
      · exact .inr hd'
      · exact .inl (.inr hd')

/-- The words of the language in upper case. -/
theorem plain_keyword {text : String}
    (h : text ∈ ["SELECT", "FROM", "WHERE", "NOT", "AND", "OR", "NULL", "BETWEEN", "IN", "ANY",
      "ALL"]) : (word text).Plain := by
  simp only [List.mem_cons, List.not_mem_nil, or_false] at h
  rcases h with rfl | rfl | rfl | rfl | rfl | rfl | rfl | rfl | rfl | rfl | rfl <;>
    exact Plain.word _ _ rfl (List.all_eq_true.mp rfl)

theorem ColumnName.plain (c : ColumnName) : ∀ l ∈ c.lexemes, l.Plain := by
  unfold ColumnName.lexemes
  cases c.qualifier with
  | none => exact List.forall_mem_singleton.mpr c.name.plain
  | some q =>
    have hdot : Lexeme.Plain ⟨.dot, "."⟩ := Plain.dot
    simpa using ⟨q.plain, hdot, c.name.plain⟩

theorem Literal.plain (l : Literal) : l.lexeme.Plain := by
  cases l with
  | number n =>
    show Plain .number (String.ofList n.chars).toList
    rw [String.toList_ofList]
    refine Plain.number _ n.first n.digits n.fraction ?_ n.areDigits n.isFraction
    cases n.negative
    · exact .inl rfl
    · exact .inr rfl
  | null => exact plain_keyword (by decide)
  | quoted t =>
    show Plain .string (String.ofList t.chars).toList
    rw [String.toList_ofList]
    exact Plain.string t.quote t.body t.isQuote t.quoteless

theorem Operand.plain (o : Operand) : ∀ l ∈ o.lexemes, l.Plain := by
  cases o with
  | literal l => exact List.forall_mem_singleton.mpr l.plain
  | column c => exact c.plain

theorem plain_operator (op : QueryOperator) : Lexeme.Plain ⟨.op, operatorText op⟩ :=
  Plain.op _ (by cases op <;> decide)

theorem plain_parenthesized {needed : Prop} [Decidable needed] {ls : List Lexeme}
    (h : ∀ l ∈ ls, l.Plain) : ∀ l ∈ parenthesized needed ls, l.Plain := by
  unfold parenthesized
  split
  · have hopen : Lexeme.Plain ⟨.leftParen, "("⟩ := Plain.leftParen
    have hclose : Lexeme.Plain ⟨.rightParen, ")"⟩ := Plain.rightParen
    refine List.forall_mem_cons.mpr ⟨hopen, List.forall_mem_append.mpr ⟨h, ?_⟩⟩
    exact List.forall_mem_singleton.mpr hclose
  · exact h

theorem Tree.plain (t : Tree) (level : Nat) : ∀ l ∈ t.lexemes level, l.Plain := by
  induction t generalizing level with
  | comparison left op right =>
    refine List.forall_mem_append.mpr ⟨left.plain, ?_⟩
    exact List.forall_mem_cons.mpr ⟨plain_operator op, right.plain⟩
  | not child ih => exact List.forall_mem_cons.mpr ⟨plain_keyword (by decide), ih 2⟩
  | and left right ihl ihr =>
    refine plain_parenthesized (List.forall_mem_append.mpr ⟨ihl 1, ?_⟩)
    exact List.forall_mem_cons.mpr ⟨plain_keyword (by decide), ihr 2⟩
  | or left right ihl ihr =>
    refine plain_parenthesized (List.forall_mem_append.mpr ⟨ihl 0, ?_⟩)
    exact List.forall_mem_cons.mpr ⟨plain_keyword (by decide), ihr 1⟩

/-! ## The parentheses of a tree are closed -/

/-- Lexemes that leave the open parentheses as they are. -/
def Balanced (ls : List Lexeme) : Prop :=
  ∀ (rest : List Lexeme) (depth : Nat), closes (ls ++ rest) depth ↔ closes rest depth

theorem Balanced.append {ls ls' : List Lexeme} (h : Balanced ls) (h' : Balanced ls') :
    Balanced (ls ++ ls') := by
  intro rest depth
  rw [List.append_assoc, h, h']

theorem balanced_singleton {type : TokenType} (text : String) (hopen : type ≠ .leftParen)
    (hclose : type ≠ .rightParen) : Balanced [⟨type, text⟩] := by
  intro rest depth
  cases type with
  | leftParen => exact absurd rfl hopen
  | rightParen => exact absurd rfl hclose
  | _ => exact Iff.rfl

theorem balanced_word (text : String) : Balanced [word text] :=
  balanced_singleton text (by decide) (by decide)

theorem Balanced.parenthesized {needed : Prop} [Decidable needed] {ls : List Lexeme}
    (h : Balanced ls) : Balanced (parenthesized needed ls) := by
  unfold QueryParser.parenthesized
  split
  · intro rest depth
    show closes ((ls ++ [_]) ++ rest) (depth + 1) ↔ _
    rw [List.append_assoc, h]
    exact ⟨And.right, fun hrest => ⟨Nat.succ_pos depth, hrest⟩⟩
  · exact h

theorem ColumnName.balanced (c : ColumnName) : Balanced c.lexemes := by
  unfold ColumnName.lexemes
  cases c.qualifier with
  | none => exact balanced_word c.name.text
  | some q =>
    have hdot := @balanced_singleton .dot "." (by decide) (by decide)
    exact (balanced_word q.text).append (hdot.append (balanced_word c.name.text))

theorem Literal.balanced (l : Literal) : Balanced [l.lexeme] := by
  cases l with
  | number n => exact balanced_singleton _ (by decide) (by decide)
  | null => exact balanced_word "NULL"
  | quoted t => exact balanced_singleton _ (by decide) (by decide)

theorem Operand.balanced (o : Operand) : Balanced o.lexemes := by
  cases o with
  | literal l => exact l.balanced
  | column c => exact c.balanced

theorem Tree.balanced (t : Tree) (level : Nat) : Balanced (t.lexemes level) := by
  induction t generalizing level with
  | comparison left op right =>
    have hop := @balanced_singleton .op (operatorText op) (by decide) (by decide)
    exact left.balanced.append (hop.append right.balanced)
  | not child ih => exact (balanced_word "NOT").append (ih 2)
  | and left right ihl ihr =>
    exact ((ihl 1).append ((balanced_word "AND").append (ihr 2))).parenthesized
  | or left right ihl ihr =>
    exact ((ihl 0).append ((balanced_word "OR").append (ihr 1))).parenthesized

end ScratchDb.QueryParser

namespace ScratchDb.Select

/-- The same expression at position 0. -/
def QueryExpression.withoutPosition : QueryExpression → QueryExpression
  | .columnReference tableAlias name text _ => .columnReference tableAlias name text 0
  | .aggregate function tableAlias name _ => .aggregate function tableAlias name 0
  | .literal text _ => .literal text 0
  | .scalarSubquery text query _ => .scalarSubquery text query 0

/-- The same condition with all positions outside subqueries 0. -/
def QueryCondition.withoutPositions : QueryCondition → QueryCondition
  | .comparison left op right => .comparison left.withoutPosition op right.withoutPosition
  | .subquery left test query => .subquery left.withoutPosition test query
  | .rightValues left test values => .rightValues left.withoutPosition test values
  | .existsSubquery query => .existsSubquery query
  | .existsResult result => .existsResult result
  | .not child => .not child.withoutPositions
  | .and left right => .and left.withoutPositions right.withoutPositions
  | .or left right => .or left.withoutPositions right.withoutPositions

end ScratchDb.Select
