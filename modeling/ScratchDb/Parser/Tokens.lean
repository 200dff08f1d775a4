import ScratchDb.Catalog.SchemaText

/-!
# Tokens of a command

Model of the tokenizer of `src/query/query_parser.cpp`. A command is a list of
characters, which stand for its bytes. Positions count from 0.
-/

namespace ScratchDb.QueryParser

inductive TokenType where
  | word
  | number
  | string
  | leftParen
  | rightParen
  | comma
  | dot
  | star
  | op
deriving DecidableEq, Repr

structure Token where
  type : TokenType
  text : String
  position : Nat
deriving DecidableEq, Repr

structure ParseError where
  message : String
  token : String
  position : Nat
deriving DecidableEq, Repr

/-! ## Words -/

def isIdentifierStart (ch : Char) : Bool := ch.isLower || ch = '_'

def isIdentifierBody (ch : Char) : Bool := ch.isLower || ch.isDigit || ch = '_'

def isIdentifier (text : String) : Bool :=
  match text.toList with
  | [] => false
  | ch :: rest => isIdentifierStart ch && (ch :: rest).all isIdentifierBody

def lowercaseKeywords : List String :=
  ["exit", "quit", "help", "show", "databases", "tables", "create", "database", "table", "use",
    "describe", "desc", "insert", "into", "values", "select", "from", "delete", "where", "and",
    "or", "group", "by", "having", "order", "asc", "desc", "limit", "with", "update", "set",
    "null", "not", "in", "exists", "union", "intersect", "all", "some", "as", "join", "left",
    "right", "natural", "on", "max", "min", "avg", "sum", "count"]

def isLowercaseKeyword (text : String) : Bool := lowercaseKeywords.contains text

/-! ## One token -/

/-- A character at which the loop over a word does not stop. -/
def isWordChar (c : Char) : Bool :=
  !isSpace c && c ≠ '(' && c ≠ ')' && c ≠ ',' && c ≠ '.' && c ≠ '*' && c ≠ '=' && c ≠ '!' &&
    c ≠ '>' && c ≠ '<'

/-- The next character is a digit. -/
def digitFollows (cs : List Char) : Bool := cs.head?.any Char.isDigit

def startsNumber (ch : Char) (cs : List Char) : Bool :=
  ch.isDigit || (ch = '-' && digitFollows cs)

/-- How many characters the loop over a number takes after the first. -/
def numberTail : Bool → List Char → Nat
  | _, [] => 0
  | seenDot, c :: cs =>
    if c.isDigit then numberTail seenDot cs + 1
    else if c = '.' ∧ ¬ seenDot ∧ digitFollows cs then numberTail true cs + 1
    else if c = '-' ∧ digitFollows cs then numberTail seenDot cs + 1
    else 0

/-- The type of the token that starts at `i` with `ch`, and how many characters it has. -/
def readToken (i : Nat) (ch : Char) (cs : List Char) : Except ParseError (TokenType × Nat) :=
  if ch = '.' then .ok (.dot, 1)
  else if ch = '(' then .ok (.leftParen, 1)
  else if ch = ')' then .ok (.rightParen, 1)
  else if ch = ',' then .ok (.comma, 1)
  else if ch = '*' then .ok (.star, 1)
  else if ch = '\'' ∨ ch = '"' then
    let body := cs.takeWhile (· ≠ ch)
    if body.length = cs.length then
      .error
        { message := "unterminated string literal", token := String.ofList [ch], position := i }
    else .ok (.string, body.length + 2)
  else if ch = '=' ∨ ch = '!' ∨ ch = '>' ∨ ch = '<' then
    if cs.head? = some '=' then .ok (.op, 2)
    else if ch = '!' then .error { message := "expected !=", token := "!", position := i }
    else .ok (.op, 1)
  else if startsNumber ch cs then .ok (.number, numberTail false cs + 1)
  else .ok (.word, (cs.takeWhile isWordChar).length + 1)

/-! ## The loop -/

/-- The end of the command, with the positions of the open parentheses, the last first. -/
def finishTokens : List Nat → Except ParseError (List Token)
  | [] => .ok []
  | p :: _ => .error { message := "missing closing parenthesis", token := "(", position := p }

/-- The loop of `tokenize` from position `i` on. A turn takes a character at least, so as many
turns as characters are left suffice. -/
def tokenizeFrom : Nat → Nat → List Char → List Nat → Except ParseError (List Token)
  | 0, _, _, parens => finishTokens parens
  | turns + 1, i, rest, parens =>
    match rest.dropWhile isSpace with
    | [] => finishTokens parens
    | ch :: cs =>
      let start := i + (rest.takeWhile isSpace).length
      match readToken start ch cs with
      | .error e => .error e
      | .ok (type, size) =>
        let token : Token :=
          { type, text := String.ofList ((ch :: cs).take size), position := start }
        let next := fun parens =>
          (tokenizeFrom turns (start + size) ((ch :: cs).drop size) parens).map (token :: ·)
        match type, parens with
        | .leftParen, parens => next (start :: parens)
        | .rightParen, [] =>
          .error { message := "unexpected closing parenthesis", token := ")", position := start }
        | .rightParen, _ :: parens => next parens
        | _, parens => next parens

def tokenize (command : List Char) : Except ParseError (List Token) :=
  tokenizeFrom command.length 0 command []

end ScratchDb.QueryParser
