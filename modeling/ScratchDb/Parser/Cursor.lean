import ScratchDb.Lib.Prog
import ScratchDb.Parser.Tokens

/-!
# Reading tokens

The members of the class `Parser` of `src/query/query_parser.cpp` and the
functions that read tokens. A read behind the last token, an exception and a
null pointer are outcomes of their own, apart from the errors that the parser
returns.
-/

namespace ScratchDb.QueryParser

/-- What keeps the parser from returning a result. -/
inductive Escape where
  /-- `tokens_[index_]` behind the last token -/
  | pastEnd
  | nullPointer
  /-- an exception of `std::stoull` -/
  | number
  /-- an exception of the constructor of `Column` -/
  | column
  /-- an exception of `std::string::substr` -/
  | substr
  /-- the model stops a loop (not in the source) -/
  | outOfTurns
deriving DecidableEq, Repr

inductive Stop where
  | error (e : ParseError)
  | escape (e : Escape)
deriving DecidableEq, Repr

/-- The calls that do not check what they are given (not in the source). -/
inductive Call where
  /-- `parse_value_expression`, for a bound of a `BETWEEN`, with so many tokens left -/
  | bound (tokensLeft : Nat)
  /-- `std::stoull`, of the number after `DROP CONSTRAINT` -/
  | constraintId (text : String)
  /-- the constructor of `Column`, of a STRING or VARSTRING of this size -/
  | stringSize (size : Nat)
  /-- the constructor of `Column`, of a NUMBER of this precision -/
  | numberPrecision (precision : Nat)
deriving DecidableEq, Repr

structure Cursor where
  command : List Char
  /-- the tokens from `index_` on -/
  rest : List Token
  /-- the token before `index_` -/
  previous : Option Token
  /-- the calls so far, the last first -/
  calls : List Call

abbrev Parser := Prog Stop Cursor

/-! ## Tokens -/

def escape {α : Type} (e : Escape) : Parser α := Prog.stop (.escape e)

def atEnd : Parser Bool := do
  pure (← Prog.get).rest.isEmpty

/-- `tokens_[index_]`. -/
def token : Parser Token := do
  match (← Prog.get).rest with
  | [] => escape .pastEnd
  | t :: _ => pure t

/-- `++index_`. -/
def advance : Parser Unit :=
  Prog.modify fun s => { s with rest := s.rest.tail, previous := s.rest.head? }

/-- `tokens_[index_++]`. -/
def takeToken : Parser Token := do
  let t ← token
  advance
  pure t

/-- `peek`, a null pointer at the end. -/
def peek : Parser (Option Token) := do
  if ← atEnd then pure none
  else
    let t ← token
    pure (some t)

/-- `previous`, a null pointer at the start. -/
def previous : Parser (Option Token) := do
  pure (← Prog.get).previous

/-- `previous()->`. -/
def previousToken : Parser Token := do
  match ← previous with
  | none => escape .nullPointer
  | some t => pure t

def matchText (text : String) : Parser Bool := do
  if ← atEnd then pure false
  else
    let t ← token
    if t.text = text then
      advance
      pure true
    else
      pure false

def matchType (type : TokenType) : Parser Bool := do
  if ← atEnd then pure false
  else
    let t ← token
    if t.type = type then
      advance
      pure true
    else
      pure false

/-- Alternatives of `match`, from the left. -/
def matchOneOf : List String → Parser Bool
  | [] => pure false
  | text :: texts => do
    if ← matchText text then pure true else matchOneOf texts

/-- The token that has just been matched, by `previous()->`. -/
def matchedToken (matched : Parser Bool) : Parser (Option Token) := do
  if ← matched then
    let t ← previousToken
    pure (some t)
  else
    pure none

def noteCall (c : Call) : Parser Unit := Prog.modify fun s => { s with calls := c :: s.calls }

/-! ## Errors -/

section Errors

variable {α : Type}

def fail (message tokenText : String) (position : Nat) : Parser α :=
  Prog.stop (.error { message, token := tokenText, position })

/-- An error at the end of the command. -/
def failAtEnd (message : String) : Parser α := do
  fail message "" (← Prog.get).command.length

def expected (text : String) : Parser α := do
  if ← atEnd then failAtEnd ("expected " ++ text)
  else
    let t ← token
    fail ("expected " ++ text) t.text t.position

/-- Go on where a text follows. -/
def expectText (text : String) : Parser Unit := do
  if ← matchText text then pure () else expected text

/-- Go on where a token of a type follows. -/
def expectType (type : TokenType) (text : String) : Parser Unit := do
  if ← matchType type then pure () else expected text

def lowercaseKeyword (t : Token) : Bool := t.type = .word && isLowercaseKeyword t.text

def readIdentifier (label : String) : Parser String := do
  if ← atEnd then failAtEnd ("expected " ++ label)
  else
    let t ← token
    if lowercaseKeyword t then fail "keyword must be uppercase" t.text t.position
    else if ¬ isIdentifier t.text then
      fail (label ++ " must be lowercase identifier") t.text t.position
    else
      advance
      pure t.text

/-- Every command ends with its last token. -/
def endOrError (a : α) : Parser α := do
  if ← atEnd then pure a
  else
    let t ← token
    fail "unexpected token" t.text t.position

end Errors

/-! ## Loops

A loop takes a token in each turn, so as many turns as tokens are left suffice. -/

section Loops

variable {α : Type}

def tokensLeft : Parser Nat := do
  pure (← Prog.get).rest.length

/-- One item, and those of the turns that follow. -/
def itemAnd (item : Parser α) (turns : Parser (List α)) : Parser (List α) := do
  let a ← item
  let as ← turns
  pure (a :: as)

/-- Items with commas between them. -/
def commaSeparated (item : Parser α) : Nat → Parser (List α)
  | 0 => escape .outOfTurns
  | turns + 1 =>
    itemAnd item do if ← matchType .comma then commaSeparated item turns else pure []

def listOf (item : Parser α) : Parser (List α) := do
  commaSeparated item ((← tokensLeft) + 1)

/-- Take tokens up to the right parenthesis that closes one of `depth` open ones. -/
def takeToClose (depth : Nat) : Nat → Parser (Option Token)
  | 0 => escape .outOfTurns
  | turns + 1 => do
    if ← atEnd then pure none
    else
      let t ← takeToken
      match t.type with
      | .leftParen => takeToClose (depth + 1) turns
      | .rightParen => if depth = 1 then pure (some t) else takeToClose (depth - 1) turns
      | _ => takeToClose depth turns

/-- `command_.substr(start, stop - start)`. -/
def textBetween (start stop : Nat) : Parser (List Char) := do
  let command := (← Prog.get).command
  if command.length < start then escape .substr
  else pure ((command.drop start).take (stop - start))

/-- The text from `start`, behind a left parenthesis at `start - 1`, to the parenthesis that closes
it. -/
def textToClose (start : Nat) : Parser (List Char) := do
  match ← takeToClose 1 ((← tokensLeft) + 1) with
  | some t => textBetween start t.position
  | none => fail "missing closing parenthesis" "(" (start - 1)

/-- `parse_parenthesized_body`. -/
def parseParenthesizedBody : Parser String := do
  match ← matchedToken (matchType .leftParen) with
  | some opened =>
    let body ← textToClose (opened.position + 1)
    pure (String.ofList body)
  | none => expected "("

end Loops

end ScratchDb.QueryParser
