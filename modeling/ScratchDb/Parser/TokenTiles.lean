import ScratchDb.Lib.Lexing
import ScratchDb.Parser.Lexemes

/-!
# Tokens tile the command

The loop of `tokenize` with its positions, turn by turn. Each turn takes a
character at least, and when the loop ends without an error the tokens are
excerpts of the command that follow one another, with whitespace between them
and all parentheses closed.
-/

namespace ScratchDb.QueryParser

/-- `i`, `tokens`, and `parens` with the last one first. -/
structure TokenizeState where
  position : Nat
  tokens : List Token
  parens : List Nat

/-- `tokens.push_back`, and `i` behind the token. -/
def TokenizeState.push (s : TokenizeState) (start size : Nat) (type : TokenType)
    (text : List Char) : TokenizeState :=
  { s with
    position := start + size
    tokens := s.tokens ++ [{ type, text := String.ofList text, position := start }] }

/-- A turn of the loop of `tokenize`; `none` where the loop ends. -/
def tokenizeTurn (command : List Char) (s : TokenizeState) :
    Option (Except ParseError TokenizeState) :=
  let i := s.position + ((command.drop s.position).takeWhile isSpace).length
  match command.drop i with
  | [] => none
  | ch :: cs =>
    if ch = '.' then some (.ok (s.push i 1 .dot ['.']))
    else if ch = '(' then
      some (.ok { s.push i 1 .leftParen ['('] with parens := i :: s.parens })
    else if ch = ')' then
      match s.parens with
      | [] =>
        some (.error { message := "unexpected closing parenthesis", token := ")", position := i })
      | _ :: parens => some (.ok { s.push i 1 .rightParen [')'] with parens := parens })
    else if ch = ',' then some (.ok (s.push i 1 .comma [',']))
    else if ch = '*' then some (.ok (s.push i 1 .star ['*']))
    else if ch = '\'' ∨ ch = '"' then
      let stop := i + 1 + (cs.takeWhile (· ≠ ch)).length
      if stop = command.length then
        some (.error
          { message := "unterminated string literal", token := String.ofList [ch], position := i })
      else
        some (.ok (s.push i (stop + 1 - i) .string ((command.drop i).take (stop + 1 - i))))
    else if ch = '=' ∨ ch = '!' ∨ ch = '>' ∨ ch = '<' then
      if command[i + 1]? = some '=' then
        some (.ok (s.push i 2 .op ((command.drop i).take 2)))
      else if ch = '!' then some (.error { message := "expected !=", token := "!", position := i })
      else some (.ok (s.push i 1 .op ((command.drop i).take 1)))
    else if startsNumber ch cs then
      let size := 1 + numberTail false cs
      some (.ok (s.push i size .number ((command.drop i).take size)))
    else
      let size := ((ch :: cs).takeWhile isWordChar).length
      some (.ok (s.push i size .word ((command.drop i).take size)))

/-- The loop of `tokenize`, and what follows it; `none` when the turns do not suffice. -/
def tokenizeLoop (command : List Char) : Nat → TokenizeState →
    Option (Except ParseError (List Token))
  | 0, _ => none
  | turns + 1, s =>
    match tokenizeTurn command s with
    | none => some ((finishTokens s.parens).map fun _ => s.tokens)
    | some (.error e) => some (.error e)
    | some (.ok s) => tokenizeLoop command turns s

def tokenizeStart : TokenizeState := ⟨0, [], []⟩

def Token.piece (t : Token) : Piece Char := ⟨t.position, t.text.toList⟩

/-- The tokens are excerpts of the command one after the other, with whitespace between them, and
their parentheses match. -/
structure Tiles (command : List Char) (tokens : List Token) : Prop where
  tiled : Tiled isSpace command command.length (tokens.map Token.piece)
  balanced : Balanced (· = TokenType.leftParen) (· = TokenType.rightParen) (tokens.map Token.type)

/-! ## What a turn does -/

section

variable {command : List Char} {s t : TokenizeState}

/-- The parentheses that are open behind a token of this type at `i`. -/
def parensAfter (type : TokenType) (i : Nat) (parens : List Nat) : List Nat :=
  match type with
  | .leftParen => i :: parens
  | .rightParen => parens.tail
  | _ => parens

/-- What a turn makes of the token that it reads at `i`. -/
def TokenizeState.read (s : TokenizeState) (i : Nat) (rest : List Char)
    (token : TokenType × Nat) : Except ParseError TokenizeState :=
  if token.1 = .rightParen ∧ s.parens = [] then
    .error { message := "unexpected closing parenthesis", token := ")", position := i }
  else .ok { s.push i token.2 token.1 (rest.take token.2) with
    parens := parensAfter token.1 i s.parens }

theorem TokenizeState.read_eq {i : Nat} {rest text : List Char} {type : TokenType} {size : Nat}
    (htype : type ≠ .rightParen) (hparens : parensAfter type i s.parens = s.parens)
    (htext : rest.take size = text) :
    s.read i rest (type, size) = .ok (s.push i size type text) := by
  rw [TokenizeState.read, if_neg fun hand => htype hand.1, hparens, htext]
  rfl

/-- What follows the whitespace is none. -/
theorem drop_blanks (command : List Char) (i : Nat) :
    command.drop (i + ((command.drop i).takeWhile isSpace).length) =
      (command.drop i).dropWhile isSpace := by
  rw [← List.drop_drop]
  conv_lhs => rw [← @List.takeWhile_append_dropWhile _ isSpace (command.drop i)]
  exact List.drop_left' (by rw [List.takeWhile_append_dropWhile])

/-- A turn reads one token. -/
theorem tokenizeTurn_eq {i : Nat} {ch : Char} {cs : List Char}
    (hi : i = s.position + ((command.drop s.position).takeWhile isSpace).length)
    (hrest : command.drop i = ch :: cs) (hspace : isSpace ch = false) :
    tokenizeTurn command s = some ((readToken i ch cs).bind (s.read i (ch :: cs))) := by
  have hlength : i + (cs.length + 1) = command.length := by
    have hdrop := congrArg List.length hrest
    rw [List.length_drop, List.length_cons] at hdrop
    omega
  have hnext : command[i + 1]? = cs.head? := by
    rw [← List.getElem?_drop, hrest, List.getElem?_cons_succ, List.head?_eq_getElem?]
  rw [tokenizeTurn, ← hi, hrest, readToken]
  dsimp only
  by_cases hdot : ch = '.'
  · rw [if_pos hdot, if_pos hdot]
    exact congrArg some (TokenizeState.read_eq (by decide) rfl (by rw [hdot]; rfl)).symm
  rw [if_neg hdot, if_neg hdot]
  by_cases hopen : ch = '('
  · rw [if_pos hopen, if_pos hopen, hopen]
    rfl
  rw [if_neg hopen, if_neg hopen]
  by_cases hclose : ch = ')'
  · rw [if_pos hclose, if_pos hclose, hclose]
    have hread : (Except.ok (TokenType.rightParen, 1) : Except ParseError _).bind
        (s.read i (')' :: cs)) = s.read i (')' :: cs) (.rightParen, 1) := rfl
    rw [hread, TokenizeState.read]
    cases s.parens with
    | nil => rfl
    | cons p parens => rfl
  rw [if_neg hclose, if_neg hclose]
  by_cases hcomma : ch = ','
  · rw [if_pos hcomma, if_pos hcomma]
    exact congrArg some (TokenizeState.read_eq (by decide) rfl (by rw [hcomma]; rfl)).symm
  rw [if_neg hcomma, if_neg hcomma]
  by_cases hstar : ch = '*'
  · rw [if_pos hstar, if_pos hstar]
    exact congrArg some (TokenizeState.read_eq (by decide) rfl (by rw [hstar]; rfl)).symm
  rw [if_neg hstar, if_neg hstar]
  by_cases hquote : ch = '\'' ∨ ch = '"'
  · rw [if_pos hquote, if_pos hquote]
    by_cases hstop : (cs.takeWhile (· ≠ ch)).length = cs.length
    · rw [if_pos hstop, if_pos (by omega)]
      rfl
    · have hsize : i + 1 + (cs.takeWhile (· ≠ ch)).length + 1 - i =
          (cs.takeWhile (· ≠ ch)).length + 2 := by omega
      rw [if_neg hstop, if_neg (by omega), hsize]
      exact congrArg some (TokenizeState.read_eq (by decide) rfl rfl).symm
  rw [if_neg hquote, if_neg hquote]
  by_cases hoperator : ch = '=' ∨ ch = '!' ∨ ch = '>' ∨ ch = '<'
  · rw [if_pos hoperator, if_pos hoperator, hnext]
    by_cases hequals : cs.head? = some '='
    · rw [if_pos hequals, if_pos hequals]
      exact congrArg some (TokenizeState.read_eq (by decide) rfl rfl).symm
    rw [if_neg hequals, if_neg hequals]
    by_cases hbang : ch = '!'
    · rw [if_pos hbang, if_pos hbang]
      rfl
    · rw [if_neg hbang, if_neg hbang]
      exact congrArg some (TokenizeState.read_eq (by decide) rfl rfl).symm
  rw [if_neg hoperator, if_neg hoperator]
  by_cases hnumber : startsNumber ch cs = true
  · rw [if_pos hnumber, if_pos hnumber, Nat.add_comm 1]
    exact congrArg some (TokenizeState.read_eq (by decide) rfl rfl).symm
  · -- the character that starts a word belongs to it
    rw [not_or, not_or, not_or] at hoperator
    obtain ⟨hequal, hbang, hgreater, hless⟩ := hoperator
    have hword : isWordChar ch = true := by
      simp only [isWordChar, hspace, hdot, hopen, hclose, hcomma, hstar, hequal, hbang, hgreater,
        hless, ne_eq, not_false_eq_true, decide_true, Bool.not_false, Bool.and_self]
    rw [if_neg hnumber, if_neg hnumber, List.takeWhile_cons_of_pos hword, List.length_cons]
    exact congrArg some (TokenizeState.read_eq (by decide) rfl rfl).symm

theorem numberTail_le (seenDot : Bool) (cs : List Char) : numberTail seenDot cs ≤ cs.length := by
  induction cs generalizing seenDot with
  | nil => exact Nat.le_refl 0
  | cons c cs ih =>
    have htail := ih seenDot
    have hdot := ih true
    rw [numberTail, List.length_cons]
    split_ifs <;> omega

/-- A token has a character at least, and is no longer than the text. -/
theorem size_of_readToken {i size : Nat} {ch : Char} {cs : List Char} {type : TokenType}
    (h : readToken i ch cs = .ok (type, size)) : 0 < size ∧ size ≤ cs.length + 1 := by
  have hone : ∀ {type' : TokenType},
      (.ok (type', 1) : Except ParseError _) = .ok (type, size) → 0 < size ∧ size ≤ cs.length + 1 := by
    rintro type' ⟨⟩
    exact ⟨Nat.one_pos, Nat.le_add_left 1 _⟩
  rw [readToken] at h
  iterate 5
    split at h
    · exact hone h
  split at h
  · dsimp only at h
    split at h
    · cases h
    · rename_i hstop
      cases h
      have hbody : (cs.takeWhile (· ≠ ch)).length ≤ cs.length :=
        (List.takeWhile_sublist _).length_le
      omega
  split at h
  · split at h
    · rename_i hequals
      cases h
      cases cs with
      | nil => cases hequals
      | cons c cs => exact ⟨Nat.two_pos, by rw [List.length_cons]; omega⟩
    · split at h
      · cases h
      · exact hone h
  split at h
  · cases h
    have htail := numberTail_le false cs
    omega
  · cases h
    have hword : (cs.takeWhile isWordChar).length ≤ cs.length :=
      (List.takeWhile_sublist _).length_le
    omega

/-- A turn pushes one token, which starts behind the whitespace and has a character at least. -/
structure Turned (command : List Char) (s t : TokenizeState) (start size : Nat) (type : TokenType) :
    Prop where
  behind : start = s.position + ((command.drop s.position).takeWhile isSpace).length
  positive : 0 < size
  fits : start + size ≤ command.length
  position : t.position = start + size
  tokens : t.tokens =
    s.tokens ++ [{ type, text := String.ofList ((command.drop start).take size), position := start }]
  parens : t.parens = parensAfter type start s.parens
  opened : type = .rightParen → s.parens ≠ []

/-- Either only whitespace is left, or a turn reads a token. -/
theorem tokenizeTurn_cases (command : List Char) (s : TokenizeState) :
    (tokenizeTurn command s = none ∧ (command.drop s.position).dropWhile isSpace = []) ∨
      ∃ i ch cs, i = s.position + ((command.drop s.position).takeWhile isSpace).length ∧
        command.drop i = ch :: cs ∧ (command.drop s.position).dropWhile isSpace = ch :: cs ∧
        tokenizeTurn command s = some ((readToken i ch cs).bind (s.read i (ch :: cs))) := by
  have hdrop := drop_blanks command s.position
  cases hrest : (command.drop s.position).dropWhile isSpace with
  | nil =>
    rw [hrest] at hdrop
    rw [tokenizeTurn, hdrop]
    exact .inl ⟨rfl, rfl⟩
  | cons ch cs =>
    rw [hrest] at hdrop
    have hspace : isSpace ch = false := by
      have hne : (command.drop s.position).dropWhile isSpace ≠ [] := by simp [hrest]
      have hhead := List.head_dropWhile_not isSpace hne
      simpa [hrest] using hhead
    exact .inr ⟨_, ch, cs, rfl, hdrop, rfl, tokenizeTurn_eq rfl hdrop hspace⟩

theorem turned_of_tokenizeTurn (h : tokenizeTurn command s = some (.ok t)) :
    ∃ start size type, Turned command s t start size type := by
  rcases tokenizeTurn_cases command s with ⟨hnone, -⟩ | ⟨i, ch, cs, hi, hdrop, -, hturn⟩
  · rw [hnone] at h
    cases h
  · rw [hturn] at h
    cases hread : readToken i ch cs with
    | error e =>
      rw [hread] at h
      cases h
    | ok token =>
      obtain ⟨type, size⟩ := token
      obtain ⟨hpositive, hfits⟩ := size_of_readToken hread
      have hlength : i + (cs.length + 1) = command.length := by
        have hlength := congrArg List.length hdrop
        rw [List.length_drop, List.length_cons] at hlength
        omega
      have hpush := Option.some.inj h
      rw [hread] at hpush
      replace hpush : s.read i (ch :: cs) (type, size) = .ok t := hpush
      rw [TokenizeState.read] at hpush
      split at hpush
      · cases hpush
      · rename_i hopened
        cases hpush
        refine ⟨i, size, type, hi, hpositive, by omega, rfl, by rw [hdrop]; rfl, rfl, ?_⟩
        exact fun hright hparens => hopened ⟨hright, hparens⟩

/-- Where the loop ends, only whitespace is left. -/
theorem blanks_of_tokenizeTurn (h : tokenizeTurn command s = none) :
    ∀ a ∈ command.drop s.position, isSpace a = true := by
  rcases tokenizeTurn_cases command s with ⟨-, hblank⟩ | ⟨i, ch, cs, -, -, -, hturn⟩
  · exact List.dropWhile_eq_nil_iff.mp hblank
  · rw [hturn] at h
    cases h

/-! ## What the loop keeps -/

/-- The part of the command that has been read is tiled, and the open parentheses are counted. -/
structure Scanned (command : List Char) (s : TokenizeState) : Prop where
  bound : s.position ≤ command.length
  tiled : Tiled isSpace command s.position (s.tokens.map Token.piece)
  pending : Pending (· = TokenType.leftParen) (· = TokenType.rightParen) s.parens.length
    (s.tokens.map Token.type)

theorem scanned_start (command : List Char) : Scanned command tokenizeStart :=
  ⟨Nat.zero_le _, .nil _ _, .balanced .nil⟩

theorem take_blanks (cs : List Char) :
    ∀ a ∈ cs.take (cs.takeWhile isSpace).length, isSpace a = true := by
  intro a ha
  rw [← List.prefix_iff_eq_take.mp (List.takeWhile_prefix isSpace)] at ha
  exact List.all_eq_true.mp List.all_takeWhile a ha

theorem Scanned.turn {start size : Nat} {type : TokenType} (h : Scanned command s)
    (ht : Turned command s t start size type) : Scanned command t := by
  have hskip := h.tiled.skip _ (take_blanks (command.drop s.position))
  rw [← ht.behind] at hskip
  refine ⟨by rw [ht.position]; exact ht.fits, ?_, ?_⟩
  · have hpush := hskip.push ht.positive ht.fits
    rw [ht.position, ht.tokens, List.map_append, List.map_singleton, Token.piece,
      String.toList_ofList]
    exact hpush
  · rw [ht.tokens, ht.parens, List.map_append, List.map_singleton]
    have hpending := h.pending
    have hopened := ht.opened
    cases type with
    | leftParen => exact hpending.open rfl
    | rightParen =>
      cases hparens : s.parens with
      | nil => exact absurd hparens (hopened rfl)
      | cons p parens =>
        rw [hparens] at hpending
        exact hpending.close rfl
    | _ => exact hpending.other (fun h => by cases h) fun h => by cases h

theorem Scanned.finish {tokens : List Token} (h : Scanned command s)
    (hblank : ∀ a ∈ command.drop s.position, isSpace a = true)
    (hfinish : ((finishTokens s.parens).map fun _ => s.tokens) = .ok tokens) :
    Tiles command tokens := by
  have hpending := h.pending
  cases hparens : s.parens with
  | cons p parens =>
    rw [hparens] at hfinish
    cases hfinish
  | nil =>
    rw [hparens] at hfinish hpending
    cases hfinish
    refine ⟨?_, hpending.all_closed⟩
    have hrest := h.tiled.skip (command.length - s.position) fun a ha =>
      hblank a (List.mem_of_mem_take ha)
    rwa [Nat.add_sub_cancel' h.bound] at hrest

theorem tiles_of_tokenizeLoop {turns : Nat} {tokens : List Token} (h : Scanned command s)
    (hloop : tokenizeLoop command turns s = some (.ok tokens)) : Tiles command tokens := by
  induction turns generalizing s with
  | zero => cases hloop
  | succ turns ih =>
    rw [tokenizeLoop] at hloop
    cases hturn : tokenizeTurn command s with
    | none =>
      rw [hturn] at hloop
      exact h.finish (blanks_of_tokenizeTurn hturn) (Option.some.inj hloop)
    | some result =>
      rw [hturn] at hloop
      cases result with
      | error e => cases hloop
      | ok t =>
        obtain ⟨start, size, type, ht⟩ := turned_of_tokenizeTurn hturn
        exact ih (h.turn ht) hloop

theorem finishTokens_map (parens : List Nat) (tokens : List Token) :
    ((finishTokens parens).map fun _ => tokens) = (finishTokens parens).map (tokens ++ ·) := by
  cases parens with
  | nil => exact congrArg Except.ok (List.append_nil tokens).symm
  | cons p parens => rfl

/-- The loop gives the tokens that `tokenize` gives. -/
theorem tokenizeLoop_eq {turns : Nat} (hturns : command.length ≤ s.position + turns) :
    tokenizeLoop command (turns + 1) s =
      some ((tokenizeFrom turns s.position (command.drop s.position) s.parens).map
        (s.tokens ++ ·)) := by
  induction turns generalizing s with
  | zero =>
    have hdrop : command.drop s.position = [] := List.drop_eq_nil_of_le hturns
    rw [tokenizeLoop, tokenizeFrom]
    rcases tokenizeTurn_cases command s with ⟨hnone, -⟩ | ⟨i, ch, cs, -, -, hcons, -⟩
    · rw [hnone]
      exact congrArg some (finishTokens_map _ _)
    · rw [hdrop] at hcons
      cases hcons
  | succ turns ih =>
    rw [tokenizeLoop, tokenizeFrom]
    rcases tokenizeTurn_cases command s with ⟨hnone, hblank⟩ | ⟨i, ch, cs, hi, hdrop, hcons, hturn⟩
    · rw [hnone, hblank]
      exact congrArg some (finishTokens_map _ _)
    rw [hturn, hcons]
    dsimp only
    rw [← hi]
    cases hread : readToken i ch cs with
    | error e => rfl
    | ok token =>
      obtain ⟨type, size⟩ := token
      obtain ⟨hpositive, hfits⟩ := size_of_readToken hread
      have hbind : (Except.ok (type, size) : Except ParseError _).bind (s.read i (ch :: cs)) =
          s.read i (ch :: cs) (type, size) := rfl
      rw [hbind, TokenizeState.read]
      -- the rest is read with the parentheses that are open behind the token
      have hnext : ∀ parens, tokenizeLoop command (turns + 1)
          { s.push i size type ((ch :: cs).take size) with parens := parens } =
          some (((tokenizeFrom turns (i + size) ((ch :: cs).drop size) parens).map
            (⟨type, String.ofList ((ch :: cs).take size), i⟩ :: ·)).map (s.tokens ++ ·)) := by
        intro parens
        rw [ih (s := { s.push i size type ((ch :: cs).take size) with parens := parens })
          (by dsimp only [TokenizeState.push]; omega)]
        have hrest : command.drop (i + size) = (ch :: cs).drop size := by
          rw [← List.drop_drop, hdrop]
        dsimp only [TokenizeState.push]
        rw [hrest]
        cases tokenizeFrom turns (i + size) ((ch :: cs).drop size) parens with
        | error e => rfl
        | ok tokens =>
          have happend := List.append_assoc s.tokens
            [⟨type, String.ofList ((ch :: cs).take size), i⟩] tokens
          exact congrArg (fun tokens => some (Except.ok tokens)) happend
      cases type with
      | leftParen => exact hnext _
      | rightParen =>
        cases hparens : s.parens with
        | nil => rfl
        | cons p parens => exact hnext _
      | _ => exact hnext _

/-- The loop ends, each turn of it pushes a token and takes a character at least, and the tokens of
a command without errors tile it. -/
theorem tokens_tile (command : List Char) :
    tokenizeLoop command (command.length + 1) tokenizeStart = some (tokenize command) ∧
      (∀ s t, tokenizeTurn command s = some (.ok t) →
        s.position < t.position ∧ ∃ token, t.tokens = s.tokens ++ [token]) ∧
      ∀ tokens, tokenize command = .ok tokens → Tiles command tokens := by
  have hloop : tokenizeLoop command (command.length + 1) tokenizeStart =
      some (tokenize command) := by
    rw [tokenizeLoop_eq (by dsimp only [tokenizeStart]; omega)]
    refine congrArg some ?_
    rw [tokenize]
    dsimp only [tokenizeStart]
    rw [List.drop_zero]
    cases tokenizeFrom command.length 0 command [] with
    | error e => rfl
    | ok tokens => rfl
  refine ⟨hloop, fun s t hturn => ?_, fun tokens htokens => ?_⟩
  · obtain ⟨start, size, type, ht⟩ := turned_of_tokenizeTurn hturn
    have hbehind := ht.behind
    have hpositive := ht.positive
    exact ⟨by rw [ht.position]; omega, _, ht.tokens⟩
  · rw [htokens] at hloop
    exact tiles_of_tokenizeLoop (scanned_start command) hloop

/-- A string with a blank in it, and operators of two characters. -/
theorem tokens_tile_string : ∃ tokens, tokenize "(name >= 'a b')".toList = .ok tokens ∧
    tokens.map Token.position = [0, 1, 6, 9, 14] ∧ Tiles "(name >= 'a b')".toList tokens :=
  ⟨_, rfl, rfl, (tokens_tile "(name >= 'a b')".toList).2.2 _ rfl⟩

end

end ScratchDb.QueryParser
