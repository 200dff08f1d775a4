import ScratchDb.Parser.Tokens

/-!
# Texts of tokens

The texts that a list of tokens may be written as, with any whitespace between
them, and that `tokenize` reads the same tokens again from each of these texts.
-/

namespace ScratchDb.QueryParser

/-- A token without its position. -/
structure Lexeme where
  type : TokenType
  text : String
deriving DecidableEq, Repr

def Token.lexeme (t : Token) : Lexeme := ⟨t.type, t.text⟩

def isLetter (c : Char) : Bool := c.isAlpha || c = '_'

/-- A point and digits, or nothing. -/
def IsFraction (text : List Char) : Prop :=
  text = [] ∨ ∃ d ds, text = '.' :: d :: ds ∧ ∀ c ∈ d :: ds, c.isDigit = true

/-- The texts of each type that a lexeme is written with. -/
inductive Plain : TokenType → List Char → Prop where
  | word (c : Char) (cs : List Char) (hc : isLetter c = true)
      (hcs : ∀ d ∈ cs, (isLetter d || d.isDigit) = true) : Plain .word (c :: cs)
  | number (sign : List Char) (d : Char) (ds fraction : List Char)
      (hsign : sign = [] ∨ sign = ['-']) (hds : ∀ c ∈ d :: ds, c.isDigit = true)
      (hfraction : IsFraction fraction) : Plain .number (sign ++ d :: (ds ++ fraction))
  | string (quote : Char) (body : List Char) (hquote : quote = '\'' ∨ quote = '"')
      (hbody : ∀ d ∈ body, d ≠ quote) : Plain .string (quote :: (body ++ [quote]))
  | leftParen : Plain .leftParen ['(']
  | rightParen : Plain .rightParen [')']
  | comma : Plain .comma [',']
  | dot : Plain .dot ['.']
  | star : Plain .star ['*']
  | op (text : List Char)
      (htext : text ∈ [['='], ['!', '='], ['>'], ['<'], ['>', '='], ['<', '=']]) : Plain .op text

namespace Lexeme

def Plain (l : Lexeme) : Prop := QueryParser.Plain l.type l.text.toList

/-- Two lexemes that run together without whitespace between them. -/
def needsBlank : TokenType → TokenType → Bool
  | .word, .word => true
  | .word, .number => true
  | .word, .string => true
  | .number, .number => true
  | .number, .dot => true
  | .op, .op => true
  | _, _ => false

end Lexeme

def IsGap (gap : List Char) : Prop := ∀ c ∈ gap, isSpace c = true

/-- The text that follows keeps the next lexeme apart from one of this type. -/
def KeepsApart (type : TokenType) (ls : List Lexeme) (text : List Char) : Prop :=
  ∀ l ∈ ls.head?, Lexeme.needsBlank type l.type = true → ∃ c ∈ text.head?, isSpace c = true

/-- The text is made of the lexemes, with whitespace anywhere between them. -/
inductive Renders : List Lexeme → List Char → Prop where
  | nil {gap : List Char} : IsGap gap → Renders [] gap
  | cons {gap : List Char} {l : Lexeme} {ls : List Lexeme} {text : List Char} :
      IsGap gap → KeepsApart l.type ls text → Renders ls text →
      Renders (l :: ls) (gap ++ (l.text.toList ++ text))

/-- One more token in front, where computation shows that it stays apart. -/
theorem Renders.next {gap : List Char} {l : Lexeme} {ls : List Lexeme} {text : List Char}
    (hgap : gap.all isSpace = true)
    (hapart : ((ls.head?.all fun l' => !Lexeme.needsBlank l.type l'.type) ||
      text.head?.any isSpace) = true)
    (h : Renders ls text) : Renders (l :: ls) (gap ++ (l.text.toList ++ text)) := by
  refine .cons (List.all_eq_true.mp hgap) (fun l' hl' hblank => ?_) h
  rcases Bool.or_eq_true_iff.mp hapart with hfree | hspace
  · rw [Option.mem_def.mp hl', Option.all_some, hblank] at hfree
    cases hfree
  · obtain ⟨c, hc, hc'⟩ := (Option.any_eq_true _ _).mp hspace
    exact ⟨c, hc, hc'⟩

/-- The parentheses among the lexemes close those that are open, and all of their own. -/
def closes : List Lexeme → Nat → Prop
  | [], depth => depth = 0
  | l :: ls, depth =>
    match l.type with
    | .leftParen => closes ls (depth + 1)
    | .rightParen => 0 < depth ∧ closes ls (depth - 1)
    | _ => closes ls depth

/-! ## Characters -/

/-- A character of a class is none outside it. -/
theorem ne_of_class {p : Char → Bool} {c d : Char} (h : p c = true) (hd : p d = false) : c ≠ d := by
  rintro rfl
  rw [h] at hd
  cases hd

theorem ne_of_all {p : Char → Bool} {c : Char} {ds : List Char} (h : p c = true)
    (hds : (ds.all fun d => !p d) = true) : ∀ d ∈ ds, c ≠ d := by
  rintro d hd rfl
  have hnot := List.all_eq_true.mp hds c hd
  rw [h] at hnot
  cases hnot

def isLetterOrDigit (c : Char) : Bool := isLetter c || c.isDigit

/-- The whitespace characters. -/
def spaces : List Char := [' ', '\t', '\n', '\r', Char.ofNat 11, Char.ofNat 12]

theorem mem_spaces {c : Char} (h : isSpace c = true) : c ∈ spaces := by
  simpa [isSpace, spaces, or_assoc] using h

/-- The characters at which a word ends. -/
def wordEnds : List Char := spaces ++ ['(', ')', ',', '.', '*', '=', '!', '>', '<']

theorem isWordChar_iff {c : Char} : isWordChar c = true ↔ ∀ d ∈ wordEnds, c ≠ d := by
  simp [isWordChar, isSpace, wordEnds, spaces, and_assoc]

theorem isWordChar_of_isLetterOrDigit {c : Char} (h : isLetterOrDigit c = true) :
    isWordChar c = true :=
  isWordChar_iff.mpr (ne_of_all h rfl)

/-- The characters that start a token other than a word or a number. -/
def tokenStarts : List Char := ['.', '(', ')', ',', '*', '\'', '"', '=', '!', '>', '<']

theorem readToken_of_not_mem {ch : Char} (h : ∀ d ∈ tokenStarts, ch ≠ d) (i : Nat)
    (cs : List Char) :
    readToken i ch cs =
      if startsNumber ch cs then .ok (.number, numberTail false cs + 1)
      else .ok (.word, (cs.takeWhile isWordChar).length + 1) := by
  simp only [tokenStarts, List.forall_mem_cons] at h
  obtain ⟨h1, h2, h3, h4, h5, h6, h7, h8, h9, h10, h11, -⟩ := h
  simp only [readToken, h1, h2, h3, h4, h5, h6, h7, h8, h9, h10, h11, if_false, or_self]

/-! ## What a token ends at -/

/-- A character at which a token of this type ends. -/
def endsAt : TokenType → Char → Bool
  | .word, c => !isWordChar c
  | .number, c => !c.isDigit && c ≠ '.' && c ≠ '-'
  | .op, c => c ≠ '='
  | _, _ => true

/-- A character that a token of this type starts with. -/
def startsWith : TokenType → Char → Bool
  | .word, c => isLetter c
  | .number, c => c.isDigit || c = '-'
  | .string, c => c = '\'' || c = '"'
  | .leftParen, c => c = '('
  | .rightParen, c => c = ')'
  | .comma, c => c = ','
  | .dot, c => c = '.'
  | .star, c => c = '*'
  | .op, c => c = '=' || c = '!' || c = '>' || c = '<'

theorem Plain.starts {type : TokenType} {text : List Char} (h : Plain type text) :
    ∃ c cs, text = c :: cs ∧ startsWith type c = true := by
  cases h with
  | word c cs hc hcs => exact ⟨c, cs, rfl, hc⟩
  | number sign d ds fraction hsign hds hfraction =>
    rcases hsign with rfl | rfl
    · exact ⟨d, _, rfl, by rw [startsWith, hds d List.mem_cons_self, Bool.true_or]⟩
    · exact ⟨'-', _, rfl, rfl⟩
  | string quote body hquote hbody =>
    exact ⟨quote, _, rfl, by rcases hquote with rfl | rfl <;> rfl⟩
  | leftParen => exact ⟨_, _, rfl, rfl⟩
  | rightParen => exact ⟨_, _, rfl, rfl⟩
  | comma => exact ⟨_, _, rfl, rfl⟩
  | dot => exact ⟨_, _, rfl, rfl⟩
  | star => exact ⟨_, _, rfl, rfl⟩
  | op text htext =>
    simp only [List.mem_cons, List.not_mem_nil, or_false] at htext
    rcases htext with rfl | rfl | rfl | rfl | rfl | rfl <;> exact ⟨_, _, rfl, rfl⟩

theorem mem_tokenStarts_of_startsWith {next : TokenType} {c : Char}
    (h : startsWith next c = true) (hword : next ≠ .word) (hnumber : next ≠ .number) :
    c ∈ tokenStarts := by
  cases next with
  | word => exact absurd rfl hword
  | number => exact absurd rfl hnumber
  | _ =>
    simp only [startsWith, Bool.or_eq_true, decide_eq_true_eq] at h
    simp only [tokenStarts, List.mem_cons]
    tauto

theorem isDigit_of_isLetter {c : Char} (h : isLetter c = true) : c.isDigit = false := by
  rw [isLetter, Bool.or_eq_true] at h
  rcases h with h | h
  · have hcase : (c.isUpper || c.isLower) = true := h
    have hbound : 65 ≤ c.val.toNat := by
      rcases Bool.or_eq_true_iff.mp hcase with hupper | hlower
      · exact UInt32.le_iff_toNat_le.mp (decide_eq_true_eq.mp hupper).1
      · have hlow : 'a'.val ≤ c.val := decide_eq_true_eq.mp (Bool.and_eq_true_iff.mp hlower).1
        exact Nat.le_trans (by decide) (UInt32.le_iff_toNat_le.mp hlow)
    by_contra hdigit
    have hhigh := (Char.isDigit_iff_toNat.mp (Bool.eq_true_of_not_eq_false hdigit)).2
    have hnine : c.val.toNat ≤ 57 := hhigh
    omega
  · rw [decide_eq_true_eq.mp h]
    rfl

/-- Where no whitespace is needed, a token ends where the next one starts. -/
theorem endsAt_of_startsWith {type next : TokenType} {c : Char}
    (hblank : Lexeme.needsBlank type next = false) (h : startsWith next c = true) :
    endsAt type c = true := by
  cases type with
  | word =>
    have hends : ∀ d ∈ tokenStarts, (d = '\'' || d = '"' || endsAt .word d) = true :=
      List.all_eq_true.mp rfl
    cases next with
    | word => cases hblank
    | number => cases hblank
    | string => cases hblank
    | _ =>
      have hquote : c ≠ '\'' := ne_of_class h rfl
      have hdouble : c ≠ '"' := ne_of_class h rfl
      simpa [hquote, hdouble] using
        hends c (mem_tokenStarts_of_startsWith h (by decide) (by decide))
  | number =>
    have hends : ∀ d ∈ tokenStarts, (d = '.' || endsAt .number d) = true :=
      List.all_eq_true.mp rfl
    cases next with
    | word =>
      have hdot : c ≠ '.' := ne_of_class h rfl
      have hminus : c ≠ '-' := ne_of_class h rfl
      simp [endsAt, isDigit_of_isLetter h, hdot, hminus]
    | number => cases hblank
    | dot => cases hblank
    | _ =>
      have hdot : c ≠ '.' := ne_of_class h rfl
      simpa [hdot] using hends c (mem_tokenStarts_of_startsWith h (by decide) (by decide))
  | op =>
    have hother : startsWith next '=' = false := by
      cases next with
      | op => cases hblank
      | _ => rfl
    simpa [endsAt] using ne_of_class h hother
  | _ => rfl

theorem endsAt_of_isSpace {type : TokenType} {c : Char} (h : isSpace c = true) :
    endsAt type c = true := by
  have hspaces : ∀ d ∈ spaces, endsAt type d = true :=
    List.all_eq_true.mp (by cases type <;> rfl)
  exact hspaces c (mem_spaces h)

theorem not_isSpace_of_startsWith {type : TokenType} {c : Char} (h : startsWith type c = true) :
    isSpace c = false := by
  have hspaces : ∀ d ∈ spaces, c ≠ d := ne_of_all h (by cases type <;> rfl)
  by_contra hspace
  exact hspaces c (mem_spaces (Bool.eq_true_of_not_eq_false hspace)) rfl

/-- Whatever follows a token in a text, the token ends there. -/
theorem Renders.ends {type : TokenType} {ls : List Lexeme} {text : List Char}
    (h : Renders ls text) (hplain : ∀ l ∈ ls, l.Plain) (hapart : KeepsApart type ls text) :
    ∀ c ∈ text.head?, endsAt type c = true := by
  cases h with
  | nil hgap =>
    intro c hc
    exact endsAt_of_isSpace (hgap c (List.mem_of_mem_head? hc))
  | @cons gap l ls text hgap _ _ =>
    intro c hc
    cases gap with
    | cons d ds =>
      cases hc
      exact endsAt_of_isSpace (hgap _ List.mem_cons_self)
    | nil =>
      obtain ⟨d, ds, htext, hstarts⟩ := Plain.starts (hplain l List.mem_cons_self)
      rw [List.nil_append, htext] at hc
      cases hc
      by_cases hblank : Lexeme.needsBlank type l.type = true
      · obtain ⟨e, he, hspace⟩ := hapart l rfl hblank
        rw [List.nil_append, htext] at he
        cases he
        exact endsAt_of_isSpace hspace
      · exact endsAt_of_startsWith (Bool.eq_false_of_not_eq_true hblank) hstarts

/-! ## Reading one token -/

theorem numberTail_append {seenDot : Bool} {digits rest : List Char}
    (h : ∀ c ∈ digits, c.isDigit = true) :
    numberTail seenDot (digits ++ rest) = digits.length + numberTail seenDot rest := by
  induction digits with
  | nil => rw [List.nil_append, List.length_nil, Nat.zero_add]
  | cons c cs ih =>
    rw [List.cons_append, numberTail, if_pos (h c List.mem_cons_self),
      ih fun d hd => h d (List.mem_cons_of_mem c hd), List.length_cons]
    omega

theorem numberTail_of_ends {seenDot : Bool} {rest : List Char}
    (h : ∀ c ∈ rest.head?, endsAt .number c = true) : numberTail seenDot rest = 0 := by
  cases rest with
  | nil => rfl
  | cons c cs =>
    have hc := h c rfl
    simp only [endsAt, Bool.and_eq_true, Bool.not_eq_true', decide_eq_true_eq] at hc
    rw [numberTail, if_neg (by simp [hc.1.1]), if_neg (by simp [hc.1.2]), if_neg (by simp [hc.2])]

theorem numberTail_fraction {fraction rest : List Char} (hfraction : IsFraction fraction)
    (h : ∀ c ∈ rest.head?, endsAt .number c = true) :
    numberTail false (fraction ++ rest) = fraction.length := by
  rcases hfraction with rfl | ⟨d, ds, rfl, hds⟩
  · rw [List.nil_append, numberTail_of_ends h, List.length_nil]
  · have hfollows : digitFollows (d :: ds ++ rest) = true := hds d List.mem_cons_self
    rw [List.cons_append, numberTail, if_neg (by decide), if_pos ⟨rfl, by decide, hfollows⟩,
      numberTail_append hds, numberTail_of_ends h, Nat.add_zero]
    rfl

theorem takeWhile_append_of_ends {p : Char → Bool} {word rest : List Char}
    (hword : ∀ c ∈ word, p c = true) (hrest : ∀ c ∈ rest.head?, p c = false) :
    (word ++ rest).takeWhile p = word := by
  rw [List.takeWhile_append_of_pos hword]
  cases rest with
  | nil => rw [List.takeWhile_nil, List.append_nil]
  | cons c cs =>
    rw [List.takeWhile_cons_of_neg (by simp [hrest c rfl]), List.append_nil]

theorem readToken_number {i : Nat} {sign : List Char} {d : Char} {ds fraction rest cs : List Char}
    {ch : Char} (hsign : sign = [] ∨ sign = ['-']) (hds : ∀ c ∈ d :: ds, c.isDigit = true)
    (hfraction : IsFraction fraction) (hends : ∀ c ∈ rest.head?, endsAt .number c = true)
    (htext : sign ++ d :: (ds ++ fraction) ++ rest = ch :: cs) :
    readToken i ch cs = .ok (.number, (sign ++ d :: (ds ++ fraction)).length) := by
  have hd := hds d List.mem_cons_self
  have htail := numberTail_fraction hfraction hends
  rcases hsign with rfl | rfl
  · rw [List.nil_append, List.cons_append, List.append_assoc] at htext
    cases htext
    have hstarts : ∀ x ∈ tokenStarts, d ≠ x := ne_of_all hd rfl
    rw [readToken_of_not_mem hstarts, if_pos (by rw [startsNumber, hd, Bool.true_or]),
      numberTail_append fun c hc => hds c (List.mem_cons_of_mem d hc), htail]
    simp
  · rw [List.cons_append, List.cons_append, List.nil_append, List.cons_append,
      List.append_assoc] at htext
    cases htext
    have hstarts : ∀ x ∈ tokenStarts, '-' ≠ x := @ne_of_all (· = '-') '-' tokenStarts rfl rfl
    have hnumber : startsNumber '-' (d :: (ds ++ (fraction ++ rest))) = true := by
      simp [startsNumber, digitFollows, hd]
    rw [readToken_of_not_mem hstarts, if_pos hnumber, ← List.cons_append, numberTail_append hds,
      htail]
    simp only [List.singleton_append, List.length_cons, List.length_append]
    congr 2
    omega

/-- A token is read up to its end. -/
theorem Plain.readToken_eq {type : TokenType} {text rest : List Char} (h : Plain type text)
    (hends : ∀ c ∈ rest.head?, endsAt type c = true) (i : Nat) {ch : Char} {cs : List Char}
    (htext : text ++ rest = ch :: cs) : readToken i ch cs = .ok (type, text.length) := by
  cases h with
  | word c word hc hword =>
    cases htext
    have hstarts : ∀ x ∈ tokenStarts, ch ≠ x := ne_of_all hc rfl
    have hnumber : startsNumber ch (word ++ rest) = false := by
      simp [startsNumber, isDigit_of_isLetter hc, ne_of_class (d := '-') hc rfl]
    have hstop : ∀ x ∈ rest.head?, isWordChar x = false := by
      intro x hx
      simpa [endsAt] using hends x hx
    rw [List.append_eq, readToken_of_not_mem hstarts, hnumber, if_neg Bool.false_ne_true,
      takeWhile_append_of_ends (fun x hx => isWordChar_of_isLetterOrDigit (hword x hx)) hstop,
      List.length_cons]
  | number sign d ds fraction hsign hds hfraction =>
    exact readToken_number hsign hds hfraction hends htext
  | string quote body hquote hbody =>
    cases htext
    have htake : (body ++ [ch] ++ rest).takeWhile (· ≠ ch) = body := by
      rw [List.append_assoc]
      exact takeWhile_append_of_ends (fun x hx => by simpa using hbody x hx) (by simp)
    have hshort : body.length ≠ (body ++ [ch] ++ rest).length := by
      simp only [List.length_append, List.length_singleton]
      omega
    have hlength : (ch :: (body ++ [ch])).length = body.length + 2 := by
      rw [List.length_cons, List.length_append, List.length_singleton]
    rw [hlength, List.append_eq]
    rcases hquote with rfl | rfl
    · simp only [readToken, htake, if_neg hshort]
      rfl
    · simp only [readToken, htake, if_neg hshort]
      rfl
  | op text htext' =>
    have hequals : rest.head? ≠ some '=' := fun heq => absurd (hends '=' heq) (by decide)
    simp only [List.mem_cons, List.not_mem_nil, or_false] at htext'
    rcases htext' with rfl | rfl | rfl | rfl | rfl | rfl <;> cases htext
    all_goals simp [readToken, hequals]
  | _ =>
    cases htext
    rfl

/-! ## Reading all tokens -/

theorem finishTokens_nil {parens : List Nat} (h : parens.length = 0) :
    finishTokens parens = .ok [] := by
  rw [List.length_eq_zero_iff.mp h]
  rfl

theorem dropWhile_gap {gap rest : List Char} (hgap : IsGap gap)
    (hrest : ∀ c ∈ rest.head?, isSpace c = false) : (gap ++ rest).dropWhile isSpace = rest := by
  rw [List.dropWhile_append_of_pos hgap]
  cases rest with
  | nil => rfl
  | cons c cs => exact List.dropWhile_cons_of_neg (by simp [hrest c rfl])

/-- The loop reads the lexemes that a text is made of. -/
theorem tokenizeFrom_renders {ls : List Lexeme} {text : List Char} (h : Renders ls text)
    (hplain : ∀ l ∈ ls, l.Plain) (turns i : Nat) (parens : List Nat)
    (hturns : text.length ≤ turns) (hcloses : closes ls parens.length) :
    ∃ tokens, tokenizeFrom turns i text parens = .ok tokens ∧
      tokens.map Token.lexeme = ls := by
  induction h generalizing turns i parens with
  | @nil gap hgap =>
    refine ⟨[], ?_, rfl⟩
    cases turns with
    | zero => exact finishTokens_nil hcloses
    | succ turns =>
      have hdrop := @dropWhile_gap gap [] hgap (by simp)
      rw [List.append_nil] at hdrop
      simp only [tokenizeFrom, hdrop]
      exact finishTokens_nil hcloses
  | @cons gap l ls text hgap hapart htail ih =>
    have hl : l.Plain := hplain l List.mem_cons_self
    have hls : ∀ l' ∈ ls, l'.Plain := fun l' hl' => hplain l' (List.mem_cons_of_mem l hl')
    obtain ⟨ch, cs, hstart, hstarts⟩ := Plain.starts hl
    have htext : l.text.toList ++ text = ch :: (cs ++ text) := by rw [hstart, List.cons_append]
    cases turns with
    | zero => simp [hstart] at hturns
    | succ turns =>
      have hdrop : (gap ++ (l.text.toList ++ text)).dropWhile isSpace = ch :: (cs ++ text) := by
        rw [htext]
        exact dropWhile_gap hgap fun c hc => by cases hc; exact not_isSpace_of_startsWith hstarts
      have hread := hl.readToken_eq (htail.ends hls hapart)
        (i + ((gap ++ (l.text.toList ++ text)).takeWhile isSpace).length) htext
      have hlength : text.length ≤ turns := by
        rw [htext] at hturns
        simp only [List.length_append, List.length_cons] at hturns
        omega
      have htake : (ch :: (cs ++ text)).take l.text.toList.length = l.text.toList := by
        rw [← htext, List.take_left']
        rfl
      have hrest : (ch :: (cs ++ text)).drop l.text.toList.length = text := by
        rw [← htext, List.drop_left']
        rfl
      -- the rest is read with the parentheses that are open behind the token
      have hnext : ∀ (t : Token) (j : Nat) (opened : List Nat), t.lexeme = l →
          closes ls opened.length →
          ∃ tokens, (tokenizeFrom turns j text opened).map (t :: ·) = .ok tokens ∧
            tokens.map Token.lexeme = l :: ls := by
        intro t j opened ht hopened
        obtain ⟨tokens, htokens, hlexemes⟩ := ih hls turns j opened hlength hopened
        refine ⟨t :: tokens, by rw [htokens]; rfl, ?_⟩
        rw [List.map_cons, ht, hlexemes]
      simp only [tokenizeFrom, hdrop, hread, htake, hrest, String.ofList_toList]
      obtain ⟨type, word⟩ := l
      cases type with
      | leftParen => exact hnext _ _ _ rfl hcloses
      | rightParen =>
        cases parens with
        | nil => exact absurd hcloses.1 (Nat.lt_irrefl 0)
        | cons p parens => exact hnext _ _ _ rfl hcloses.2
      | _ => exact hnext _ _ _ rfl hcloses

theorem tokenize_renders {ls : List Lexeme} {command : List Char} (h : Renders ls command)
    (hplain : ∀ l ∈ ls, l.Plain) (hcloses : closes ls 0) :
    ∃ tokens, tokenize command = .ok tokens ∧ tokens.map Token.lexeme = ls :=
  tokenizeFrom_renders h hplain command.length 0 [] le_rfl hcloses

end ScratchDb.QueryParser
