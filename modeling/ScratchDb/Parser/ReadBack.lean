import ScratchDb.Parser.ConditionTrees
import ScratchDb.Parser.Safety

/-!
# Reading the tokens of a condition

What the functions of the parser make of tokens of which only the types and texts
are given, whatever follows them.
-/

namespace ScratchDb.QueryParser

open Select

variable {α β : Type}

/-- Started before the tokens `ls`, behind which `rest` is left, `m` takes these tokens and returns
a value that satisfies `Q`. -/
def Reads (m : Parser α) (ls rest : List Lexeme) (Q : α → Prop) : Prop :=
  ∀ s : Cursor, s.rest.map Token.lexeme = ls ++ rest →
    ∃ a t, m s = (.ok a, t) ∧ t.rest.map Token.lexeme = rest ∧ t.calls = s.calls ∧ Q a

section Rules

variable {ls ls' rest : List Lexeme} {Q : α → Prop} {R : β → Prop}

namespace Reads

theorem pure {a : α} (h : Q a) : Reads (Pure.pure a) [] rest Q :=
  fun s hs => ⟨a, s, rfl, hs, rfl, h⟩

theorem mono {m : Parser α} {Q' : α → Prop} (h : Reads m ls rest Q) (hQ : ∀ a, Q a → Q' a) :
    Reads m ls rest Q' := by
  intro s hs
  obtain ⟨a, t, hm, ht, hcalls, ha⟩ := h s hs
  exact ⟨a, t, hm, ht, hcalls, hQ a ha⟩

/-- One part after another. -/
theorem bind {m : Parser α} {f : α → Parser β} (hm : Reads m ls (ls' ++ rest) Q)
    (hf : ∀ a, Q a → Reads (f a) ls' rest R) : Reads (m >>= f) (ls ++ ls') rest R := by
  intro s hs
  rw [List.append_assoc] at hs
  obtain ⟨a, t, ha, ht, hcalls, hq⟩ := hm s hs
  obtain ⟨b, u, hb, hu, hcalls', hr⟩ := hf a hq t ht
  exact ⟨b, u, by rw [Prog.bind_ok ha, hb], hu, hcalls'.trans hcalls, hr⟩

/-- A part that takes no token. -/
theorem look {m : Parser α} {f : α → Parser β} (hm : Reads m [] (ls ++ rest) Q)
    (hf : ∀ a, Q a → Reads (f a) ls rest R) : Reads (m >>= f) ls rest R :=
  bind hm hf

/-- A part behind which no token is taken. -/
theorem last {m : Parser α} {f : α → Parser β} (hm : Reads m ls rest Q)
    (hf : ∀ a, Q a → Reads (f a) [] rest R) : Reads (m >>= f) ls rest R := by
  rw [← List.append_nil ls]
  exact bind hm hf

/-- The branch of a match that takes a token. -/
theorem matched {m : Parser Bool} {f g : Parser β} (hm : Reads m ls (ls' ++ rest) (· = true))
    (hf : Reads f ls' rest R) :
    Reads (m >>= fun b => if b = true then f else g) (ls ++ ls') rest R := by
  refine bind hm fun b hb => ?_
  rw [if_pos hb]
  exact hf

/-- The branch of a match that does not. -/
theorem unmatched {m : Parser Bool} {f g : Parser β} (hm : Reads m [] (ls ++ rest) (· = false))
    (hg : Reads g ls rest R) :
    Reads (m >>= fun b => if b = true then f else g) ls rest R := by
  refine bind hm fun b hb => ?_
  rw [if_neg (hb ▸ Bool.false_ne_true)]
  exact hg

end Reads

/-- The first of the tokens at a cursor. -/
theorem rest_of_lexemes {s : Cursor} {l : Lexeme} (h : s.rest.map Token.lexeme = l :: rest) :
    ∃ t ts, s.rest = t :: ts ∧ t.lexeme = l ∧ ts.map Token.lexeme = rest :=
  List.map_eq_cons_iff.mp h

/-- Where a token is left, its tests are made. -/
theorem reads_atEnd {l : Lexeme} {m n : Parser β} (h : Reads n (l :: ls) rest R) :
    Reads (atEnd >>= fun ended => if ended = true then m else n) (l :: ls) rest R := by
  intro s hs
  obtain ⟨t, ts, hrest, -⟩ := rest_of_lexemes hs
  rw [Prog.bind_ok (atEnd_apply s), hrest]
  exact h s hs

theorem reads_token {l : Lexeme} {f : Token → Parser β}
    (h : ∀ t : Token, t.lexeme = l → Reads (f t) (l :: ls) rest R) :
    Reads (token >>= f) (l :: ls) rest R := by
  intro s hs
  obtain ⟨t, ts, hrest, ht, -⟩ := rest_of_lexemes hs
  rw [Prog.bind_ok (token_apply hrest)]
  exact h t ht s hs

theorem reads_advance {l : Lexeme} {f : Unit → Parser β} (h : Reads (f ()) ls rest R) :
    Reads (advance >>= f) (l :: ls) rest R := by
  intro s hs
  obtain ⟨t, ts, hrest, -, hts⟩ := rest_of_lexemes hs
  rw [Prog.bind_ok (advance_apply hrest)]
  exact h { s with rest := ts, previous := some t } hts

/-! ## Matches -/

section Matches

variable {p : Token → Prop} [DecidablePred p]

theorem reads_match {l : Lexeme} (hp : ∀ t : Token, t.lexeme = l → p t) :
    Reads (do
      if ← atEnd then Pure.pure false
      else
        let t ← token
        if p t then
          advance
          Pure.pure true
        else
          Pure.pure false) [l] rest (· = true) := by
  refine reads_atEnd (reads_token fun t ht => ?_)
  rw [if_pos (hp t ht)]
  exact reads_advance (Reads.pure rfl)

theorem reads_match_false (hp : ∀ t : Token, t.lexeme ∈ rest.head? → ¬ p t) :
    Reads (do
      if ← atEnd then Pure.pure false
      else
        let t ← token
        if p t then
          advance
          Pure.pure true
        else
          Pure.pure false) [] rest (· = false) := by
  intro s hs
  refine ⟨false, s, ?_, hs, rfl, rfl⟩
  rw [List.nil_append] at hs
  rw [Prog.bind_ok (atEnd_apply s)]
  cases hrest : s.rest with
  | nil => rfl
  | cons t ts =>
    have hhead : t.lexeme ∈ rest.head? := by
      rw [← hs, hrest]
      rfl
    rw [List.isEmpty_cons, if_neg Bool.false_ne_true, Prog.bind_ok (token_apply hrest),
      if_neg (hp t hhead)]
    rfl

end Matches

theorem reads_matchText (type : TokenType) (text : String) :
    Reads (matchText text) [⟨type, text⟩] rest (· = true) :=
  reads_match fun _ ht => congrArg Lexeme.text ht

theorem reads_matchType (type : TokenType) (text : String) :
    Reads (matchType type) [⟨type, text⟩] rest (· = true) :=
  reads_match fun _ ht => congrArg Lexeme.type ht

/-- No token of this text comes next. -/
def NotNext (text : String) (rest : List Lexeme) : Prop := ∀ l ∈ rest.head?, l.text ≠ text

/-- No token of this type comes next. -/
def TypeNotNext (type : TokenType) (rest : List Lexeme) : Prop :=
  ∀ l ∈ rest.head?, l.type ≠ type

theorem reads_matchText_false {text : String} (h : NotNext text rest) :
    Reads (matchText text) [] rest (· = false) :=
  reads_match_false fun t ht => h t.lexeme ht

theorem reads_matchType_false {type : TokenType} (h : TypeNotNext type rest) :
    Reads (matchType type) [] rest (· = false) :=
  reads_match_false fun t ht => h t.lexeme ht

theorem reads_expectText (type : TokenType) (text : String) :
    Reads (expectText text) [⟨type, text⟩] rest (fun _ => True) :=
  (reads_matchText type text).matched (Reads.pure trivial)

theorem reads_expectType (type : TokenType) (text what : String) :
    Reads (expectType type what) [⟨type, text⟩] rest (fun _ => True) :=
  (reads_matchType type text).matched (Reads.pure trivial)

theorem reads_previous : Reads previous [] rest (fun _ => True) :=
  fun s hs => ⟨s.previous, s, rfl, hs, rfl, trivial⟩

theorem reads_get : Reads Prog.get [] rest (fun _ => True) :=
  fun s hs => ⟨s, s, rfl, hs, rfl, trivial⟩

theorem reads_tokensLeft : Reads tokensLeft [] rest (· = rest.length) :=
  fun s hs => ⟨s.rest.length, s, rfl, hs, rfl, by simpa using congrArg List.length hs⟩

theorem reads_positionBefore (n : Nat) : Reads (positionBefore n) [] rest (fun _ => True) := by
  refine reads_previous.look fun t _ => ?_
  cases t <;> exact Reads.pure trivial

/-- A first part that looks whether one of some words comes next. -/
theorem reads_nextNames {γ : Type} {fromText : String → Option γ} {l : Lexeme}
    (h : fromText l.text = none) : Reads (nextNames fromText) [] (l :: rest) (· = none) := by
  intro s hs
  obtain ⟨t, ts, hrest, ht, -⟩ := rest_of_lexemes hs
  refine ⟨none, s, ?_, hs, rfl, rfl⟩
  rw [nextNames, Prog.bind_ok (atEnd_apply s), hrest, List.isEmpty_cons, if_neg Bool.false_ne_true,
    Prog.bind_ok (token_apply hrest)]
  have htext : t.text = l.text := congrArg Lexeme.text ht
  rw [htext, h]
  rfl

end Rules

/-! ## Names -/

section Names

variable {rest : List Lexeme}

theorem reads_readIdentifier (n : Name) (label : String) :
    Reads (readIdentifier label) [word n.text] rest (· = n.text) := by
  refine reads_atEnd (reads_token fun t ht => ?_)
  have htext : t.text = n.text := congrArg Lexeme.text ht
  have hkeyword : lowercaseKeyword t = false := by
    rw [lowercaseKeyword, htext, n.notReserved, Bool.and_false]
  rw [hkeyword, if_neg Bool.false_ne_true, htext, n.identifier, if_neg (by simp)]
  exact reads_advance (Reads.pure rfl)

theorem reads_parseColumnReference (c : ColumnName) (label : String)
    (hrest : TypeNotNext .dot rest) :
    Reads (parseColumnReference label) c.lexemes rest
      (· = (c.qualifier.elim "" Name.text, c.name.text)) := by
  unfold ColumnName.lexemes
  cases c.qualifier with
  | none =>
    refine (reads_readIdentifier c.name label).bind fun first hfirst => ?_
    refine (reads_matchType_false hrest).unmatched (Reads.pure ?_)
    rw [hfirst]
    rfl
  | some q =>
    refine (reads_readIdentifier q label).bind fun first hfirst => ?_
    refine (reads_matchType .dot ".").matched ?_
    refine (reads_readIdentifier c.name label).bind fun second hsecond => Reads.pure ?_
    rw [hfirst, hsecond]
    rfl

/-- A name is none of the words in upper case. -/
theorem Name.text_ne (n : Name) {text : String} (h : isIdentifier text = false) :
    n.text ≠ text := by
  intro heq
  rw [← heq, n.identifier] at h
  cases h

theorem ColumnName.lexemes_eq (c : ColumnName) :
    ∃ (n : Name) (ls : List Lexeme), c.lexemes = word n.text :: ls := by
  unfold ColumnName.lexemes
  cases c.qualifier with
  | none => exact ⟨c.name, _, rfl⟩
  | some q => exact ⟨q, _, rfl⟩

theorem aggregateFromText_name (n : Name) : aggregateFromText n.text = none := by
  have hmax : n.text ≠ "MAX" := n.text_ne (by decide)
  have hmin : n.text ≠ "MIN" := n.text_ne (by decide)
  have havg : n.text ≠ "AVG" := n.text_ne (by decide)
  have hsum : n.text ≠ "SUM" := n.text_ne (by decide)
  have hcount : n.text ≠ "COUNT" := n.text_ne (by decide)
  simp only [aggregateFromText, hmax, hmin, havg, hsum, hcount, if_false]

theorem reads_parseColumnExpression (c : ColumnName) (label : String)
    (hrest : TypeNotNext .dot rest) :
    Reads (parseColumnExpression label) c.lexemes rest (·.withoutPosition = c.expression "") := by
  have hnames : Reads (nextNames aggregateFromText) [] (c.lexemes ++ rest) (· = none) := by
    obtain ⟨n, ls, hls⟩ := c.lexemes_eq
    rw [hls]
    exact reads_nextNames (aggregateFromText_name n)
  refine hnames.look fun _ hnone => ?_
  rw [hnone]
  refine (reads_parseColumnReference c label hrest).last fun names hcolumn => ?_
  rw [hcolumn]
  refine reads_get.look fun s _ => ?_
  exact (reads_positionBefore _).look fun position _ => Reads.pure rfl

end Names

/-! ## Comparisons -/

section Comparisons

variable {rest : List Lexeme}

theorem operatorFromText_operatorText (op : QueryOperator) :
    operatorFromText (operatorText op) = some op := by
  cases op <;> decide

theorem reads_parseOperator (op : QueryOperator) :
    Reads parseOperator [⟨.op, operatorText op⟩] rest (· = op) := by
  refine reads_atEnd (reads_token fun t ht => ?_)
  have htype : t.type = .op := congrArg Lexeme.type ht
  have htext : t.text = operatorText op := congrArg Lexeme.text ht
  rw [htype, if_neg (fun h => h rfl)]
  refine reads_advance ?_
  rw [htext, operatorFromText_operatorText]
  exact Reads.pure rfl

/-- A value that is neither a word nor a subquery. -/
theorem reads_parseValueExpression_constant (parseText : ParseText) {type : TokenType}
    (text : String) (hparen : type ≠ .leftParen) (hword : type ≠ .word) :
    Reads (parseValueExpression parseText) [⟨type, text⟩] rest
      (·.withoutPosition = .literal text 0) := by
  refine reads_token fun t ht => ?_
  have htype : t.type = type := congrArg Lexeme.type ht
  have htext : t.text = text := congrArg Lexeme.text ht
  rw [htype, htext, if_neg hparen]
  refine reads_advance ?_
  rw [if_neg hword]
  exact Reads.pure rfl

/-- A value that is a word with no point behind it. -/
theorem reads_parseValueExpression_word (parseText : ParseText) (text : String)
    (hrest : TypeNotNext .dot rest) :
    Reads (parseValueExpression parseText) [word text] rest fun e => e.withoutPosition =
      if text ≠ "NULL" then .columnReference "" text text 0 else .literal text 0 := by
  refine reads_token fun t ht => ?_
  have htype : t.type = .word := congrArg Lexeme.type ht
  have htext : t.text = text := congrArg Lexeme.text ht
  rw [htype, htext, if_neg (by decide)]
  refine reads_advance ?_
  rw [if_pos rfl]
  refine (reads_matchType_false hrest).unmatched ?_
  split
  · exact Reads.pure rfl
  · exact Reads.pure rfl

theorem reads_parseValueExpression (parseText : ParseText) (o : Operand)
    (hrest : TypeNotNext .dot rest) :
    Reads (parseValueExpression parseText) o.lexemes rest (·.withoutPosition = o.expression) := by
  cases o with
  | literal l =>
    cases l with
    | number n => exact reads_parseValueExpression_constant parseText _ (by decide) (by decide)
    | quoted q => exact reads_parseValueExpression_constant parseText _ (by decide) (by decide)
    | null => exact reads_parseValueExpression_word parseText "NULL" hrest
  | column c =>
    show Reads (parseValueExpression parseText) c.lexemes rest
      (·.withoutPosition = c.expression c.text)
    unfold ColumnName.lexemes ColumnName.expression ColumnName.text
    cases c.qualifier with
    | none =>
      refine (reads_parseValueExpression_word parseText c.name.text hrest).mono fun e he => ?_
      rw [he, if_pos (c.name.text_ne (by decide))]
      rfl
    | some q =>
      refine reads_token fun t ht => ?_
      have htype : t.type = .word := congrArg Lexeme.type ht
      have htext : t.text = q.text := congrArg Lexeme.text ht
      rw [htype, htext, if_neg (by decide)]
      refine reads_advance ?_
      rw [if_pos rfl]
      refine (reads_matchType .dot ".").matched ?_
      refine (reads_readIdentifier c.name _).bind fun name hname => ?_
      rw [hname]
      exact Reads.pure rfl

/-- Only a word is written as a word. -/
theorem Lexeme.Plain.text_ne {l : Lexeme} (h : l.Plain) (htype : l.type ≠ .word) {text : String}
    (htext : (word text).Plain) : l.text ≠ text := by
  rintro rfl
  obtain ⟨c, cs, hchars, hstarts⟩ := Plain.starts h
  obtain ⟨d, ds, hchars', hletter⟩ := Plain.starts htext
  have hcd : d :: ds = c :: cs := hchars'.symm.trans hchars
  cases hcd
  by_cases hnumber : l.type = .number
  · rw [hnumber] at hstarts
    simp only [startsWith, Bool.or_eq_true, decide_eq_true_eq] at hstarts
    rcases hstarts with hdigit | rfl
    · rw [isDigit_of_isLetter hletter] at hdigit
      cases hdigit
    · cases hletter
  · have hother : ∀ x ∈ tokenStarts, c ≠ x := @ne_of_all isLetter c tokenStarts hletter rfl
    exact hother c (mem_tokenStarts_of_startsWith hstarts htype hnumber) rfl

/-- An operand starts with no word in upper case other than `NULL`. -/
theorem Operand.notNext (o : Operand) {text : String} (hname : isIdentifier text = false)
    (hplain : (word text).Plain) (hnull : "NULL" ≠ text) : NotNext text (o.lexemes ++ rest) := by
  intro l hl
  cases o with
  | literal a =>
    cases hl
    have ha := a.plain
    cases a with
    | null => exact hnull
    | number n => exact ha.text_ne (fun h => by cases h) hplain
    | quoted q => exact ha.text_ne (fun h => by cases h) hplain
  | column c =>
    obtain ⟨n, ls, hls⟩ := c.lexemes_eq
    have hhead : l ∈ (c.lexemes ++ rest).head? := hl
    rw [hls] at hhead
    cases hhead
    exact n.text_ne hname

theorem Operand.lexemes_eq (o : Operand) : ∃ l ls, o.lexemes = l :: ls := by
  cases o with
  | literal l => exact ⟨l.lexeme, [], rfl⟩
  | column c =>
    obtain ⟨n, ls, hls⟩ := c.lexemes_eq
    exact ⟨_, _, hls⟩

theorem operatorText_ne (op : QueryOperator) {text : String} (h : (word text).Plain) :
    operatorText op ≠ text :=
  (plain_operator op).text_ne (fun h => by cases h) h

theorem reads_parseAfterColumn (parseText : ParseText) (left : Select.QueryExpression)
    (op : QueryOperator) (right : Operand) (hrest : TypeNotNext .dot rest) :
    Reads (parseAfterColumn parseText left) (⟨.op, operatorText op⟩ :: right.lexemes) rest
      (·.withoutPositions = .comparison left.withoutPosition op right.expression) := by
  have hop : ∀ {text : String}, (word text).Plain →
      NotNext text (⟨.op, operatorText op⟩ :: right.lexemes ++ rest) := by
    intro text htext l hl
    cases hl
    exact operatorText_ne op htext
  refine (reads_matchText_false (hop (plain_keyword (by decide)))).unmatched ?_
  refine (reads_matchText_false (hop (plain_keyword (by decide)))).unmatched ?_
  refine (reads_matchText_false (hop (plain_keyword (by decide)))).unmatched ?_
  refine (reads_parseOperator op).bind fun op' hop' => ?_
  rw [hop']
  refine (reads_matchText_false (right.notNext (by decide) (plain_keyword (by decide))
    (by decide))).unmatched ?_
  refine (reads_matchText_false (right.notNext (by decide) (plain_keyword (by decide))
    (by decide))).unmatched ?_
  have hvalue := reads_parseValueExpression parseText right hrest
  obtain ⟨l, ls, hls⟩ := right.lexemes_eq
  rw [hls] at hvalue ⊢
  refine reads_atEnd ?_
  refine hvalue.last fun e he => Reads.pure ?_
  simp only [Select.QueryCondition.withoutPositions, he]

/-- A comparison, which starts with the name of a column. -/
theorem reads_parseComparisonWith_comparison (parseText : ParseText)
    (orExpression comparison : Parser Select.QueryCondition) (left : ColumnName) (op : QueryOperator)
    (right : Operand) (hrest : TypeNotNext .dot rest) :
    Reads (parseComparisonWith parseText orExpression comparison)
      (left.lexemes ++ ⟨.op, operatorText op⟩ :: right.lexemes) rest
      (·.withoutPositions = .comparison (left.expression "") op right.expression) := by
  obtain ⟨n, ls, hls⟩ := left.lexemes_eq
  have htype : TypeNotNext .leftParen
      (left.lexemes ++ ⟨.op, operatorText op⟩ :: right.lexemes ++ rest) := by
    rw [hls]
    intro l hl
    cases hl
    exact fun h => by cases h
  have htext : ∀ {text : String}, isIdentifier text = false → NotNext text
      (left.lexemes ++ ⟨.op, operatorText op⟩ :: right.lexemes ++ rest) := by
    intro text htext
    rw [hls]
    intro l hl
    cases hl
    exact n.text_ne htext
  refine (reads_matchType_false htype).unmatched ?_
  refine (reads_matchText_false (htext (by decide))).unmatched ?_
  refine (reads_matchText_false (htext (by decide))).unmatched ?_
  refine (reads_parseColumnExpression left _ ?_).bind fun e he => ?_
  · intro l hl
    cases hl
    exact fun h => by cases h
  · rw [← he]
    exact reads_parseAfterColumn parseText e op right hrest

end Comparisons

end ScratchDb.QueryParser
