import ScratchDb.Parser.ReadBack

/-!
# Conditions are read as they are written

The loops over `AND` and `OR` build a chain of operands from the left, as a tree
is written. From this a tree of any depth is read back from its tokens, and a
`SELECT` from its text.
-/

namespace ScratchDb.QueryParser

open Select

/-! ## Chains -/

/-- Operands with an operator between them, and the condition that is built from them, from the
left. -/
inductive Chained (operator : String)
    (node : Select.QueryCondition → Select.QueryCondition → Select.QueryCondition)
    (Operand : List Lexeme → Select.QueryCondition → Prop) :
    List Lexeme → Select.QueryCondition → Prop where
  | one {ls : List Lexeme} {c : Select.QueryCondition} : Operand ls c →
      Chained operator node Operand ls c
  | next {ls ls' : List Lexeme} {c c' : Select.QueryCondition} :
      Chained operator node Operand ls c → Operand ls' c' →
      Chained operator node Operand (ls ++ word operator :: ls') (node c c')

section Chains

variable {operator : String}
  {node : Select.QueryCondition → Select.QueryCondition → Select.QueryCondition}
  {Operand : List Lexeme → Select.QueryCondition → Prop} {Follow : List Lexeme → Prop}
  {operand : Parser Select.QueryCondition}

/-- The function reads each of the operands, where what follows it allows that. -/
def ReadsOperands (operand : Parser Select.QueryCondition)
    (Operand : List Lexeme → Select.QueryCondition → Prop) (Follow : List Lexeme → Prop) : Prop :=
  ∀ ls c rest, Operand ls c → Follow rest → Reads operand ls rest (·.withoutPositions = c)

/-- Behind the operands of a chain the loop goes on with the condition built from them, and with
more turns than tokens are left. -/
theorem parseChain_of_chained {ls : List Lexeme} {c : Select.QueryCondition}
    (h : Chained operator node Operand ls c) (hoperand : ReadsOperands operand Operand Follow)
    (hnode : ∀ c c', (node c c').withoutPositions = node c.withoutPositions c'.withoutPositions)
    (hoperator : ∀ rest, Follow (word operator :: rest)) :
    ∀ (rest : List Lexeme) (s : Cursor), Follow rest → s.rest.map Token.lexeme = ls ++ rest →
      ∃ a t turns, parseChain operator node operand s = chainLoop operator node operand turns a t ∧
        rest.length < turns ∧ t.rest.map Token.lexeme = rest ∧ t.calls = s.calls ∧
        a.withoutPositions = c := by
  induction h with
  | one h =>
    intro rest s hrest hs
    obtain ⟨a, t, ha, ht, hcalls, hq⟩ := hoperand _ _ rest h hrest s hs
    obtain ⟨n, u, hn, hu, hcalls', hlength⟩ := reads_tokensLeft t ht
    refine ⟨a, u, n + 1, ?_, ?_, hu, hcalls'.trans hcalls, hq⟩
    · rw [parseChain, Prog.bind_ok ha, Prog.bind_ok hn]
    · rw [hlength]
      exact Nat.lt_succ_self _
  | @next ls ls' c c' _ h' ih =>
    intro rest s hrest hs
    rw [List.append_assoc, List.cons_append] at hs
    obtain ⟨a, t, turns, ha, hturns, ht, hcalls, hq⟩ := ih _ s (hoperator _) hs
    cases turns with
    | zero => exact absurd hturns (Nat.not_lt_zero _)
    | succ turns =>
      obtain ⟨_, u, hmatch, hu, hcalls', rfl⟩ := reads_matchText .word operator t ht
      obtain ⟨b, v, hb, hv, hcalls'', hq'⟩ := hoperand _ _ rest h' hrest u hu
      refine ⟨node a b, v, turns, ?_, ?_, hv, hcalls''.trans (hcalls'.trans hcalls), ?_⟩
      · rw [ha, chainLoop, Prog.bind_ok hmatch, if_pos rfl, Prog.bind_ok hb]
      · simp only [List.length_cons, List.length_append] at hturns
        omega
      · rw [hnode, hq, hq']

/-- A chain is read up to a token that is not its operator. -/
theorem reads_parseChain {ls rest : List Lexeme} {c : Select.QueryCondition}
    (h : Chained operator node Operand ls c) (hoperand : ReadsOperands operand Operand Follow)
    (hnode : ∀ c c', (node c c').withoutPositions = node c.withoutPositions c'.withoutPositions)
    (hoperator : ∀ rest, Follow (word operator :: rest)) (hrest : Follow rest)
    (hend : NotNext operator rest) :
    Reads (parseChain operator node operand) ls rest (·.withoutPositions = c) := by
  intro s hs
  obtain ⟨a, t, turns, ha, hturns, ht, hcalls, hq⟩ :=
    parseChain_of_chained h hoperand hnode hoperator rest s hrest hs
  cases turns with
  | zero => exact absurd hturns (Nat.not_lt_zero _)
  | succ turns =>
    obtain ⟨_, u, hmatch, hu, hcalls', rfl⟩ := reads_matchText_false hend t ht
    refine ⟨a, u, ?_, hu, hcalls'.trans hcalls, hq⟩
    rw [ha, chainLoop, Prog.bind_ok hmatch, if_neg Bool.false_ne_true]
    rfl

end Chains

/-! ## Trees -/

/-- The tokens, no more than `n`, of a tree as an operand of `AND`. -/
def ComparisonOperand (n : Nat) (ls : List Lexeme) (c : Select.QueryCondition) : Prop :=
  ∃ t : Tree, ls = t.lexemes 2 ∧ ls.length ≤ n ∧ c = t.condition

def AndOperand (n : Nat) : List Lexeme → Select.QueryCondition → Prop :=
  Chained "AND" .and (ComparisonOperand n)

theorem length_and {left right : List Lexeme} {operator : Lexeme} {n : Nat}
    (h : (left ++ operator :: right).length ≤ n) : left.length ≤ n ∧ right.length ≤ n := by
  simp only [List.length_append, List.length_cons] at h
  omega

theorem Tree.andOperand (t : Tree) {n : Nat} (h : (t.lexemes 1).length ≤ n) :
    AndOperand n (t.lexemes 1) t.condition := by
  induction t with
  | and left right ihl ihr =>
    have hlength := length_and h
    exact Chained.next (ihl hlength.1) ⟨right, rfl, hlength.2, rfl⟩
  | comparison left op right => exact Chained.one ⟨.comparison left op right, rfl, h, rfl⟩
  | not child => exact Chained.one ⟨.not child, rfl, h, rfl⟩
  | or left right => exact Chained.one ⟨.or left right, rfl, h, rfl⟩

theorem Tree.orOperand (t : Tree) {n : Nat} (h : (t.lexemes 0).length ≤ n) :
    Chained "OR" .or (AndOperand n) (t.lexemes 0) t.condition := by
  induction t with
  | or left right ihl ihr =>
    have hlength := length_and h
    exact Chained.next (ihl hlength.1) (right.andOperand hlength.2)
  | comparison left op right => exact Chained.one (Tree.andOperand (.comparison left op right) h)
  | not child => exact Chained.one (Tree.andOperand (.not child) h)
  | and left right => exact Chained.one (Tree.andOperand (.and left right) h)

/-- The tokens behind a condition do not go on with it. -/
structure EndsCondition (rest : List Lexeme) : Prop where
  dot : TypeNotNext .dot rest
  and : NotNext "AND" rest
  or : NotNext "OR" rest

/-- What the functions for `AND` and `OR` read, with a function that reads their operands. -/
theorem reads_parseOrExpressionWith {n : Nat} {comparison : Parser Select.QueryCondition}
    (hcomparison : ReadsOperands comparison (ComparisonOperand n) (TypeNotNext .dot)) (t : Tree)
    (h : (t.lexemes 0).length ≤ n) {rest : List Lexeme} (hrest : EndsCondition rest) :
    Reads (parseOrExpressionWith comparison) (t.lexemes 0) rest
      (·.withoutPositions = t.condition) := by
  have hword : ∀ text rest, TypeNotNext .dot (word text :: rest) := by
    intro text rest l hl
    cases hl
    exact fun h => by cases h
  have hand : ReadsOperands (parseAndExpressionWith comparison) (AndOperand n)
      fun rest => TypeNotNext .dot rest ∧ NotNext "AND" rest := by
    intro ls c rest hc hfollow
    exact reads_parseChain hc hcomparison (fun _ _ => rfl) (hword "AND") hfollow.1 hfollow.2
  refine reads_parseChain (t.orOperand h) hand (fun _ _ => rfl) (fun rest => ⟨hword "OR" rest, ?_⟩)
    ⟨hrest.dot, hrest.and⟩ hrest.or
  intro l hl
  cases hl
  decide

/-- A tree in parentheses, or one that starts with `NOT` or a name. -/
theorem Tree.notNext_exists (t : Tree) (rest : List Lexeme) :
    NotNext "EXISTS" (t.lexemes 2 ++ rest) := by
  intro l hl
  cases t with
  | comparison left op right =>
    obtain ⟨n, ls, hls⟩ := left.lexemes_eq
    have hhead : l ∈ (left.lexemes ++ ⟨.op, operatorText op⟩ :: right.lexemes ++ rest).head? := hl
    rw [hls] at hhead
    cases hhead
    exact n.text_ne (by decide)
  | not child =>
    cases hl
    decide
  | and left right =>
    cases hl
    decide
  | or left right =>
    cases hl
    decide

/-- A tree between parentheses. -/
theorem reads_group {n : Nat} {parseText : ParseText} {comparison : Parser Select.QueryCondition}
    (hcomparison : ReadsOperands comparison (ComparisonOperand n) (TypeNotNext .dot)) (t : Tree)
    (h : (t.lexemes 0).length ≤ n) (rest : List Lexeme) :
    Reads (parseComparisonWith parseText (parseOrExpressionWith comparison) comparison)
      (⟨.leftParen, "("⟩ :: (t.lexemes 0 ++ [⟨.rightParen, ")"⟩])) rest
      (·.withoutPositions = t.condition) := by
  have hends : EndsCondition ([⟨.rightParen, ")"⟩] ++ rest) := by
    refine ⟨?_, ?_, ?_⟩
    · intro l hl
      cases hl
      decide
    · intro l hl
      cases hl
      decide
    · intro l hl
      cases hl
      decide
  refine (reads_matchType .leftParen "(").matched ?_
  refine (reads_parseOrExpressionWith hcomparison t h hends).bind fun c hc => ?_
  exact (reads_expectType .rightParen ")" ")").bind fun _ _ => Reads.pure hc

theorem Tree.length_pos (t : Tree) : 0 < (t.lexemes 2).length := by
  cases t with
  | comparison left op right =>
    obtain ⟨n, ls, hls⟩ := left.lexemes_eq
    show 0 < (left.lexemes ++ ⟨.op, operatorText op⟩ :: right.lexemes).length
    rw [hls]
    exact Nat.succ_pos _
  | not child => exact Nat.succ_pos _
  | and left right => exact Nat.succ_pos _
  | or left right => exact Nat.succ_pos _

theorem length_group {ls : List Lexeme} {n : Nat}
    (h : (⟨.leftParen, "("⟩ :: (ls ++ [⟨.rightParen, ")"⟩]) : List Lexeme).length ≤ n + 1) :
    ls.length ≤ n := by
  simp only [List.length_cons, List.length_append, List.length_nil] at h
  omega

/-- An operand is read where as many levels are left as it has tokens. -/
theorem readsOperands_parseComparison (parseText : ParseText) (n : Nat) :
    ReadsOperands (parseComparison parseText n) (ComparisonOperand n) (TypeNotNext .dot) := by
  induction n with
  | zero =>
    rintro ls c rest ⟨t, rfl, hlength, rfl⟩ -
    exact absurd hlength (Nat.not_le_of_lt t.length_pos)
  | succ n ih =>
    rintro ls c rest ⟨t, rfl, hlength, rfl⟩ hrest
    rw [parseComparison]
    cases t with
    | comparison left op right =>
      exact reads_parseComparisonWith_comparison parseText _ _ left op right hrest
    | not child =>
      have hchild := ih _ _ rest ⟨child, rfl, Nat.le_of_succ_le_succ hlength, rfl⟩ hrest
      have hparen : TypeNotNext .leftParen (word "NOT" :: child.lexemes 2 ++ rest) := by
        intro l hl
        cases hl
        decide
      refine (reads_matchType_false hparen).unmatched ?_
      refine (reads_matchText .word "NOT").matched ?_
      refine (reads_matchText_false (child.notNext_exists rest)).unmatched ?_
      refine hchild.last fun c hc => Reads.pure ?_
      simp only [Select.QueryCondition.withoutPositions, hc, Tree.condition]
    | and left right => exact reads_group ih (.and left right) (length_group hlength) rest
    | or left right => exact reads_group ih (.or left right) (length_group hlength) rest

/-- A condition of any depth is read back. -/
theorem reads_parseConditionExpression (parseText : ParseText) (t : Tree) {rest : List Lexeme}
    (hrest : EndsCondition rest) :
    Reads (parseConditionExpression parseText) (t.lexemes 0) rest
      (·.withoutPositions = t.condition) := by
  refine reads_tokensLeft.look fun n hn => ?_
  refine reads_parseOrExpressionWith (readsOperands_parseComparison parseText (n + 1)) t ?_ hrest
  rw [hn, List.length_append]
  omega

theorem reads_parseConditionAfter (parseText : ParseText) (keyword : String) (t : Tree)
    {rest : List Lexeme} (hrest : EndsCondition rest) :
    Reads (parseConditionAfter parseText keyword) (word keyword :: t.lexemes 0) rest fun c =>
      c.map Select.QueryCondition.withoutPositions = some t.condition := by
  refine (reads_matchText .word keyword).matched ?_
  refine (reads_parseConditionExpression parseText t hrest).last fun c hc => Reads.pure ?_
  rw [Option.map_some, hc]

/-! ## Selects -/

section Selects

variable {α : Type} {rest : List Lexeme}

theorem notNext_nil (text : String) : NotNext text [] := by
  intro l hl
  cases hl

/-- A loop or a clause that a word would start, with another word next. -/
theorem notNext_word {text next : String} (h : next ≠ text) : NotNext text (word next :: rest) := by
  intro l hl
  cases hl
  exact h

theorem reads_parseAlias {label : String} (h : NotNext "AS" rest) :
    Reads (parseAlias label) [] rest (· = "") :=
  (reads_matchText_false h).unmatched (Reads.pure rfl)

theorem reads_parseConditionAfter_none {parseText : ParseText} {keyword : String}
    (h : NotNext keyword rest) : Reads (parseConditionAfter parseText keyword) [] rest (· = none) :=
  (reads_matchText_false h).unmatched (Reads.pure rfl)

theorem reads_parseBy_nil {keyword : String} {column : Parser α} (h : NotNext keyword rest) :
    Reads (parseBy keyword column) [] rest (· = []) :=
  (reads_matchText_false h).unmatched (Reads.pure rfl)

theorem reads_parseLimitClause_none (h : NotNext "LIMIT" rest) :
    Reads parseLimitClause [] rest (· = none) :=
  (reads_matchText_false h).unmatched (Reads.pure rfl)

theorem reads_matchOneOf_false {texts : List String} (h : ∀ text ∈ texts, NotNext text rest) :
    Reads (matchOneOf texts) [] rest (· = false) := by
  induction texts with
  | nil => exact Reads.pure rfl
  | cons text texts ih =>
    refine (reads_matchText_false (h text List.mem_cons_self)).unmatched ?_
    exact ih fun other hother => h other (List.mem_cons_of_mem text hother)

theorem reads_matchedToken_none {matched : Parser Bool} (h : Reads matched [] rest (· = false)) :
    Reads (matchedToken matched) [] rest (· = none) :=
  h.unmatched (Reads.pure rfl)

/-- A table without an alias. -/
theorem reads_parseFromSource (parseText : ParseText) (n : Name) (h : NotNext "AS" rest) :
    Reads (parseFromSource parseText) [word n.text] rest (· = (n.text, "", none)) := by
  have hnone : ∀ {rest' : List Lexeme}, Reads (matchedToken (matchType .leftParen)) []
      (word n.text :: rest') (· = none) := by
    intro rest'
    refine reads_matchedToken_none (reads_matchType_false fun l hl => ?_)
    cases hl
    exact fun h => by cases h
  refine hnone.look fun _ hopened => ?_
  rw [hopened]
  have href : Reads parseTableReference [word n.text] rest (· = (n.text, "")) := by
    refine hnone.look fun _ hopened => ?_
    rw [hopened]
    refine (reads_readIdentifier n _).bind fun name hname => ?_
    refine (reads_parseAlias h).look fun tableAlias halias => Reads.pure ?_
    rw [hname, halias]
  refine href.last fun names hnames => Reads.pure ?_
  rw [hnames]

theorem reads_parseJoins_nil {parseText : ParseText} (hcomma : TypeNotNext .comma rest)
    (hjoin : ∀ text ∈ ["LEFT", "RIGHT", "JOIN"], NotNext text rest)
    (hnatural : NotNext "NATURAL" rest) : Reads (parseJoins parseText) [] rest (· = []) := by
  refine reads_tokensLeft.look fun n _ => ?_
  refine (reads_matchType_false hcomma).unmatched ?_
  refine (reads_matchOneOf_false hjoin).unmatched ?_
  exact (reads_matchText_false hnatural).unmatched (Reads.pure rfl)

/-- A query without any clause but this condition. -/
def selectWhere (name : String) (c : Select.QueryCondition) : ParsedQuery :=
  { ParsedQuery.allOf name with condition := some c }

/-- The query has this name and this condition, and nothing else. -/
def SelectsWhere (n : Name) (t : Tree) (q : ParsedQuery) : Prop :=
  ∃ c : Select.QueryCondition, q = selectWhere n.text c ∧ c.withoutPositions = t.condition

theorem endsCondition_nil : EndsCondition [] where
  dot l hl := by cases hl
  and := notNext_nil "AND"
  or := notNext_nil "OR"

theorem reads_endOrError (a : α) : Reads (endOrError a) [] [] (· = a) := by
  intro s hs
  refine ⟨a, s, ?_, hs, rfl, rfl⟩
  rw [endOrError, Prog.bind_ok (atEnd_apply s), List.map_eq_nil_iff.mp hs]
  rfl

/-- All columns of a table, where a tree holds. -/
theorem reads_parseSingleSelect (parseText : ParseText) (n : Name) (t : Tree) :
    Reads (parseSingleSelect parseText)
      ([⟨.star, "*"⟩, word "FROM", word n.text, word "WHERE"] ++ t.lexemes 0) []
      (SelectsWhere n t) := by
  have hstar : Reads parseSelectList [⟨.star, "*"⟩]
      ([word "FROM", word n.text, word "WHERE"] ++ t.lexemes 0 ++ []) (· = (true, [])) :=
    (reads_matchType .star "*").matched (Reads.pure rfl)
  have hsource : Reads (parseFromSource parseText) [word n.text]
      (word "WHERE" :: t.lexemes 0 ++ []) (· = (n.text, "", none)) :=
    reads_parseFromSource parseText n (notNext_word (by decide))
  have hjoins : Reads (parseJoins parseText) [] (word "WHERE" :: t.lexemes 0 ++ []) (· = []) := by
    refine reads_parseJoins_nil ?_ (fun text htext => notNext_word ?_) (notNext_word (by decide))
    · intro l hl
      cases hl
      exact fun h => by cases h
    · rintro rfl
      exact absurd htext (by decide)
  refine hstar.bind fun list hlist => ?_
  rw [hlist]
  refine (reads_expectText .word "FROM").bind fun _ _ => ?_
  refine hsource.bind fun source hsource' => ?_
  rw [hsource']
  refine hjoins.look fun joins hjoins' => ?_
  rw [hjoins']
  refine (reads_parseConditionAfter parseText "WHERE" t endsCondition_nil).last fun c hc => ?_
  refine (reads_parseBy_nil (notNext_nil _)).look fun groupBy hgroupBy => ?_
  refine (reads_parseConditionAfter_none (notNext_nil _)).look fun having hhaving => ?_
  refine (reads_parseBy_nil (notNext_nil _)).look fun orderBy horderBy => ?_
  refine (reads_parseLimitClause_none (notNext_nil _)).look fun limit hlimit => Reads.pure ?_
  obtain ⟨condition, rfl, hcondition⟩ := Option.map_eq_some_iff.mp hc
  refine ⟨condition, ?_, hcondition⟩
  rw [hgroupBy, hhaving, horderBy, hlimit]
  rfl

theorem reads_parseCompoundSelect (parseText : ParseText) (n : Name) (t : Tree) :
    Reads (parseCompoundSelect parseText)
      ([⟨.star, "*"⟩, word "FROM", word n.text, word "WHERE"] ++ t.lexemes 0) []
      (SelectsWhere n t) := by
  have hcompound : ∀ turns,
      Reads (compoundLoop parseText (turns + 1)) [] [] (· = none) := by
    intro turns
    have hnone : Reads (matchedToken (matchOneOf ["UNION", "INTERSECT"])) [] [] (· = none) :=
      reads_matchedToken_none (reads_matchOneOf_false fun text _ => notNext_nil text)
    refine hnone.look fun _ hword => ?_
    rw [hword]
    exact Reads.pure rfl
  refine (reads_parseSingleSelect parseText n t).last fun q hq => ?_
  refine reads_tokensLeft.look fun turns _ => ?_
  refine (hcompound turns).look fun compound hnone => ?_
  refine (reads_endOrError _).mono fun q' hq' => ?_
  obtain ⟨c, rfl, hc⟩ := hq
  rw [hq', hnone]
  exact ⟨c, rfl, hc⟩

/-- The tokens of a `SELECT` with a tree as its condition. -/
def selectLexemes (n : Name) (t : Tree) : List Lexeme :=
  [word "SELECT", ⟨.star, "*"⟩, word "FROM", word n.text, word "WHERE"] ++ t.lexemes 0

theorem reads_parseSelect (parseText : ParseText) (n : Name) (t : Tree) :
    Reads (parseSelect parseText)
      ([⟨.star, "*"⟩, word "FROM", word n.text, word "WHERE"] ++ t.lexemes 0) []
      fun command => ∃ q, command = .selectAll q ∧ SelectsWhere n t q :=
  (reads_parseCompoundSelect parseText n t).last fun q hq => Reads.pure ⟨q, rfl, hq⟩

theorem reads_parse (parseText : ParseText) (n : Name) (t : Tree) :
    Reads (parse parseText) (selectLexemes n t) []
      fun command => ∃ q, command = .selectAll q ∧ SelectsWhere n t q := by
  have hother : ∀ {text : String}, "SELECT" ≠ text → NotNext text (selectLexemes n t ++ []) :=
    fun h => notNext_word h
  have hothers : ∀ {texts : List String}, "SELECT" ∉ texts →
      ∀ text ∈ texts, NotNext text (selectLexemes n t ++ []) :=
    fun h text htext => hother fun heq => h (heq ▸ htext)
  refine reads_atEnd (reads_token fun first hfirst => ?_)
  have hkeyword : lowercaseKeyword first = false := by
    rw [lowercaseKeyword, show first.text = "SELECT" from congrArg Lexeme.text hfirst,
      show isLowercaseKeyword "SELECT" = false by decide, Bool.and_false]
  rw [hkeyword, if_neg Bool.false_ne_true, parseKnown]
  refine (reads_matchOneOf_false (hothers (by decide))).unmatched ?_
  refine (reads_matchText_false (hother (by decide))).unmatched ?_
  refine (reads_matchText_false (hother (by decide))).unmatched ?_
  refine (reads_matchText_false (hother (by decide))).unmatched ?_
  refine (reads_matchText_false (hother (by decide))).unmatched ?_
  refine (reads_matchText_false (hother (by decide))).unmatched ?_
  refine (reads_matchText_false (hother (by decide))).unmatched ?_
  refine (reads_matchText_false (hother (by decide))).unmatched ?_
  refine (reads_matchText_false (hother (by decide))).unmatched ?_
  refine (reads_matchText_false (hother (by decide))).unmatched ?_
  refine (reads_matchOneOf_false (hothers (by decide))).unmatched ?_
  refine (reads_matchText_false (hother (by decide))).unmatched ?_
  refine (reads_matchText .word "SELECT").matched ?_
  exact reads_parseSelect parseText n t

theorem plain_selectLexemes (n : Name) (t : Tree) : ∀ l ∈ selectLexemes n t, l.Plain := by
  have hstar : Lexeme.Plain ⟨.star, "*"⟩ := Plain.star
  refine List.forall_mem_append.mpr ⟨?_, t.plain 0⟩
  simpa using ⟨plain_keyword (by decide), hstar, plain_keyword (by decide), n.plain,
    plain_keyword (by decide)⟩

theorem closes_selectLexemes (n : Name) (t : Tree) : closes (selectLexemes n t) 0 := by
  show closes (t.lexemes 0) 0
  rw [← List.append_nil (t.lexemes 0), t.balanced 0]
  rfl

end Selects

/-- A condition is read back from its tokens, whatever follows it, and from each text that a
`SELECT` may be written as with it. -/
theorem condition_read_back (t : Tree) :
    (∀ (parseText : ParseText) (rest : List Lexeme) (s : Cursor), EndsCondition rest →
      s.rest.map Token.lexeme = t.lexemes 0 ++ rest →
      ∃ c u, parseConditionExpression parseText s = (.ok c, u) ∧
        u.rest.map Token.lexeme = rest ∧ u.calls = s.calls ∧
        c.withoutPositions = t.condition) ∧
    ∀ (n : Name) (text : List Char), Renders (selectLexemes n t) text →
      ∃ c : Select.QueryCondition,
        parseWithError text = (.ok (.selectAll (selectWhere n.text c)), []) ∧
        c.withoutPositions = t.condition := by
  constructor
  · intro parseText rest s hrest hs
    exact reads_parseConditionExpression parseText t hrest s hs
  · intro n text h
    obtain ⟨tokens, htokens, hlexemes⟩ :=
      tokenize_renders h (plain_selectLexemes n t) (closes_selectLexemes n t)
    let s : Cursor := { command := text, rest := tokens, previous := none, calls := [] }
    obtain ⟨command, u, hrun, -, hcalls, q, rfl, c, rfl, hc⟩ :=
      reads_parse (parseLevels text.length) n t s (hlexemes.trans (List.append_nil _).symm)
    refine ⟨c, ?_, hc⟩
    simp only [parseWithError, parseLevels, htokens]
    show ((parse (parseLevels text.length) s).1, (parse (parseLevels text.length) s).2.calls) = _
    rw [hrun, hcalls]

/-! ## A condition of two levels -/

/-- `NOT (a = 1 OR t.b = 'x')`. -/
def notEither : Tree :=
  .not (.or
    (.comparison ⟨none, ⟨"a", by decide, by decide⟩⟩ .equal
      (.literal (.number ⟨false, '1', [], [], List.all_eq_true.mp rfl, .inl rfl⟩)))
    (.comparison ⟨some ⟨"t", by decide, by decide⟩, ⟨"b", by decide, by decide⟩⟩ .equal
      (.literal (.quoted ⟨'\'', ['x'], .inl rfl, by simp⟩))))

theorem renders_notEither : Renders (selectLexemes ⟨"t", by decide, by decide⟩ notEither)
    "SELECT * FROM t WHERE NOT(a=1 OR t.b = 'x')".toList :=
  @Renders.next [] _ _ _ rfl rfl <| @Renders.next [' '] _ _ _ rfl rfl <|
  @Renders.next [' '] _ _ _ rfl rfl <| @Renders.next [' '] _ _ _ rfl rfl <|
  @Renders.next [' '] _ _ _ rfl rfl <| @Renders.next [' '] _ _ _ rfl rfl <|
  @Renders.next [] _ _ _ rfl rfl <| @Renders.next [] _ _ _ rfl rfl <|
  @Renders.next [] _ _ _ rfl rfl <| @Renders.next [] _ _ _ rfl rfl <|
  @Renders.next [' '] _ _ _ rfl rfl <| @Renders.next [' '] _ _ _ rfl rfl <|
  @Renders.next [] _ _ _ rfl rfl <| @Renders.next [] _ _ _ rfl rfl <|
  @Renders.next [' '] _ _ _ rfl rfl <| @Renders.next [' '] _ _ _ rfl rfl <|
  @Renders.next [] _ _ _ rfl rfl <| .nil fun _ hc => absurd hc List.not_mem_nil

/-- The tokens of `notEither`, all at position 0. -/
def cursorAtNotEither : Cursor where
  command := []
  rest := (notEither.lexemes 0).map fun l => ⟨l.type, l.text, 0⟩
  previous := none
  calls := []

theorem condition_read_back_notEither :
    (∃ c u, parseConditionExpression parseWithError cursorAtNotEither = (.ok c, u) ∧
      u.rest.map Token.lexeme = [] ∧ u.calls = [] ∧
      c.withoutPositions = notEither.condition) ∧
    ∃ c : Select.QueryCondition,
      parseWithError "SELECT * FROM t WHERE NOT(a=1 OR t.b = 'x')".toList =
        (.ok (.selectAll (selectWhere "t" c)), []) ∧
      c.withoutPositions = notEither.condition :=
  ⟨(condition_read_back notEither).1 parseWithError [] cursorAtNotEither endsCondition_nil rfl,
    (condition_read_back notEither).2 ⟨"t", by decide, by decide⟩ _ renders_notEither⟩

end ScratchDb.QueryParser
