import ScratchDb.Parser.SelectTexts

/-!
# Conditions with subqueries are read as they are written

A subquery is parsed from its own text, so what is assumed of it is that the parser
of texts reads each query of the grammar that is nested in this one.
-/

namespace ScratchDb.QueryParser

open Select

variable {α β : Type} {command : List Char} {ls rest : List Lexeme} {parseText : ParseText}
  {Nested : List Lexeme → ParsedQuery → Prop}

/-! ## Subqueries -/

/-- The nested queries can be written, and those that are shorter than the command are read. -/
structure ReadsNested (command : List Char) (parseText : ParseText)
    (Nested : List Lexeme → ParsedQuery → Prop) : Prop where
  written : ∀ ls q, Nested ls q → Written ls
  reads : ∀ ls q text, Nested ls q → Renders ls text → text.length < command.length →
    ∃ q', (parseText text).1 = .ok (.selectAll q') ∧ q'.erased = q

theorem Written.closes {ls : List Lexeme} (h : Written ls) : closes ls 0 := by
  rw [← List.append_nil ls, h.balanced]
  rfl

/-- A nested query between parentheses. -/
theorem selectText_eq (hnested : ReadsNested command parseText Nested) {q : ParsedQuery}
    (h : Nested ls q) (what : String) {s : Cursor} (hs : s.Stands command (inParens ls ++ rest)) :
    ∃ opened t r u, matchedToken (matchType .leftParen) s = (.ok (some opened), t) ∧
      parseSelectText parseText what opened t = (.ok r, u) ∧ u.Stands command rest ∧
      r.1.erased = q := by
  have hwritten := hnested.written ls q h
  have hs' : s.Stands command (⟨.leftParen, "("⟩ :: (ls ++ ⟨.rightParen, ")"⟩ :: rest)) := by
    rwa [inParens, List.cons_append, List.append_assoc] at hs
  obtain ⟨opened, t, inner, u, hopened, hinner, hu, hrenders, hlength⟩ :=
    textToClose_eq hs' hwritten.plain hwritten.closes
  obtain ⟨q', hq', herased⟩ := hnested.reads ls q inner h hrenders hlength
  -- the calls of the nested parser are noted in front of those before
  let v : Cursor := { u with calls := (parseText inner).2 ++ u.calls }
  have hparse : parseNested parseText inner (opened.position + 1) u = (.ok (.selectAll q'), v) := by
    rw [parseNested, hq']
  refine ⟨opened, t, (q', String.ofList inner, opened.position), v, hopened, ?_,
    ⟨hu.command, hu.placed, hu.lexemes⟩, herased⟩
  rw [parseSelectText, Prog.bind_ok hinner, Prog.bind_ok hparse]
  rfl

theorem scans_parseSubquery (hnested : ReadsNested command parseText Nested) {q : ParsedQuery}
    (h : Nested ls q) :
    Scans command (parseSubquery parseText) (inParens ls) rest (·.1.erased = q) := by
  intro s hs
  obtain ⟨opened, t, r, u, hopened, hr, hu, herased⟩ := selectText_eq hnested h "subquery" hs
  refine ⟨r, u, ?_, hu, herased⟩
  rw [parseSubquery, Prog.bind_ok hopened]
  exact hr

/-! ## Values -/

theorem Operand.erased_of_withoutPosition {o : Operand} {e : Select.QueryExpression}
    (h : e.withoutPosition = o.expression) : e.erased = o.expression := by
  rw [← h]
  cases e with
  | scalarSubquery text query position => cases o <;> cases h
  | _ => rfl

theorem scans_valueExpression (hnested : ReadsNested command parseText Nested)
    {e : Select.QueryExpression} (h : ValueText Nested ls e) (hrest : TypeNotNext .dot rest) :
    Scans command (parseValueExpression parseText) ls rest (·.erased = e) := by
  cases h with
  | operand o =>
    refine ((reads_parseValueExpression parseText o hrest).scans
      (.parseValueExpression parseText)).mono fun e he => ?_
    exact o.erased_of_withoutPosition he
  | @subquery ls q h =>
    intro s hs
    obtain ⟨r, t, hr, ht, herased⟩ := scans_parseSubquery hnested h s hs
    obtain ⟨opened, ts, hrest', hopened, -⟩ := List.map_eq_cons_iff.mp hs.lexemes
    have htype : opened.type = .leftParen := congrArg Lexeme.type hopened
    refine ⟨.scalarSubquery r.2.1 r.1 r.2.2, t, ?_, ht, ?_⟩
    · rw [parseValueExpression, Prog.bind_ok (token_apply hrest'), if_pos htype,
        parseSubqueryExpression, Prog.bind_ok hr]
      rfl
    · show Select.QueryExpression.scalarSubquery "" r.1.erased 0 = _
      rw [herased]

/-- What a value starts with. -/
theorem ValueText.starts {e : Select.QueryExpression} (h : ValueText Nested ls e) :
    ∃ l ls', ls = l :: ls' ∧ l.text ≠ "ANY" ∧ l.text ≠ "ALL" := by
  cases h with
  | operand o =>
    obtain ⟨l, ls', hls⟩ := o.lexemes_eq
    have hany := @Operand.notNext [] o "ANY" (by decide) (plain_keyword (by decide)) (by decide)
    have hall := @Operand.notNext [] o "ALL" (by decide) (plain_keyword (by decide)) (by decide)
    rw [hls] at hany hall
    exact ⟨l, ls', hls, hany l rfl, hall l rfl⟩
  | subquery h => exact ⟨_, _, rfl, by decide, by decide⟩

/-! ## Comparisons -/

theorem ColumnName.erased_of_withoutPosition {c : ColumnName} {e : Select.QueryExpression}
    {text : String} (h : e.withoutPosition = c.expression text) : e.erased = c.expression text := by
  rw [← h]
  cases e with
  | scalarSubquery text query position => cases h
  | _ => rfl

theorem scans_columnExpression {e : Select.QueryExpression} (h : ColumnText ls e)
    (hrest : TypeNotNext .dot rest) :
    Scans command (parseColumnExpression "column name") ls rest (·.erased = e) := by
  refine Scans.mono (Q := fun e' => e'.erased = e) (Reads.scans ?_ (.parseColumnExpression _))
    fun _ h => h
  cases h with
  | column c =>
    exact (reads_parseColumnExpression c _ hrest).mono fun e he => c.erased_of_withoutPosition he
  | aggregate h =>
    obtain ⟨text, ls', rfl, hfunction, hreads⟩ := h.reads "column name"
    refine (reads_nextNames_eq (word text)).look fun function hfound => ?_
    rw [hfound, show (word text).text = text from rfl, hfunction]
    refine reads_takeToken fun t ht => ?_
    refine (hreads rest).last fun names hnames => Reads.pure ?_
    rw [hnames]
    rfl

theorem aggregateText_ne (function : QueryAggregateFunction) :
    aggregateText function ≠ "NOT" ∧ aggregateText function ≠ "EXISTS" := by
  cases function <;> decide

/-- What the left side of a comparison starts with. -/
theorem ColumnText.starts {e : Select.QueryExpression} (h : ColumnText ls e) :
    ∃ text ls', ls = word text :: ls' ∧ text ≠ "NOT" ∧ text ≠ "EXISTS" := by
  cases h with
  | column c =>
    obtain ⟨n, ls', hls⟩ := c.lexemes_eq
    exact ⟨n.text, ls', hls, n.text_ne (by decide), n.text_ne (by decide)⟩
  | aggregate h =>
    cases h with
    | column c hfunction => exact ⟨_, _, rfl, aggregateText_ne _⟩
    | countAll => exact ⟨_, _, rfl, by decide, by decide⟩

theorem scans_bound (hnested : ReadsNested command parseText Nested)
    {e : Select.QueryExpression} (h : ValueText Nested ls e) (hrest : TypeNotNext .dot rest) :
    Scans command (parseBound parseText) ls rest (·.erased = e) := by
  refine (reads_tokensLeft.scans .tokensLeft).look fun n _ => ?_
  refine Scans.look (Q := fun _ => True) ?_ fun _ _ => scans_valueExpression hnested h hrest
  -- a noted call does not move the cursor
  intro s hs
  exact ⟨(), { s with calls := .bound n :: s.calls }, rfl, ⟨hs.command, hs.placed, hs.lexemes⟩,
    trivial⟩

theorem scans_subqueryTest (hnested : ReadsNested command parseText Nested) {q : ParsedQuery}
    (h : Nested ls q) (left : Select.QueryExpression) (test : SubqueryTest) :
    Scans command (parseSubqueryTest parseText left test) (inParens ls) rest
      (·.erased = .subquery left.erased test q) := by
  refine (scans_parseSubquery hnested h).last fun r hr => Scans.pure ?_
  rw [Select.QueryCondition.erased, hr]

/-- What follows the left side. -/
theorem scans_parseAfterColumn (hnested : ReadsNested command parseText Nested)
    {left : Select.QueryExpression} {c : Select.QueryCondition}
    (h : TestText Nested left.erased ls c) (hrest : TypeNotNext .dot rest) :
    Scans command (parseAfterColumn parseText left) ls rest (·.erased = c) := by
  have hop : ∀ (op : QueryOperator) {text : String} (ls : List Lexeme), (word text).Plain →
      NotNext text (⟨.op, operatorText op⟩ :: ls) := by
    intro op text ls htext l hl
    cases hl
    exact operatorText_ne op htext
  -- an operator, and what follows it
  have hafter : ∀ (op : QueryOperator) {ls : List Lexeme} {c : Select.QueryCondition},
      Scans command (do
        if ← matchText "ANY" then parseSubqueryTest parseText left (.any op)
        else if ← matchText "ALL" then parseSubqueryTest parseText left (.all op)
        else if ← atEnd then failAtEnd "expected value"
        else
          let right ← parseValueExpression parseText
          pure (.comparison left op right)) ls rest (·.erased = c) →
      Scans command (parseAfterColumn parseText left) (⟨.op, operatorText op⟩ :: ls) rest
        (·.erased = c) := by
    intro op ls c hscans
    refine Scans.unmatched (reads_matchText_false (hop op _ (plain_keyword (by decide))))
      (.matchText _) ?_
    refine Scans.unmatched (reads_matchText_false (hop op _ (plain_keyword (by decide))))
      (.matchText _) ?_
    refine Scans.unmatched (reads_matchText_false (hop op _ (plain_keyword (by decide))))
      (.matchText _) ?_
    refine ((reads_parseOperator op).scans .parseOperator).bind fun op' hop' => ?_
    rw [hop']
    exact hscans
  cases h with
  | @comparison ls right op h =>
    refine hafter op ?_
    obtain ⟨l, ls', rfl, hany, hall⟩ := h.starts
    have hnot : ∀ {text : String}, l.text ≠ text → NotNext text (l :: ls' ++ rest) := by
      intro text htext l' hl'
      cases hl'
      exact htext
    refine Scans.unmatched (reads_matchText_false (hnot hany)) (.matchText _) ?_
    refine Scans.unmatched (reads_matchText_false (hnot hall)) (.matchText _) ?_
    have hmore : Scans command atEnd [] (l :: ls' ++ rest) (· = false) := by
      intro s hs
      obtain ⟨t, ts, hrest', -, -⟩ := List.map_eq_cons_iff.mp hs.lexemes
      exact ⟨false, s, by rw [atEnd_apply, hrest']; rfl, hs, rfl⟩
    refine hmore.look fun ended hended => ?_
    rw [hended, if_neg Bool.false_ne_true]
    refine (scans_valueExpression hnested h hrest).last fun e he => Scans.pure ?_
    rw [Select.QueryCondition.erased, he]
  | between h h' =>
    have hand : ∀ ls, TypeNotNext .dot (word "AND" :: ls ++ rest) := by
      intro ls l hl
      cases hl
      decide
    refine Scans.matched (reads_matchText .word "BETWEEN") (.matchText _) ?_
    refine (scans_bound hnested h (hand _)).bind fun lower hlower => ?_
    refine ((reads_expectText .word "AND").scans (.expectText _)).bind fun _ _ => ?_
    refine (scans_bound hnested h' hrest).last fun upper hupper => Scans.pure ?_
    simp only [Select.QueryCondition.erased, hlower, hupper]
  | isIn h =>
    refine Scans.unmatched (reads_matchText_false (notNext_word (by decide))) (.matchText _) ?_
    refine Scans.unmatched (reads_matchText_false (notNext_word (by decide))) (.matchText _) ?_
    refine Scans.matched (reads_matchText .word "IN") (.matchText _) ?_
    exact scans_subqueryTest hnested h left .isIn
  | notIn h =>
    refine Scans.unmatched (reads_matchText_false (notNext_word (by decide))) (.matchText _) ?_
    refine Scans.matched (reads_matchText .word "NOT") (.matchText _) ?_
    refine ((reads_expectText .word "IN").scans (.expectText _)).bind fun _ _ => ?_
    refine (scans_subqueryTest hnested h left .isIn).last fun inner hinner => Scans.pure ?_
    rw [Select.QueryCondition.erased, hinner]
  | any op h =>
    refine hafter op ?_
    refine Scans.matched (reads_matchText .word "ANY") (.matchText _) ?_
    exact scans_subqueryTest hnested h left (.any op)
  | all op h =>
    refine hafter op ?_
    refine Scans.unmatched (reads_matchText_false (notNext_word (by decide))) (.matchText _) ?_
    refine Scans.matched (reads_matchText .word "ALL") (.matchText _) ?_
    exact scans_subqueryTest hnested h left (.all op)

/-- Behind the left side comes an operator or a keyword. -/
theorem TestText.typeNotNext {left : Select.QueryExpression} {c : Select.QueryCondition}
    (h : TestText Nested left ls c) (rest : List Lexeme) : TypeNotNext .dot (ls ++ rest) := by
  intro l hl
  cases h <;> cases hl <;> exact fun h => by cases h

/-! ## Chains -/

section Chains

variable {operator : String}
  {node : Select.QueryCondition → Select.QueryCondition → Select.QueryCondition}
  {Operand : List Lexeme → Select.QueryCondition → Prop} {Follow : List Lexeme → Prop}
  {operand : Parser Select.QueryCondition}

/-- Behind the operands of a chain the loop goes on with the condition built from them, and with
more turns than tokens are left. -/
theorem parseChain_of_operands {c : Select.QueryCondition}
    (h : Chained operator node Operand ls c)
    (hoperand : ScansItems command operand Operand Select.QueryCondition.erased Follow)
    (hnode : ∀ c c', (node c c').erased = node c.erased c'.erased)
    (hoperator : ∀ rest, Follow (word operator :: rest)) :
    ∀ (rest : List Lexeme) (s : Cursor), Follow rest → s.Stands command (ls ++ rest) →
      ∃ a t turns, parseChain operator node operand s = chainLoop operator node operand turns a t ∧
        rest.length < turns ∧ t.Stands command rest ∧ a.erased = c := by
  induction h with
  | one h =>
    intro rest s hrest hs
    obtain ⟨a, t, ha, ht, hq⟩ := hoperand _ _ rest h hrest s hs
    obtain ⟨n, u, hn, hu, hlength⟩ :=
      (reads_tokensLeft.scans .tokensLeft : Scans command tokensLeft [] rest _) t ht
    refine ⟨a, u, n + 1, ?_, ?_, hu, hq⟩
    · rw [parseChain, Prog.bind_ok ha, Prog.bind_ok hn]
    · rw [hlength]
      exact Nat.lt_succ_self _
  | @next ls ls' c c' _ h' ih =>
    intro rest s hrest hs
    rw [List.append_assoc, List.cons_append] at hs
    obtain ⟨a, t, turns, ha, hturns, ht, hq⟩ := ih _ s (hoperator _) hs
    cases turns with
    | zero => exact absurd hturns (Nat.not_lt_zero _)
    | succ turns =>
      have hword : Scans command (matchText operator) [word operator] (ls' ++ rest) (· = true) :=
        (reads_matchText .word operator).scans (.matchText operator)
      obtain ⟨_, u, hmatch, hu, rfl⟩ := hword t ht
      obtain ⟨b, v, hb, hv, hq'⟩ := hoperand _ _ rest h' hrest u hu
      refine ⟨node a b, v, turns, ?_, ?_, hv, ?_⟩
      · rw [ha, chainLoop, Prog.bind_ok hmatch, if_pos rfl, Prog.bind_ok hb]
      · simp only [List.length_cons, List.length_append] at hturns
        omega
      · rw [hnode, hq, hq']

/-- A chain is read up to a token that is not its operator. -/
theorem scans_parseChain {c : Select.QueryCondition} (h : Chained operator node Operand ls c)
    (hoperand : ScansItems command operand Operand Select.QueryCondition.erased Follow)
    (hnode : ∀ c c', (node c c').erased = node c.erased c'.erased)
    (hoperator : ∀ rest, Follow (word operator :: rest)) (hrest : Follow rest)
    (hend : NotNext operator rest) :
    Scans command (parseChain operator node operand) ls rest (·.erased = c) := by
  intro s hs
  obtain ⟨a, t, turns, ha, hturns, ht, hq⟩ :=
    parseChain_of_operands h hoperand hnode hoperator rest s hrest hs
  cases turns with
  | zero => exact absurd hturns (Nat.not_lt_zero _)
  | succ turns =>
    have hword : Scans command (matchText operator) [] rest (· = false) :=
      (reads_matchText_false hend).scans (.matchText operator)
    obtain ⟨_, u, hmatch, hu, rfl⟩ := hword t ht
    refine ⟨a, u, ?_, hu, hq⟩
    rw [ha, chainLoop, Prog.bind_ok hmatch, if_neg Bool.false_ne_true]
    rfl

end Chains

/-! ## Trees -/

/-- The tokens, no more than `n`, of an operand of `AND`. -/
def NotOperand (Nested : List Lexeme → ParsedQuery → Prop) (n : Nat) (ls : List Lexeme)
    (c : Select.QueryCondition) : Prop :=
  ConditionText Nested .not ls c ∧ ls.length ≤ n

def AndChain (Nested : List Lexeme → ParsedQuery → Prop) (n : Nat) :
    List Lexeme → Select.QueryCondition → Prop :=
  Chained "AND" .and (NotOperand Nested n)

/-- A condition as the chains that the loops build. -/
def ReadAs (Nested : List Lexeme → ParsedQuery → Prop) (n : Nat) :
    Rank → List Lexeme → Select.QueryCondition → Prop
  | .or => Chained "OR" .or (AndChain Nested n)
  | .and => AndChain Nested n
  | .not => NotOperand Nested n

theorem ConditionText.readAs {n : Nat} {rank : Rank} {c : Select.QueryCondition}
    (h : ConditionText Nested rank ls c) (hn : ls.length ≤ n) : ReadAs Nested n rank ls c := by
  induction h with
  | or _ _ ih ih' =>
    have hlength := length_and hn
    exact Chained.next (ih hlength.1) (ih' hlength.2)
  | ofAnd _ ih => exact Chained.one (ih hn)
  | and _ _ ih ih' =>
    have hlength := length_and hn
    exact Chained.next (ih hlength.1) (ih' hlength.2)
  | ofNot _ ih => exact Chained.one (ih hn)
  | not h _ => exact ⟨.not h, hn⟩
  | group h _ => exact ⟨.group h, hn⟩
  | «exists» h => exact ⟨.exists h, hn⟩
  | test h h' => exact ⟨.test h h', hn⟩

/-- What the functions for `AND` and `OR` read, with a function that reads their operands. -/
theorem scans_parseOrExpressionWith {n : Nat} {comparison : Parser Select.QueryCondition}
    (hcomparison : ScansItems command comparison (NotOperand Nested n) Select.QueryCondition.erased
      (TypeNotNext .dot))
    {c : Select.QueryCondition} (h : ConditionText Nested .or ls c) (hn : ls.length ≤ n)
    (hrest : EndsCondition rest) :
    Scans command (parseOrExpressionWith comparison) ls rest (·.erased = c) := by
  have hword : ∀ text rest, TypeNotNext .dot (word text :: rest) := by
    intro text rest l hl
    cases hl
    exact fun h => by cases h
  have hand : ScansItems command (parseAndExpressionWith comparison) (AndChain Nested n)
      Select.QueryCondition.erased fun rest => TypeNotNext .dot rest ∧ NotNext "AND" rest := by
    intro ls c rest hc hfollow
    exact scans_parseChain hc hcomparison (fun _ _ => rfl) (hword "AND") hfollow.1 hfollow.2
  refine scans_parseChain (h.readAs hn) hand (fun _ _ => rfl) (fun rest => ⟨hword "OR" rest, ?_⟩)
    ⟨hrest.dot, hrest.and⟩ hrest.or
  exact notNext_word (by decide)

theorem scans_parseExists (hnested : ReadsNested command parseText Nested) {q : ParsedQuery}
    (h : Nested ls q) :
    Scans command (parseExists parseText) (inParens ls) rest (·.erased = .existsSubquery q) := by
  refine (scans_parseSubquery hnested h).last fun r hr => Scans.pure ?_
  rw [Select.QueryCondition.erased, hr]

/-- `NOT` in front of `EXISTS`, or of another operand. -/
theorem ConditionText.exists_or_notNext {rank : Rank} {c : Select.QueryCondition}
    (h : ConditionText Nested rank ls c) (hrank : rank = .not) :
    (∃ ls' q, Nested ls' q ∧ ls = word "EXISTS" :: inParens ls' ∧ c = .existsSubquery q) ∨
      ∀ rest, NotNext "EXISTS" (ls ++ rest) := by
  cases h with
  | or _ _ => cases hrank
  | ofAnd _ => cases hrank
  | and _ _ => cases hrank
  | ofNot _ => cases hrank
  | not _ => exact .inr fun rest => notNext_word (by decide)
  | group _ =>
    refine .inr fun rest l hl => ?_
    cases hl
    decide
  | «exists» h => exact .inl ⟨_, _, h, rfl, rfl⟩
  | test h _ =>
    obtain ⟨text, ls', rfl, -, hexists⟩ := h.starts
    exact .inr fun rest => notNext_word hexists

theorem ConditionText.length_pos {rank : Rank} {c : Select.QueryCondition}
    (h : ConditionText Nested rank ls c) : 0 < ls.length := by
  induction h with
  | or _ _ ih _ => exact Nat.lt_of_lt_of_le ih (by rw [List.length_append]; omega)
  | ofAnd _ ih => exact ih
  | and _ _ ih _ => exact Nat.lt_of_lt_of_le ih (by rw [List.length_append]; omega)
  | ofNot _ ih => exact ih
  | not _ _ => exact Nat.succ_pos _
  | group _ _ => exact Nat.succ_pos _
  | «exists» _ => exact Nat.succ_pos _
  | test h _ =>
    obtain ⟨text, ls', rfl, -⟩ := h.starts
    exact Nat.succ_pos _

/-- An operand is read where as many levels are left as it has tokens. -/
theorem scans_parseComparison (hnested : ReadsNested command parseText Nested) (n : Nat) :
    ScansItems command (parseComparison parseText n) (NotOperand Nested n)
      Select.QueryCondition.erased (TypeNotNext .dot) := by
  induction n with
  | zero =>
    rintro ls c rest ⟨h, hlength⟩ -
    exact absurd hlength (Nat.not_le_of_lt h.length_pos)
  | succ n ih =>
    rintro ls c rest ⟨h, hlength⟩ hrest
    rw [parseComparison]
    cases h with
    | @not ls c h =>
      have hn : ls.length ≤ n := Nat.le_of_succ_le_succ hlength
      refine Scans.unmatched (reads_matchType_false (typeNotNext_cons (by decide)))
        (.matchType _) ?_
      refine Scans.matched (reads_matchText .word "NOT") (.matchText _) ?_
      rcases h.exists_or_notNext rfl with ⟨ls', q, hq, rfl, rfl⟩ | hother
      · refine Scans.matched (reads_matchText .word "EXISTS") (.matchText _) ?_
        refine (scans_parseExists hnested hq).last fun c hc => Scans.pure ?_
        rw [Select.QueryCondition.erased, hc]
      · refine Scans.unmatched (reads_matchText_false (hother rest)) (.matchText _) ?_
        refine (ih ls c rest ⟨h, hn⟩ hrest).last fun c hc => Scans.pure ?_
        rw [Select.QueryCondition.erased, hc]
    | group h =>
      have hends : StartsIn [⟨.rightParen, ")"⟩] ([⟨.rightParen, ")"⟩] ++ rest) :=
        .cons List.mem_cons_self
      refine Scans.matched (reads_matchType .leftParen "(") (.matchType _) ?_
      refine (scans_parseOrExpressionWith ih h (length_group hlength)
        ⟨hends.typeNotNext (by decide), hends.notNext (by decide),
          hends.notNext (by decide)⟩).bind fun c hc => ?_
      exact ((reads_expectType .rightParen ")" ")").scans (.expectType _ _)).bind fun _ _ =>
        Scans.pure hc
    | «exists» h =>
      refine Scans.unmatched (reads_matchType_false (typeNotNext_cons (by decide)))
        (.matchType _) ?_
      refine Scans.unmatched (reads_matchText_false (notNext_word (by decide))) (.matchText _) ?_
      refine Scans.matched (reads_matchText .word "EXISTS") (.matchText _) ?_
      exact scans_parseExists hnested h
    | @test ls ls' left c h h' =>
      obtain ⟨text, ls'', rfl, hnot, hexists⟩ := h.starts
      refine Scans.unmatched (reads_matchType_false (typeNotNext_cons fun h => by cases h))
        (.matchType _) ?_
      refine Scans.unmatched (reads_matchText_false (notNext_word hnot)) (.matchText _) ?_
      refine Scans.unmatched (reads_matchText_false (notNext_word hexists)) (.matchText _) ?_
      refine (scans_columnExpression h (h'.typeNotNext rest)).bind fun e he => ?_
      rw [← he] at h'
      exact scans_parseAfterColumn hnested h' hrest

/-- A condition of any depth is read. -/
theorem scans_parseConditionExpression (hnested : ReadsNested command parseText Nested)
    {c : Select.QueryCondition} (h : ConditionText Nested .or ls c) (hrest : EndsCondition rest) :
    Scans command (parseConditionExpression parseText) ls rest (·.erased = c) := by
  refine (reads_tokensLeft.scans .tokensLeft).look fun n hn => ?_
  refine scans_parseOrExpressionWith (scans_parseComparison hnested (n + 1)) h ?_ hrest
  rw [hn, List.length_append]
  omega

theorem scans_parseConditionAfter (hnested : ReadsNested command parseText Nested)
    {keyword : String} {c : Option Select.QueryCondition}
    (h : Clause keyword (ConditionText Nested .or) ls c) (hrest : EndsCondition rest)
    (hkeyword : NotNext keyword rest) :
    Scans command (parseConditionAfter parseText keyword) ls rest (erasedCondition · = c) := by
  cases h with
  | absent =>
    exact Scans.unmatched (reads_matchText_false hkeyword) (.matchText _) (.pure rfl)
  | present h =>
    refine Scans.matched (reads_matchText .word keyword) (.matchText _) ?_
    refine (scans_parseConditionExpression hnested h hrest).last fun c hc => Scans.pure ?_
    rw [erasedCondition, hc]

end ScratchDb.QueryParser
