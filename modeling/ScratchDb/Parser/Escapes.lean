import ScratchDb.Parser.Safety

/-!
# When the parser escapes

Each function of the parser is safe: it leaves its result type only in a call
that is given what it does not accept. From the functions it is carried over to
whole texts, by induction on the levels of subqueries.
-/

namespace ScratchDb.QueryParser

open Select

variable {command : List Char} {least most : Nat} {parseText : ParseText}

/-- The parser is safe on all texts that are shorter than the command. -/
def SafeBelow (command : List Char) (parseText : ParseText) : Prop :=
  ∀ text : List Char, text.length < command.length →
    EndsWith (parseText text).2 (parseText text).1

/-! ## Subqueries -/

section Conditions

variable (hbelow : SafeBelow command parseText)
include hbelow

theorem safe_parseNested {text : List Char} (htext : text.length < command.length) (start : Nat) :
    Safe command least most 0 (fun _ => True) (parseNested parseText text start) := by
  intro s hs hfits hl hmost
  have hends := hbelow text htext
  unfold Prog.Ends parseNested
  rcases hr : (parseText text).1 with (e | e) | query <;> rw [hr] at hends
  · exact ⟨rfl, ⟨_, rfl, hends⟩, fun a ha => by cases ha⟩
  · exact ⟨rfl, ⟨_, rfl, hends⟩, fun a ha => by cases ha⟩
  · exact ⟨rfl, ⟨_, rfl, hends⟩, fun a ha => ⟨trivial, hfits, le_rfl⟩⟩

theorem safe_parseSelectText (what : String) {opened : Token}
    (hopened : opened.position < command.length) :
    Safe command least most 0 (fun _ => True) (parseSelectText parseText what opened) := by
  refine (safe_textToClose hopened).bind fun text htext => ?_
  refine (safe_parseNested hbelow (by omega) _).bind fun query _ => ?_
  cases query with
  | selectAll query => exact .pure trivial
  | _ => exact .fail _ _ _

theorem safe_parseSubquery :
    Safe command least most 1 (fun _ => True) (parseSubquery parseText) :=
  (isMatch_matchType .leftParen).safe_matchedToken
    (fun _ _ hopened => safe_parseSelectText hbelow _ hopened) (.expected _)

theorem safe_parseSubqueryExpression :
    Safe command least most 1 (fun _ => True) (parseSubqueryExpression parseText) :=
  (safe_parseSubquery hbelow).bind fun _ _ => .pure trivial

/-! ## Expressions -/

omit hbelow

/-- A name is looked up only where a token follows. -/
theorem Safe.nextNames {α β : Type} {R : β → Prop} {taken : Nat} {fromText : String → Option α}
    {f : Option α → Parser β} (hnone : Safe command 0 most taken R (f none))
    (hsome : ∀ a, Safe command 1 most taken R (f (some a))) :
    Safe command least most taken R (QueryParser.nextNames fromText >>= f) := by
  refine look (P := fun s a => ∀ x, a = some x → 0 < s.rest.length) (fun s _ _ => ?_) ?_
  · cases hrest : s.rest with
    | nil =>
      refine ⟨none, ?_, fun x hx => by cases hx⟩
      rw [QueryParser.nextNames, Prog.bind_ok (atEnd_apply s), hrest]
      rfl
    | cons t ts =>
      refine ⟨fromText t.text, ?_, fun _ _ => Nat.succ_pos _⟩
      rw [QueryParser.nextNames, Prog.bind_ok (atEnd_apply s), hrest]
      simp only [List.isEmpty_cons, Bool.false_eq_true, if_false]
      rw [Prog.bind_ok (token_apply hrest)]
      rfl
  · intro s a _ hp hl hmost
    cases a with
    | none => exact hnone.mono (fun _ h => h) (Nat.zero_le _) hmost le_rfl
    | some x => exact (hsome x).mono (fun _ h => h) (hp x rfl) hmost le_rfl

theorem Safe.positionBefore {β : Type} {R : β → Prop} {taken otherwise : Nat} {f : Nat → Parser β}
    (h : ∀ n, Safe command least most taken R (f n)) :
    Safe command least most taken R (QueryParser.positionBefore otherwise >>= f) := by
  rw [QueryParser.positionBefore, Prog.bind_assoc]
  refine .previous fun t => ?_
  cases t with
  | none => exact h otherwise
  | some t => exact h t.position

theorem Safe.positionHere {β : Type} {R : β → Prop} {taken : Nat} {f : Nat → Parser β}
    (h : ∀ n, Safe command least most taken R (f n)) :
    Safe command least most taken R (QueryParser.positionHere >>= f) := by
  refine look (P := fun _ _ => True) (fun s _ _ => ?_) fun s n _ _ hl hmost =>
    (h n).mono (fun _ hr => hr) (by omega) (by omega) (by omega)
  cases hrest : s.rest with
  | nil =>
    refine ⟨s.command.length, ?_, trivial⟩
    rw [QueryParser.positionHere, Prog.bind_ok (atEnd_apply s), hrest]
    rfl
  | cons t ts =>
    refine ⟨t.position, ?_, trivial⟩
    rw [QueryParser.positionHere, Prog.bind_ok (atEnd_apply s), hrest]
    simp only [List.isEmpty_cons, Bool.false_eq_true, if_false]
    rw [Prog.bind_ok (token_apply hrest)]
    rfl

theorem safe_parseColumnReference (label : String) :
    Safe command least most 1 (fun _ => True) (parseColumnReference label) := by
  refine (safe_readIdentifier label).bind fun first _ => ?_
  refine (isMatch_matchType .dot).safe ?_ (.pure trivial)
  exact (safe_readIdentifier label).bind fun _ _ => .pure trivial

theorem safe_parseAggregated (function : QueryAggregateFunction) (label : String) :
    Safe command least most 1 (fun _ => True) (parseAggregated function label) := by
  refine (safe_expectType _ _).bind fun _ _ => ?_
  have hcolumn : Safe command 0 (most - 1) 0 (fun _ => True)
      (parseAggregatedColumn function label) := by
    refine .ite (fun _ => ?_) fun _ => (safe_parseColumnReference label).weaken (by omega)
    exact (isMatch_matchType .star).safe (.pure trivial)
      ((safe_parseColumnReference label).weaken (by omega))
  exact hcolumn.bind fun _ _ => (safe_expectType _ _).bind fun _ _ => .pure trivial

theorem safe_parseColumnExpression (label : String) :
    Safe command least most 1 (fun _ => True) (parseColumnExpression label) := by
  refine .nextNames ?_ fun function => .takeToken fun t _ => ?_
  · refine (safe_parseColumnReference label).bind fun column _ => ?_
    exact .get fun s _ => .positionBefore fun _ => .pure trivial
  · exact (safe_parseAggregated function label).bind fun _ _ => .pure trivial

include hbelow

/-- Here a token has to follow. -/
theorem safe_parseValueExpression :
    Safe command 1 most 1 (fun _ => True) (parseValueExpression parseText) := by
  refine .token fun t _ => .ite (fun _ => ?_) fun _ => .advance ?_
  · exact (safe_parseSubqueryExpression hbelow)
  · refine .ite (fun _ => (isMatch_matchType .dot).safe ?_ ?_) fun _ => .pure trivial
    · exact (safe_readIdentifier _).bind fun _ _ => .pure trivial
    · exact .ite (fun _ => .pure trivial) fun _ => .pure trivial

/-- A bound is read also where no token follows. -/
theorem safe_parseBound : Safe command least most 1 (fun _ => True) (parseBound parseText) := by
  refine .tokensLeft fun n _ => .noteCall (fun hn => ?_) fun hn s hl hmost => ?_
  · exact (safe_parseValueExpression hbelow).mono (fun _ h => h) hn (by omega) (by omega)
  · have hrest : s.rest = [] := by
      refine List.eq_nil_of_length_eq_zero ?_
      have hzero : n = 0 := Nat.eq_zero_of_not_pos hn
      omega
    refine ⟨.pastEnd, ?_⟩
    rw [parseValueExpression]
    refine Prog.bind_error ?_
    rw [token, Prog.bind_ok (Prog.get_apply s), hrest]
    rfl

/-! ## Conditions -/

omit hbelow in
theorem safe_parseOperator : Safe command least most 1 (fun _ => True) parseOperator := by
  refine .atEnd (.expected _) (.token fun t _ => .ite (fun _ => .expected _) fun _ => .advance ?_)
  cases operatorFromText t.text with
  | none => exact .fail _ _ _
  | some op => exact .pure trivial

theorem safe_parseExists : Safe command least most 1 (fun _ => True) (parseExists parseText) :=
  (safe_parseSubquery hbelow).bind fun _ _ => .pure trivial

theorem safe_parseSubqueryTest (left : Select.QueryExpression) (test : SubqueryTest) :
    Safe command least most 1 (fun _ => True) (parseSubqueryTest parseText left test) :=
  (safe_parseSubquery hbelow).bind fun _ _ => .pure trivial

theorem safe_parseAfterColumn (left : Select.QueryExpression) :
    Safe command least most 0 (fun _ => True) (parseAfterColumn parseText left) := by
  refine (isMatch_matchText _).safe ?between ((isMatch_matchText _).safe ?notIn
    ((isMatch_matchText _).safe ?isIn (safe_parseOperator.bind fun op _ => ?compared)))
  case between =>
    refine (safe_parseBound hbelow).bind fun lower _ => (safe_expectText _).bind fun _ _ => ?_
    exact (safe_parseBound hbelow).bind fun upper _ => .pure trivial
  case notIn =>
    refine (safe_expectText _).bind fun _ _ => ?_
    exact (safe_parseSubqueryTest hbelow _ _).bind fun _ _ => .pure trivial
  case isIn => exact (safe_parseSubqueryTest hbelow _ _).weaken (by omega)
  case compared =>
    refine (isMatch_matchText _).safe ((safe_parseSubqueryTest hbelow _ _).weaken (by omega))
      ((isMatch_matchText _).safe ((safe_parseSubqueryTest hbelow _ _).weaken (by omega)) ?_)
    refine .atEnd (.failAtEnd _) ?_
    exact (safe_parseValueExpression hbelow).bind fun _ _ => .pure trivial

theorem safe_parseComparisonWith {orExpression comparison : Parser Select.QueryCondition}
    (hor : 0 < most → Safe command 0 (most - 1) 0 (fun _ => True) orExpression)
    (hcomparison : 0 < most → Safe command 0 (most - 1) 0 (fun _ => True) comparison) :
    Safe command least most 1 (fun _ => True)
      (parseComparisonWith parseText orExpression comparison) := by
  refine (isMatch_matchType _).safe_of_pos (fun hpos => ?nested)
    ((isMatch_matchText _).safe_of_pos (fun hpos => ?negated)
      ((isMatch_matchText _).safe ((safe_parseExists hbelow).weaken (by omega)) ?compared))
  case nested =>
    exact (hor hpos).bind fun child _ => (safe_expectType _ _).bind fun _ _ => .pure trivial
  case negated =>
    refine (isMatch_matchText _).safe ?_ ((hcomparison hpos).bind fun _ _ => .pure trivial)
    exact (safe_parseExists hbelow).bind fun _ _ => .pure trivial
  case compared =>
    exact (safe_parseColumnExpression _).bind fun left _ => safe_parseAfterColumn hbelow left

omit hbelow in
theorem safe_chainLoop {operator : String}
    {node : Select.QueryCondition → Select.QueryCondition → Select.QueryCondition}
    {operand : Parser Select.QueryCondition}
    (hoperand : ∀ n, n ≤ most → Safe command 0 n 0 (fun _ => True) operand) {turns : Nat}
    (hturns : most < turns) (left : Select.QueryCondition) :
    Safe command least most 0 (fun _ => True) (chainLoop operator node operand turns left) := by
  induction turns generalizing least most left with
  | zero => exact absurd hturns (Nat.not_lt_zero _)
  | succ turns ih =>
    refine (isMatch_matchText _).safe_of_pos (fun hpos => ?_) (.pure trivial)
    refine (hoperand (most - 1) (Nat.sub_le _ _)).bind fun right _ => ?_
    exact ih (fun n hn => hoperand n (by omega)) (by omega) _

omit hbelow in
theorem safe_parseChain {operator : String}
    {node : Select.QueryCondition → Select.QueryCondition → Select.QueryCondition}
    {operand : Parser Select.QueryCondition} {taken : Nat}
    (hoperand : ∀ n, n ≤ most → Safe command 0 n taken (fun _ => True) operand) :
    Safe command 0 most taken (fun _ => True) (parseChain operator node operand) := by
  refine (hoperand most le_rfl).bind fun left _ => .tokensLeft fun n hn => ?_
  rw [Nat.sub_self]
  exact safe_chainLoop (fun k hk => (hoperand k (by omega)).weaken (by omega)) (Nat.lt_succ_self n) left

/-- Nested conditions: each level takes a token. -/
theorem safe_parseComparison {levels : Nat} (hlevels : most < levels) :
    Safe command 0 most 1 (fun _ => True) (parseComparison parseText levels) := by
  induction levels generalizing most with
  | zero => exact absurd hlevels (Nat.not_lt_zero _)
  | succ levels ih =>
    refine safe_parseComparisonWith hbelow (fun hpos => ?_) fun hpos => (ih (by omega)).weaken (by omega)
    exact safe_parseChain fun n hn => safe_parseChain fun k hk => (ih (by omega)).weaken (by omega)

theorem safe_parseConditionExpression :
    Safe command least most 1 (fun _ => True) (parseConditionExpression parseText) := by
  refine .tokensLeft fun n _ => Safe.mono ?_ (fun _ h => h) (Nat.zero_le _) le_rfl le_rfl
  exact safe_parseChain fun k hk => safe_parseChain fun j hj =>
    safe_parseComparison hbelow (by omega)

end Conditions

end ScratchDb.QueryParser
