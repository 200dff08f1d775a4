import ScratchDb.Parser.SelectGrammar

/-!
# Queries are read as they are written

Each part of a query of the grammar is read as what the grammar makes of it, up to
positions, and so is a query of any nesting, from every text it may be written as.
-/

namespace ScratchDb.QueryParser

open Select

variable {α β : Type}

/-! ## What goes forward -/

namespace Forward

theorem matchText (text : String) : Forward (QueryParser.matchText text) :=
  of_isMatch (isMatch_matchText text)

theorem matchType (type : TokenType) : Forward (QueryParser.matchType type) :=
  of_isMatch (isMatch_matchType type)

theorem matchOneOf (texts : List String) : Forward (QueryParser.matchOneOf texts) :=
  of_isMatch (isMatch_matchOneOf texts)

theorem previousToken : Forward QueryParser.previousToken := by
  refine previous.bind fun t => ?_
  cases t with
  | none => exact stop _
  | some t => exact pure t

theorem matchedToken {m : Parser Bool} (h : Forward m) : Forward (QueryParser.matchedToken m) :=
  h.bind fun _ => ite (previousToken.bind fun _ => pure _) (pure _)

theorem takeToken : Forward QueryParser.takeToken :=
  token.bind fun _ => advance.bind fun _ => pure _

theorem nextNames (fromText : String → Option α) : Forward (QueryParser.nextNames fromText) :=
  atEnd.bind fun _ => ite (pure _) (token.bind fun _ => pure _)

theorem positionHere : Forward QueryParser.positionHere :=
  atEnd.bind fun _ => ite (get.bind fun _ => pure _) (token.bind fun _ => pure _)

theorem positionBefore (n : Nat) : Forward (QueryParser.positionBefore n) := by
  refine previous.bind fun t => ?_
  cases t with
  | none => exact pure n
  | some t => exact pure _

theorem parseColumnReference (label : String) : Forward (QueryParser.parseColumnReference label) :=
  (readIdentifier label).bind fun _ => (matchType .dot).bind fun _ =>
    ite ((readIdentifier label).bind fun _ => pure _) (pure _)

theorem parseAggregated (function : QueryAggregateFunction) (label : String) :
    Forward (QueryParser.parseAggregated function label) := by
  have hcolumn : Forward (parseAggregatedColumn function label) :=
    ite ((matchType .star).bind fun _ => ite (pure _) (parseColumnReference label))
      (parseColumnReference label)
  exact (expectType _ _).bind fun _ => hcolumn.bind fun _ => (expectType _ _).bind fun _ => pure _

theorem parseAlias (label : String) : Forward (QueryParser.parseAlias label) :=
  (matchText "AS").bind fun _ => ite (readIdentifier label) (pure _)

theorem parseTableReference : Forward QueryParser.parseTableReference := by
  refine (matchType .leftParen).matchedToken.bind fun opened => ?_
  cases opened with
  | some opened => exact fail _ _ _
  | none => exact (readIdentifier _).bind fun _ => (parseAlias _).bind fun _ => pure _

theorem parseSelected : Forward QueryParser.parseSelected := by
  refine positionHere.bind fun position => (nextNames _).bind fun aggregate => ?_
  cases aggregate with
  | some aggregate =>
    exact advance.bind fun _ => (parseAggregated aggregate _).bind fun _ => pure _
  | none =>
    refine (nextNames _).bind fun scalarFunction => ?_
    cases scalarFunction with
    | some scalarFunction =>
      exact advance.bind fun _ => (expectType _ _).bind fun _ => (parseColumnReference _).bind
        fun _ => (expectType _ _).bind fun _ => pure _
    | none =>
      exact (parseColumnReference _).bind fun _ => (positionBefore _).bind fun _ => pure _

theorem parseSelectedColumn : Forward QueryParser.parseSelectedColumn :=
  parseSelected.bind fun _ => (parseAlias _).bind fun _ => pure _

theorem parsePlainColumn (label : String) : Forward (QueryParser.parsePlainColumn label) :=
  positionHere.bind fun _ => (parseColumnReference label).bind fun _ =>
    (positionBefore _).bind fun _ => pure _

theorem parseOrderByColumn : Forward QueryParser.parseOrderByColumn :=
  (parsePlainColumn _).bind fun _ => (matchText "ASC").bind fun _ => ite (pure _) <|
    (matchText "DESC").bind fun _ => ite (pure _) (pure _)

theorem parseLimitClause : Forward QueryParser.parseLimitClause := by
  have hlimit : Forward parseLimit := by
    refine atEnd.bind fun _ => ite (failAtEnd _) (takeToken.bind fun t => ite (fail _ _ _) ?_)
    split
    · exact pure _
    · exact fail _ _ _
  exact (matchText "LIMIT").bind fun _ => ite (hlimit.bind fun _ => pure _) (pure _)

theorem parseQuantifier : Forward QueryParser.parseQuantifier :=
  (matchText "ALL").bind fun _ => ite (pure _) ((matchText "SOME").bind fun _ => pure _)

theorem parseOperator : Forward QueryParser.parseOperator := by
  refine atEnd.bind fun _ => ite (expected _) (token.bind fun t => ite (expected _) ?_)
  refine advance.bind fun _ => ?_
  split
  · exact pure _
  · exact fail _ _ _

theorem parseColumnExpression (label : String) :
    Forward (QueryParser.parseColumnExpression label) := by
  refine (nextNames _).bind fun function => ?_
  cases function with
  | some function => exact takeToken.bind fun _ => (parseAggregated _ _).bind fun _ => pure _
  | none =>
    exact (parseColumnReference _).bind fun _ => get.bind fun _ =>
      (positionBefore _).bind fun _ => pure _

theorem takeToClose (depth turns : Nat) : Forward (QueryParser.takeToClose depth turns) := by
  induction turns generalizing depth with
  | zero => exact stop _
  | succ turns ih =>
    refine atEnd.bind fun _ => ite (pure _) (takeToken.bind fun t => ?_)
    obtain ⟨type, text, position⟩ := t
    cases type with
    | leftParen => exact ih _
    | rightParen => exact ite (pure _) (ih _)
    | _ => exact ih _

theorem textToClose (start : Nat) : Forward (QueryParser.textToClose start) := by
  refine tokensLeft.bind fun n => (takeToClose 1 (n + 1)).bind fun t => ?_
  cases t with
  | none => exact fail _ _ _
  | some t => exact get.bind fun _ => ite (stop _) (pure _)

theorem parseNested (parseText : ParseText) (text : List Char) (start : Nat) :
    Forward (QueryParser.parseNested parseText text start) := by
  intro s a t h
  unfold QueryParser.parseNested at h
  dsimp only at h
  split at h
  · cases h
    exact ⟨rfl, List.suffix_rfl⟩
  · cases h
  · cases h

theorem parseSelectText (parseText : ParseText) (what : String) (opened : Token) :
    Forward (QueryParser.parseSelectText parseText what opened) := by
  refine (textToClose _).bind fun text => (parseNested parseText text _).bind fun command => ?_
  split
  · exact pure _
  · exact fail _ _ _

theorem parseSubquery (parseText : ParseText) : Forward (QueryParser.parseSubquery parseText) := by
  refine (matchType .leftParen).matchedToken.bind fun opened => ?_
  cases opened with
  | some opened => exact parseSelectText parseText _ opened
  | none => exact expected _

theorem parseValueExpression (parseText : ParseText) :
    Forward (QueryParser.parseValueExpression parseText) := by
  refine token.bind fun t => ite ((parseSubquery parseText).bind fun _ => pure _) ?_
  refine advance.bind fun _ => ite ((matchType .dot).bind fun _ => ite ?_ ?_) (pure _)
  · exact (readIdentifier _).bind fun _ => pure _
  · exact ite (pure _) (pure _)

end Forward

/-! ## What follows a part -/

theorem typeNotNext_cons {type : TokenType} {l : Lexeme} {rest : List Lexeme}
    (h : l.type ≠ type) : TypeNotNext type (l :: rest) := by
  intro l' hl'
  cases hl'
  exact h

theorem notNext_cons {text : String} {l : Lexeme} {rest : List Lexeme} (h : l.text ≠ text) :
    NotNext text (l :: rest) := by
  intro l' hl'
  cases hl'
  exact h

/-- The rest starts with one of these tokens, or there is none. -/
def StartsIn (firsts rest : List Lexeme) : Prop := ∀ l ∈ rest.head?, l ∈ firsts

namespace StartsIn

variable {firsts firsts' rest : List Lexeme}

theorem nil (firsts : List Lexeme) : StartsIn firsts [] := by
  intro l hl
  cases hl

theorem cons {l : Lexeme} (h : l ∈ firsts) : StartsIn firsts (l :: rest) := by
  intro l' hl'
  cases hl'
  exact h

theorem mono (h : StartsIn firsts rest) (hsubset : firsts ⊆ firsts') : StartsIn firsts' rest :=
  fun l hl => hsubset (h l hl)

theorem notNext (h : StartsIn firsts rest) {text : String}
    (htext : (firsts.all fun l => l.text ≠ text) = true) : NotNext text rest :=
  fun l hl => of_decide_eq_true (List.all_eq_true.mp htext l (h l hl))

theorem typeNotNext (h : StartsIn firsts rest) {type : TokenType}
    (htype : (firsts.all fun l => l.type ≠ type) = true) : TypeNotNext type rest :=
  fun l hl => of_decide_eq_true (List.all_eq_true.mp htype l (h l hl))

end StartsIn

/-! ## Names and aliases -/

section Names

variable {ls rest : List Lexeme}

theorem reads_positionHere : Reads positionHere [] rest (fun _ => True) := by
  intro s hs
  rw [positionHere, Prog.bind_ok (atEnd_apply s)]
  cases hrest : s.rest with
  | nil => exact ⟨s.command.length, s, rfl, hs, rfl, trivial⟩
  | cons t ts =>
    refine ⟨t.position, s, ?_, hs, rfl, trivial⟩
    rw [List.isEmpty_cons, if_neg Bool.false_ne_true, Prog.bind_ok (token_apply hrest)]
    rfl

theorem reads_nextNames_eq {fromText : String → Option α} (l : Lexeme) :
    Reads (nextNames fromText) [] (l :: rest) (· = fromText l.text) := by
  intro s hs
  obtain ⟨t, ts, hrest, ht, -⟩ := rest_of_lexemes hs
  refine ⟨fromText l.text, s, ?_, hs, rfl, rfl⟩
  rw [nextNames, Prog.bind_ok (atEnd_apply s), hrest, List.isEmpty_cons, if_neg Bool.false_ne_true,
    Prog.bind_ok (token_apply hrest), show t.text = l.text from congrArg Lexeme.text ht]
  rfl

theorem reads_takeToken {l : Lexeme} {f : Token → Parser β} {R : β → Prop}
    (h : ∀ t : Token, t.lexeme = l → Reads (f t) ls rest R) :
    Reads (takeToken >>= f) (l :: ls) rest R := by
  rw [takeToken, Prog.bind_assoc]
  refine reads_token fun t ht => ?_
  rw [Prog.bind_assoc]
  exact reads_advance (h t ht)

theorem reads_alias {label tableAlias : String} (h : AliasText ls tableAlias)
    (hrest : NotNext "AS" rest) : Reads (parseAlias label) ls rest (· = tableAlias) := by
  cases h with
  | absent => exact reads_parseAlias hrest
  | present n => exact (reads_matchText .word "AS").matched (reads_readIdentifier n label)

theorem reads_noParen {l : Lexeme} (h : l.type ≠ .leftParen) :
    Reads (matchedToken (matchType .leftParen)) [] (l :: rest) (· = none) := by
  refine reads_matchedToken_none (reads_matchType_false fun l' hl' => ?_)
  cases hl'
  exact h

theorem reads_table {names : String × String} (h : TableText ls names)
    (hrest : NotNext "AS" rest) : Reads parseTableReference ls rest (· = names) := by
  cases h with
  | mk n halias =>
    refine (reads_noParen (fun h => by cases h)).look fun opened hopened => ?_
    rw [hopened]
    refine (reads_readIdentifier n _).bind fun name hname => ?_
    refine (reads_alias halias hrest).last fun tableAlias htable => Reads.pure ?_
    rw [hname, htable]

theorem reads_columnName (c : ColumnName) (label : String) (hrest : TypeNotNext .dot rest) :
    Reads (parseColumnReference label) c.lexemes rest (· = (c.tableAlias, c.name.text)) :=
  reads_parseColumnReference c label hrest

theorem aggregateFromText_aggregateText {function : QueryAggregateFunction}
    (h : function ≠ .none) : aggregateFromText (aggregateText function) = some function := by
  cases function with
  | none => exact absurd rfl h
  | _ => decide

theorem scalarFromText_scalarText {function : QueryScalarFunction} (h : function ≠ .none) :
    scalarFromText (scalarText function) = some function := by
  cases function with
  | none => exact absurd rfl h
  | _ => decide

theorem aggregateFromText_scalarText (function : QueryScalarFunction) :
    aggregateFromText (scalarText function) = none := by
  cases function <;> decide

theorem scalarFromText_name (n : Name) : scalarFromText n.text = none := by
  have hlength : n.text ≠ "LENGTH" := n.text_ne (by decide)
  have hupper : n.text ≠ "UPPER" := n.text_ne (by decide)
  have hlower : n.text ≠ "LOWER" := n.text_ne (by decide)
  simp only [scalarFromText, hlength, hupper, hlower, if_false]

/-- An aggregate starts with its name, and the rest is what is in parentheses. -/
theorem AggregateText.reads {function : QueryAggregateFunction} {tableAlias name : String}
    (h : AggregateText ls function tableAlias name) (label : String) :
    ∃ text ls', ls = word text :: ls' ∧ aggregateFromText text = some function ∧
      ∀ rest, Reads (parseAggregated function label) ls' rest (· = (tableAlias, name)) := by
  cases h with
  | @column function c hfunction =>
    refine ⟨_, _, rfl, aggregateFromText_aggregateText hfunction, fun rest => ?_⟩
    have hclose : StartsIn [⟨.rightParen, ")"⟩] ([⟨.rightParen, ")"⟩] ++ rest) :=
      .cons List.mem_cons_self
    have hreference := reads_columnName c label (hclose.typeNotNext (by decide))
    have hcolumn : Reads (parseAggregatedColumn function label) c.lexemes
        ([⟨.rightParen, ")"⟩] ++ rest) (· = (c.tableAlias, c.name.text)) := by
      unfold parseAggregatedColumn
      split
      · refine (reads_matchType_false ?_).unmatched hreference
        obtain ⟨n, ls', hls⟩ := c.lexemes_eq
        rw [hls]
        exact typeNotNext_cons fun h => by cases h
      · exact hreference
    refine (reads_expectType .leftParen "(" "(").bind fun _ _ => ?_
    refine hcolumn.bind fun names hnames => ?_
    exact (reads_expectType .rightParen ")" ")").bind fun _ _ => Reads.pure hnames
  | countAll =>
    refine ⟨_, _, rfl, by decide, fun rest => ?_⟩
    have hcolumn : Reads (parseAggregatedColumn .count label) [⟨.star, "*"⟩]
        ([⟨.rightParen, ")"⟩] ++ rest) (· = ("", "*")) := by
      rw [parseAggregatedColumn, if_pos rfl]
      exact (reads_matchType .star "*").matched (Reads.pure rfl)
    refine (reads_expectType .leftParen "(" "(").bind fun _ _ => ?_
    refine hcolumn.bind fun names hnames => ?_
    exact (reads_expectType .rightParen ")" ")").bind fun _ _ => Reads.pure hnames

theorem reads_selected {c : SelectedColumn} (h : SelectedText ls c)
    (hrest : TypeNotNext .dot rest) : Reads parseSelected ls rest (·.erased = c) := by
  refine reads_positionHere.look fun position _ => ?_
  cases h with
  | column c =>
    have hnames : ∀ {γ : Type} {fromText : String → Option γ},
        (∀ n : Name, fromText n.text = none) →
        Reads (nextNames fromText) [] (c.lexemes ++ rest) (· = none) := by
      intro γ fromText hfrom
      obtain ⟨n, ls, hls⟩ := c.lexemes_eq
      rw [hls]
      exact reads_nextNames (hfrom n)
    refine (hnames aggregateFromText_name).look fun aggregate haggregate => ?_
    rw [haggregate]
    refine (hnames scalarFromText_name).look fun scalarFunction hscalar => ?_
    rw [hscalar]
    refine (reads_columnName c _ hrest).last fun names hcolumn => ?_
    rw [hcolumn]
    exact (reads_positionBefore _).look fun _ _ => Reads.pure rfl
  | aggregate h =>
    obtain ⟨text, ls', rfl, hfunction, hreads⟩ := h.reads "selected column"
    refine (reads_nextNames_eq (word text)).look fun aggregate haggregate => ?_
    rw [haggregate, show (word text).text = text from rfl, hfunction]
    refine reads_advance ?_
    refine (hreads rest).last fun names hnames => Reads.pure ?_
    rw [hnames]
    rfl
  | @scalar function c hfunction =>
    refine (reads_nextNames_eq (word (scalarText function))).look fun aggregate haggregate => ?_
    rw [haggregate, show (word (scalarText function)).text = scalarText function from rfl,
      aggregateFromText_scalarText]
    refine (reads_nextNames_eq (word (scalarText function))).look fun scalar hscalar => ?_
    rw [hscalar, show (word (scalarText function)).text = scalarText function from rfl,
      scalarFromText_scalarText hfunction]
    refine reads_advance ?_
    have hclose : StartsIn [⟨.rightParen, ")"⟩] ([⟨.rightParen, ")"⟩] ++ rest) :=
      .cons List.mem_cons_self
    refine (reads_expectType .leftParen "(" "(").bind fun _ _ => ?_
    refine (reads_columnName c _ (hclose.typeNotNext (by decide))).bind fun names hnames => ?_
    refine (reads_expectType .rightParen ")" ")").bind fun _ _ => Reads.pure ?_
    rw [hnames]
    rfl

/-- What may follow a name that is the last of its item, where an alias may follow. -/
structure EndsName (rest : List Lexeme) : Prop where
  dot : TypeNotNext .dot rest
  as : NotNext "AS" rest

theorem AliasText.startsIn {tableAlias : String} (h : AliasText ls tableAlias)
    (hrest : TypeNotNext .dot rest) : TypeNotNext .dot (ls ++ rest) := by
  cases h with
  | absent => exact hrest
  | present n =>
    exact typeNotNext_cons fun h => by cases h

theorem reads_selectedColumn {c : SelectedColumn} (h : SelectedColumnText ls c)
    (hrest : EndsName rest) : Reads parseSelectedColumn ls rest (·.erased = c) := by
  cases h with
  | mk h halias =>
    refine (reads_selected h (halias.startsIn hrest.dot)).bind fun selected hselected => ?_
    refine (reads_alias halias hrest.as).last fun columnAlias hcolumn => Reads.pure ?_
    rw [hcolumn, ← hselected]
    rfl

theorem reads_plainColumn {c : SelectedColumn} {label : String} (h : PlainColumnText ls c)
    (hrest : TypeNotNext .dot rest) : Reads (parsePlainColumn label) ls rest (·.erased = c) := by
  cases h with
  | mk c =>
    refine reads_positionHere.look fun position _ => ?_
    refine (reads_columnName c label hrest).last fun names hnames => ?_
    rw [hnames]
    exact (reads_positionBefore _).look fun _ _ => Reads.pure rfl

/-- What may follow a column of `ORDER BY`. -/
structure EndsOrder (rest : List Lexeme) : Prop where
  dot : TypeNotNext .dot rest
  ascending : NotNext "ASC" rest
  descending : NotNext "DESC" rest

theorem reads_orderColumn {c : OrderByColumn} (h : OrderColumnText ls c) (hrest : EndsOrder rest) :
    Reads parseOrderByColumn ls rest (·.erased = c) := by
  have hword : ∀ text, TypeNotNext .dot ([word text] ++ rest) := by
    intro text l hl
    cases hl
    exact fun h => by cases h
  cases h with
  | plain h =>
    refine (reads_plainColumn h hrest.dot).last fun column hcolumn => ?_
    refine (reads_matchText_false hrest.ascending).unmatched ?_
    refine (reads_matchText_false hrest.descending).unmatched (Reads.pure ?_)
    rw [← hcolumn]
    rfl
  | ascending h =>
    refine (reads_plainColumn h (hword "ASC")).bind fun column hcolumn => ?_
    refine (reads_matchText .word "ASC").matched (Reads.pure ?_)
    rw [← hcolumn]
    rfl
  | descending h =>
    refine (reads_plainColumn h (hword "DESC")).bind fun column hcolumn => ?_
    refine (reads_matchText_false (notNext_word (by decide))).unmatched ?_
    refine (reads_matchText .word "DESC").matched (Reads.pure ?_)
    rw [← hcolumn]
    rfl

theorem reads_limitClause {limit : Option Nat} (h : Clause "LIMIT" LimitText ls limit)
    (hrest : NotNext "LIMIT" rest) : Reads parseLimitClause ls rest (· = limit) := by
  cases h with
  | absent => exact reads_parseLimitClause_none hrest
  | @present _ n h =>
    cases h with
    | mk hn =>
      have hlimit : Reads parseLimit [⟨.number, String.ofList (decimal n)⟩] rest (· = n) := by
        refine reads_atEnd (reads_takeToken fun t ht => ?_)
        have htype : t.type = .number := congrArg Lexeme.type ht
        have htext : t.text = String.ofList (decimal n) := congrArg Lexeme.text ht
        rw [htype, htext, String.toList_ofList, if_neg (fun h => h rfl), stoull_decimal hn,
          scanNumber_whole]
        exact Reads.pure rfl
      refine (reads_matchText .word "LIMIT").matched ?_
      refine hlimit.last fun a ha => Reads.pure ?_
      rw [ha]

theorem reads_quantifier {quantifier : QuerySetQuantifier} (h : QuantifierText ls quantifier)
    (hall : NotNext "ALL" rest) (hsome : NotNext "SOME" rest) :
    Reads parseQuantifier ls rest (· = quantifier) := by
  cases h with
  | all => exact (reads_matchText .word "ALL").matched (Reads.pure rfl)
  | some =>
    refine (reads_matchText_false (notNext_word (by decide))).unmatched ?_
    exact (reads_matchText .word "SOME").bind fun _ _ => Reads.pure rfl
  | absent =>
    refine (reads_matchText_false hall).unmatched ?_
    exact (reads_matchText_false hsome).look fun _ _ => Reads.pure rfl

end Names

/-! ## Lists -/

section Lists

variable {command : List Char} {ls rest : List Lexeme} {Item : List Lexeme → α → Prop}
  {item : Parser α} {erase : α → α} {Follow : List Lexeme → Prop}

/-- The function reads each of the items, where what follows it allows that. -/
def ScansItems (command : List Char) (item : Parser α) (Item : List Lexeme → α → Prop)
    (erase : α → α) (Follow : List Lexeme → Prop) : Prop :=
  ∀ ls a rest, Item ls a → Follow rest → Scans command item ls rest (erase · = a)

theorem scans_commaSeparated {as : List α} (h : Listed Item ls as)
    (hitem : ScansItems command item Item erase Follow)
    (hcomma : ∀ rest, Follow (⟨.comma, ","⟩ :: rest)) (hrest : Follow rest)
    (hend : TypeNotNext .comma rest) {turns : Nat} (hturns : ls.length < turns) :
    Scans command (commaSeparated item turns) ls rest (·.map erase = as) := by
  induction h generalizing turns with
  | @one ls a h =>
    cases turns with
    | zero => exact absurd hturns (Nat.not_lt_zero _)
    | succ turns =>
      refine (hitem ls a rest h hrest).last fun b hb => ?_
      have hnil : Scans command (do
          if ← matchType .comma then commaSeparated item turns else pure []) [] rest (· = []) :=
        Scans.unmatched (reads_matchType_false hend) (.matchType .comma) (.pure rfl)
      refine hnil.look fun bs hbs => Scans.pure ?_
      rw [hbs, List.map_singleton, hb]
  | @next ls ls' a as h _ ih =>
    cases turns with
    | zero => exact absurd hturns (Nat.not_lt_zero _)
    | succ turns =>
      have hless : ls'.length < turns := by
        rw [List.length_append, List.length_cons] at hturns
        omega
      refine (hitem ls a _ h (hcomma _)).bind fun b hb => ?_
      have hmore := Scans.matched (g := pure []) (reads_matchType .comma ",") (.matchType .comma)
        (ih hless)
      refine hmore.last fun bs hbs => Scans.pure ?_
      rw [List.map_cons, hb, hbs]

theorem scans_listOf {as : List α} (h : Listed Item ls as)
    (hitem : ScansItems command item Item erase Follow)
    (hcomma : ∀ rest, Follow (⟨.comma, ","⟩ :: rest)) (hrest : Follow rest)
    (hend : TypeNotNext .comma rest) :
    Scans command (listOf item) ls rest (·.map erase = as) := by
  refine (reads_tokensLeft.scans .tokensLeft).look fun n hn => ?_
  refine scans_commaSeparated h hitem hcomma hrest hend ?_
  rw [hn, List.length_append]
  omega

theorem scans_parseBy {keyword : String} {as : List α} (h : ByClause keyword Item ls as)
    (hitem : ScansItems command item Item erase Follow)
    (hcomma : ∀ rest, Follow (⟨.comma, ","⟩ :: rest)) (hrest : Follow rest)
    (hend : TypeNotNext .comma rest) (hkeyword : NotNext keyword rest) :
    Scans command (parseBy keyword item) ls rest (·.map erase = as) := by
  cases h with
  | absent =>
    exact Scans.unmatched (reads_matchText_false hkeyword) (.matchText keyword) (.pure rfl)
  | present h =>
    refine Scans.matched (reads_matchText .word keyword) (.matchText keyword) ?_
    refine ((reads_expectText .word "BY").scans (.expectText "BY")).bind fun _ _ => ?_
    exact scans_listOf h hitem hcomma hrest hend

end Lists

end ScratchDb.QueryParser
