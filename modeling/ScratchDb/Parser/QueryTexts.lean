import ScratchDb.Parser.ConditionTexts

/-!
# Whole queries are read as they are written

The clauses of a query follow one another, and each of them ends where a keyword of
a later one stands. A query nested in another is read with one level less, so the
levels that a text has suffice for every query that it may be written for.
-/

namespace ScratchDb.QueryParser

open Select

variable {α β : Type} {command : List Char} {ls rest : List Lexeme} {parseText : ParseText}
  {Nested : List Lexeme → ParsedQuery → Prop}

/-! ## What the clauses start with -/

/-- The keywords behind the clauses of a query. -/
def compoundFirsts : List Lexeme := [word "UNION", word "INTERSECT"]

def limitFirsts : List Lexeme := word "LIMIT" :: compoundFirsts

def orderFirsts : List Lexeme := word "ORDER" :: limitFirsts

def havingFirsts : List Lexeme := word "HAVING" :: orderFirsts

def groupFirsts : List Lexeme := word "GROUP" :: havingFirsts

def whereFirsts : List Lexeme := word "WHERE" :: groupFirsts

def joinFirsts : List Lexeme :=
  ⟨.comma, ","⟩ :: word "JOIN" :: word "LEFT" :: word "RIGHT" :: word "NATURAL" :: whereFirsts

theorem Clause.startsIn {keyword : String} {Body : List Lexeme → α → Prop} {a : Option α}
    {firsts : List Lexeme} (h : Clause keyword Body ls a) (hrest : StartsIn firsts rest) :
    StartsIn (word keyword :: firsts) (ls ++ rest) := by
  cases h with
  | absent => exact hrest.mono (List.subset_cons_self _ _)
  | present h => exact .cons List.mem_cons_self

theorem ByClause.startsIn {keyword : String} {Item : List Lexeme → α → Prop} {as : List α}
    {firsts : List Lexeme} (h : ByClause keyword Item ls as) (hrest : StartsIn firsts rest) :
    StartsIn (word keyword :: firsts) (ls ++ rest) := by
  cases h with
  | absent => exact hrest.mono (List.subset_cons_self _ _)
  | present h => exact .cons List.mem_cons_self

theorem startsIn_join (type : QueryJoinType) (rest : List Lexeme) :
    StartsIn joinFirsts (joinLexemes type ++ rest) := by
  cases type <;> exact .cons (by decide)

theorem Repeated.startsIn {joins : List QueryJoin} (h : Repeated (JoinText Nested) ls joins)
    (hrest : StartsIn whereFirsts rest) : StartsIn joinFirsts (ls ++ rest) := by
  cases h with
  | nil => exact hrest.mono (by decide)
  | next h _ =>
    cases h with
    | mk type htable hon _ =>
      rw [List.append_assoc, List.append_assoc]
      exact startsIn_join type _

/-! ## Sources and joins -/

theorem scans_parseFromSource (hnested : ReadsNested command parseText Nested)
    {source : String × String × Option ParsedQuery} (h : SourceText Nested ls source)
    (hrest : NotNext "AS" rest) :
    Scans command (parseFromSource parseText) ls rest
      (fun r => (r.1, r.2.1, erasedQuery r.2.2) = source) := by
  cases h with
  | @table ls name tableAlias h =>
    have hnone : Scans command (matchedToken (matchType .leftParen)) [] (ls ++ rest) (· = none) := by
      cases h with
      | mk n halias =>
        exact (reads_noParen fun h => by cases h).scans (.matchedToken (.matchType _))
    refine hnone.look fun opened hopened => ?_
    rw [hopened]
    refine ((reads_table h hrest).scans .parseTableReference).last fun names hnames => Scans.pure ?_
    rw [hnames]
    rfl
  | @derived ls ls' q n h has =>
    intro s hs
    rw [List.append_assoc] at hs
    obtain ⟨opened, t, r, u, hopened, hr, hu, herased⟩ := selectText_eq hnested h "derived table" hs
    have hname : Scans command (readIdentifier "table alias") [word n.text] rest (· = n.text) :=
      (reads_readIdentifier n _).scans (.readIdentifier _)
    -- the word `AS` may be missing
    have halias : Scans command (do
        let _ ← matchText "AS"
        readIdentifier "table alias") (ls' ++ [word n.text]) rest (· = n.text) := by
      rcases has with rfl | rfl
      · refine Scans.look ((reads_matchText_false (notNext_word (n.text_ne ?_))).scans
          (.matchText "AS")) fun _ _ => hname
        decide
      · exact ((reads_matchText .word "AS").scans (.matchText "AS")).bind fun _ _ => hname
    obtain ⟨tableAlias, v, hv, hstands, rfl⟩ := halias u hu
    obtain ⟨matched, w, hw, hread⟩ := Prog.bind_eq_ok hv
    refine ⟨("", n.text, some r.1), v, ?_, hstands, ?_⟩
    · rw [parseFromSource, Prog.bind_ok hopened]
      dsimp only
      rw [Prog.bind_ok hr]
      show (matchText "AS" >>= fun _ => readIdentifier "table alias" >>= fun tableAlias =>
        Pure.pure ("", tableAlias, some r.1)) u = _
      rw [Prog.bind_ok hw, Prog.bind_ok hread]
      rfl
    · show ("", n.text, some r.1.erased) = _
      rw [herased]

/-- A table with its alias, and its condition. -/
theorem scans_parseJoined (hnested : ReadsNested command parseText Nested) {names : String × String}
    {ls' : List Lexeme} {condition : Option Select.QueryCondition} (htable : TableText ls names)
    (hon : Clause "ON" (ConditionText Nested .or) ls' condition) (hrest : StartsIn joinFirsts rest)
    (type : QueryJoinType) :
    Scans command (parseJoined parseText type) (ls ++ ls') rest
      (·.erased = ⟨type, names.1, names.2, condition⟩) := by
  have hfollow := hon.startsIn hrest
  refine ((reads_table htable (hfollow.notNext (by decide))).scans .parseTableReference).bind
    fun names' hnames => ?_
  refine (scans_parseConditionAfter hnested hon
    ⟨hrest.typeNotNext (by decide), hrest.notNext (by decide), hrest.notNext (by decide)⟩
    (hrest.notNext (by decide))).last fun c hc => Scans.pure ?_
  rw [QueryJoin.erased, hc, hnames]

/-- The alternatives of a match leave the token that they have taken behind. -/
theorem matchOneOf_apply {texts : List String} {t : Token} {ts : List Token} {s : Cursor}
    (hrest : s.rest = t :: ts) (ht : t.text ∈ texts) :
    matchOneOf texts s = (.ok true, { s with rest := ts, previous := some t }) := by
  induction texts with
  | nil => cases ht
  | cons text texts ih =>
    have hmatch : matchText text s = if t.text = text then
        (.ok true, { s with rest := ts, previous := some t }) else (.ok false, s) := by
      rw [matchText, Prog.bind_ok (atEnd_apply s), hrest, List.isEmpty_cons,
        if_neg Bool.false_ne_true, Prog.bind_ok (token_apply hrest)]
      split
      · rw [Prog.bind_ok (advance_apply hrest)]
        rfl
      · rfl
    by_cases heq : t.text = text
    · rw [if_pos heq] at hmatch
      rw [matchOneOf, Prog.bind_ok hmatch]
      rfl
    · rw [if_neg heq] at hmatch
      rw [matchOneOf, Prog.bind_ok hmatch, if_neg Bool.false_ne_true]
      exact ih ((List.mem_cons.mp ht).resolve_left heq)

/-- What is read right behind a token of this text. -/
def ScansBehind (command : List Char) (text : String) (m : Parser α) (ls rest : List Lexeme)
    (Q : α → Prop) : Prop :=
  ∀ s : Cursor, s.Stands command (ls ++ rest) → (∃ t ∈ s.previous, t.text = text) →
    ∃ a t, m s = (.ok a, t) ∧ t.Stands command rest ∧ Q a

/-- One of some words, where what follows looks back at it. -/
theorem Scans.matchedOneOf {texts : List String} {text : String} {m n : Parser α} {Q : α → Prop}
    (htext : text ∈ texts) (hm : ScansBehind command text m ls rest Q) :
    Scans command (matchOneOf texts >>= fun b => if b = true then m else n) (word text :: ls) rest
      Q := by
  intro s hs
  obtain ⟨t, ts, hrest, ht, hts⟩ := List.map_eq_cons_iff.mp hs.lexemes
  have htoken : t.text = text := congrArg Lexeme.text ht
  have hmatch := matchOneOf_apply hrest (htoken ▸ htext)
  have hplaced : Cursor.Placed { s with rest := ts, previous := some t } :=
    hs.placed.of_suffix rfl (hrest ▸ List.suffix_cons t ts)
  obtain ⟨a, u, ha, hu, hq⟩ := hm { s with rest := ts, previous := some t }
    ⟨hs.command, hplaced, hts⟩ ⟨t, rfl, htoken⟩
  refine ⟨a, u, ?_, hu, hq⟩
  rw [Prog.bind_ok hmatch, if_pos rfl]
  exact ha

theorem ScansBehind.bind {text : String} {m : Parser α} {f : α → Parser β} {ls' : List Lexeme}
    {Q : α → Prop} {R : β → Prop} (hm : ScansBehind command text m ls (ls' ++ rest) Q)
    (hf : ∀ a, Q a → Scans command (f a) ls' rest R) :
    ScansBehind command text (m >>= f) (ls ++ ls') rest R := by
  intro s hs hprevious
  rw [List.append_assoc] at hs
  obtain ⟨a, t, ha, ht, hq⟩ := hm s hs hprevious
  obtain ⟨b, u, hb, hu, hr⟩ := hf a hq t ht
  exact ⟨b, u, by rw [Prog.bind_ok ha, hb], hu, hr⟩

theorem Scans.behind {m : Parser α} {Q : α → Prop} (h : Scans command m ls rest Q)
    (text : String) : ScansBehind command text m ls rest Q :=
  fun s hs _ => h s hs

/-- `JOIN`, and what `LEFT` and `RIGHT` are followed by. -/
theorem scans_parseConditionJoin (hnested : ReadsNested command parseText Nested)
    {names : String × String} {ls' : List Lexeme} {condition : Option Select.QueryCondition}
    (htable : TableText ls names) (hon : Clause "ON" (ConditionText Nested .or) ls' condition)
    (hrest : StartsIn joinFirsts rest) {type : QueryJoinType} {text : String} {more : List Lexeme}
    (htype : joinLexemes type = word text :: more)
    (hcondition : type = .inner ∨ type = .left ∨ type = .right) :
    ScansBehind command text (parseConditionJoin parseText) (more ++ (ls ++ ls')) rest
      (·.erased = ⟨type, names.1, names.2, condition⟩) := by
  have hjoin : Scans command (expectText "JOIN") [word "JOIN"] ((ls ++ ls') ++ rest)
      (fun _ => True) := (reads_expectText .word "JOIN").scans (.expectText _)
  rintro s hs ⟨t, ht, htext⟩
  have hprevious : previous s = (.ok (some t), s) := by
    rw [previous, Prog.bind_ok (Prog.get_apply s), Option.mem_def.mp ht]
    rfl
  have hword : parseConditionJoin parseText s = (if text = "LEFT" then
      expectText "JOIN" >>= fun _ => parseJoined parseText .left
    else if text = "RIGHT" then expectText "JOIN" >>= fun _ => parseJoined parseText .right
    else parseJoined parseText .inner) s := by
    rw [parseConditionJoin, Prog.bind_ok hprevious, ← htext]
    rfl
  rw [hword]
  rcases hcondition with rfl | rfl | rfl <;> cases htype
  · exact scans_parseJoined hnested htable hon hrest .inner s hs
  · exact hjoin.bind (fun _ _ => scans_parseJoined hnested htable hon hrest .left) s hs
  · exact hjoin.bind (fun _ _ => scans_parseJoined hnested htable hon hrest .right) s hs

theorem scans_parseNaturalJoin {names : String × String} (htable : TableText ls names)
    (hrest : StartsIn joinFirsts rest) :
    Scans command parseNaturalJoin (word "JOIN" :: ls) rest
      (·.erased = ⟨.natural, names.1, names.2, none⟩) := by
  refine ((reads_expectText .word "JOIN").scans (.expectText _)).bind fun _ _ => ?_
  refine ((reads_table htable (hrest.notNext (by decide))).scans .parseTableReference).last
    fun names' hnames => Scans.pure ?_
  rw [hnames]
  rfl

/-- A join, and those of the turns that follow. -/
theorem scans_join_last {turns : Parser (List QueryJoin)} {j j' : QueryJoin}
    {joins : List QueryJoin} (hturns : Scans command turns ls rest (erasedJoins · = joins))
    (hj : j'.erased = j) :
    Scans command (turns >>= fun js => pure (j' :: js)) ls rest (erasedJoins · = j :: joins) := by
  refine hturns.last fun js hjs => Scans.pure ?_
  rw [erasedJoins, hj, hjs]

/-- The loop over joins, for as many turns as tokens. -/
theorem scans_joinLoop (hnested : ReadsNested command parseText Nested) {joins : List QueryJoin}
    (h : Repeated (JoinText Nested) ls joins) (hrest : StartsIn whereFirsts rest) {turns : Nat}
    (hturns : ls.length < turns) :
    Scans command (joinLoop parseText turns) ls rest (erasedJoins · = joins) := by
  induction h generalizing turns with
  | nil =>
    cases turns with
    | zero => exact absurd hturns (Nat.not_lt_zero _)
    | succ turns =>
      refine Scans.unmatched (reads_matchType_false (hrest.typeNotNext (by decide)))
        (.matchType _) ?_
      refine Scans.unmatched (reads_matchOneOf_false fun text htext => ?_) (.matchOneOf _) ?_
      · simp only [List.mem_cons, List.not_mem_nil, or_false] at htext
        rcases htext with rfl | rfl | rfl <;> exact hrest.notNext (by decide)
      · exact Scans.unmatched (reads_matchText_false (hrest.notNext (by decide))) (.matchText _)
          (.pure rfl)
  | @next ls ls' j joins hjoin hmore ih =>
    cases turns with
    | zero => exact absurd hturns (Nat.not_lt_zero _)
    | succ turns =>
      have hfollow := hmore.startsIn hrest
      cases hjoin with
      | @mk l l' tableName tableAlias condition type htable hon hnatural =>
        have hless : ls'.length < turns := by
          rw [List.length_append, List.length_append] at hturns
          cases type <;> simp only [joinLexemes, List.length_cons, List.length_nil] at hturns <;>
            omega
        have hloop := ih hless
        rw [List.append_assoc]
        -- the joins that start with one of three words
        have hcondition : ∀ {text : String} {more : List Lexeme},
            joinLexemes type = word text :: more → text ∈ ["LEFT", "RIGHT", "JOIN"] →
            type = .inner ∨ type = .left ∨ type = .right →
            Scans command (joinLoop parseText (turns + 1)) (joinLexemes type ++ (l ++ l' ++ ls'))
              rest (erasedJoins · = ⟨type, tableName, tableAlias, condition⟩ :: joins) := by
          intro text more htype htext hinner
          have hjoin := scans_parseConditionJoin hnested htable hon hfollow htype hinner
          rw [htype, List.cons_append, ← List.append_assoc]
          refine Scans.unmatched (reads_matchType_false (typeNotNext_cons fun h => by cases h))
            (.matchType _) ?_
          refine Scans.matchedOneOf htext ?_
          exact hjoin.bind fun _ hj => scans_join_last hloop hj
        cases type with
        | cross =>
          refine Scans.matched (reads_matchType .comma ",") (.matchType _) ?_
          exact (scans_parseJoined hnested htable hon hfollow .cross).bind fun _ hj =>
            scans_join_last hloop hj
        | natural =>
          obtain rfl := hnatural rfl
          cases hon
          refine Scans.unmatched (reads_matchType_false (typeNotNext_cons (by decide)))
            (.matchType _) ?_
          refine Scans.unmatched (reads_matchOneOf_false fun text htext => ?_) (.matchOneOf _) ?_
          · simp only [List.mem_cons, List.not_mem_nil, or_false] at htext
            rcases htext with rfl | rfl | rfl <;> exact notNext_word (by decide)
          rw [List.append_nil]
          show Scans command _ ([word "NATURAL"] ++ (word "JOIN" :: l ++ ls')) rest _
          refine Scans.matched (reads_matchText .word "NATURAL") (.matchText _) ?_
          exact (scans_parseNaturalJoin htable hfollow).bind fun _ hj => scans_join_last hloop hj
        | inner => exact hcondition rfl (by decide) (.inl rfl)
        | left => exact hcondition rfl (by decide) (.inr (.inl rfl))
        | right => exact hcondition rfl (by decide) (.inr (.inr rfl))

theorem scans_parseJoins (hnested : ReadsNested command parseText Nested) {joins : List QueryJoin}
    (h : Repeated (JoinText Nested) ls joins) (hrest : StartsIn whereFirsts rest) :
    Scans command (parseJoins parseText) ls rest (erasedJoins · = joins) := by
  refine (reads_tokensLeft.scans .tokensLeft).look fun n hn => ?_
  refine scans_joinLoop hnested h hrest ?_
  rw [hn, List.length_append]
  omega

/-! ## One query -/

theorem SelectedText.starts {c : SelectedColumn} (h : SelectedText ls c) :
    ∃ text ls', ls = word text :: ls' := by
  cases h with
  | column c =>
    obtain ⟨n, ls', hls⟩ := c.lexemes_eq
    exact ⟨_, _, hls⟩
  | aggregate h =>
    cases h with
    | column c hfunction => exact ⟨_, _, rfl⟩
    | countAll => exact ⟨_, _, rfl⟩
  | scalar c hfunction => exact ⟨_, _, rfl⟩

theorem scans_parseSelectList {list : Bool × List SelectedColumn} (h : SelectListText ls list)
    (hrest : EndsName rest) (hend : TypeNotNext .comma rest) :
    Scans command parseSelectList ls rest
      (fun r => (r.1, r.2.map SelectedColumn.erased) = list) := by
  cases h with
  | all => exact Scans.matched (reads_matchType .star "*") (.matchType _) (.pure rfl)
  | columns h =>
    have hitem : ScansItems command parseSelectedColumn SelectedColumnText SelectedColumn.erased
        EndsName := fun ls c rest hc hfollow =>
      (reads_selectedColumn hc hfollow).scans .parseSelectedColumn
    have hcomma : ∀ rest, EndsName (⟨.comma, ","⟩ :: rest) := fun _ =>
      ⟨typeNotNext_cons (by decide), notNext_cons (by decide)⟩
    refine Scans.unmatched (reads_matchType_false ?_) (.matchType _) ?_
    · -- a column starts with a word
      have hstarts : ∃ text ls', ls = word text :: ls' := by
        cases h with
        | one h =>
          cases h with
          | mk h halias =>
            obtain ⟨text, ls', rfl⟩ := h.starts
            exact ⟨text, _, rfl⟩
        | next h _ =>
          cases h with
          | mk h halias =>
            obtain ⟨text, ls', rfl⟩ := h.starts
            exact ⟨text, _, rfl⟩
      obtain ⟨text, ls', rfl⟩ := hstarts
      exact typeNotNext_cons fun h => by cases h
    · refine (scans_listOf h hitem hcomma hrest hend).last fun cs hcs => Scans.pure ?_
      rw [hcs]

/-- A clause behind which these tokens may come. -/
theorem StartsIn.endsCondition {firsts : List Lexeme} (h : StartsIn firsts rest)
    (hdot : (firsts.all fun l => l.type ≠ .dot) = true)
    (hand : (firsts.all fun l => l.text ≠ "AND") = true)
    (hor : (firsts.all fun l => l.text ≠ "OR") = true) : EndsCondition rest :=
  ⟨h.typeNotNext hdot, h.notNext hand, h.notNext hor⟩

/-- The clauses of a query, one after the other. -/
theorem scans_parseSingleSelect (hnested : ReadsNested command parseText Nested) {q : ParsedQuery}
    (h : SingleText Nested ls q) (hrest : StartsIn compoundFirsts rest) :
    Scans command (parseSingleSelect parseText) ls rest (·.erased = q) := by
  cases h with
  | @mk list source joined where_ group having order limit selectAll selectedColumns groupByColumns
      orderByColumns tableName tableAlias derivedTable joins condition havingCondition limitCount
      hlist hsource hjoins hwhere hgroup hhaving horder hlimit =>
    -- what each clause is followed by
    have hafterOrder : StartsIn limitFirsts (limit ++ rest) := hlimit.startsIn hrest
    have hafterHaving : StartsIn orderFirsts ((order ++ limit) ++ rest) := by
      rw [List.append_assoc]
      exact horder.startsIn hafterOrder
    have hafterGroup : StartsIn havingFirsts ((having ++ (order ++ limit)) ++ rest) := by
      rw [List.append_assoc]
      exact hhaving.startsIn hafterHaving
    have hafterWhere : StartsIn groupFirsts ((group ++ (having ++ (order ++ limit))) ++ rest) := by
      rw [List.append_assoc]
      exact hgroup.startsIn hafterGroup
    have hafterJoins : StartsIn whereFirsts
        ((where_ ++ (group ++ (having ++ (order ++ limit)))) ++ rest) := by
      rw [List.append_assoc]
      exact hwhere.startsIn hafterWhere
    have hafterSource : StartsIn joinFirsts
        ((joined ++ (where_ ++ (group ++ (having ++ (order ++ limit))))) ++ rest) := by
      rw [List.append_assoc]
      exact hjoins.startsIn hafterJoins
    have hplain : ScansItems command (parsePlainColumn "group column") PlainColumnText
        SelectedColumn.erased (TypeNotNext .dot) := fun ls c rest hc hfollow =>
      (reads_plainColumn hc hfollow).scans (.parsePlainColumn _)
    have horderColumn : ScansItems command parseOrderByColumn OrderColumnText OrderByColumn.erased
        EndsOrder := fun ls c rest hc hfollow =>
      (reads_orderColumn hc hfollow).scans .parseOrderByColumn
    have hcomma : ∀ rest, TypeNotNext .dot (⟨.comma, ","⟩ :: rest) := fun _ =>
      typeNotNext_cons (by decide)
    have hcommaOrder : ∀ rest, EndsOrder (⟨.comma, ","⟩ :: rest) := fun rest =>
      ⟨hcomma rest, notNext_cons (by decide), notNext_cons (by decide)⟩
    have hfrom : ∀ rest, EndsName (word "FROM" :: rest) := fun _ =>
      ⟨typeNotNext_cons (fun h => by cases h), notNext_word (by decide)⟩
    refine (scans_parseSelectList hlist (hfrom _) (typeNotNext_cons fun h => by cases h)).bind
      fun r hr => ?_
    refine ((reads_expectText .word "FROM").scans (.expectText _)).bind fun _ _ => ?_
    refine (scans_parseFromSource hnested hsource (hafterSource.notNext (by decide))).bind
      fun src hsrc => ?_
    refine (scans_parseJoins hnested hjoins hafterJoins).bind fun js hjs => ?_
    refine (scans_parseConditionAfter hnested hwhere
      (hafterWhere.endsCondition (by decide) (by decide) (by decide))
      (hafterWhere.notNext (by decide))).bind fun c hc => ?_
    refine (scans_parseBy hgroup hplain hcomma (hafterGroup.typeNotNext (by decide))
      (hafterGroup.typeNotNext (by decide)) (hafterGroup.notNext (by decide))).bind fun gs hgs => ?_
    refine (scans_parseConditionAfter hnested hhaving
      (hafterHaving.endsCondition (by decide) (by decide) (by decide))
      (hafterHaving.notNext (by decide))).bind fun hv hhv => ?_
    refine (scans_parseBy horder horderColumn hcommaOrder
      ⟨hafterOrder.typeNotNext (by decide), hafterOrder.notNext (by decide),
        hafterOrder.notNext (by decide)⟩
      (hafterOrder.typeNotNext (by decide)) (hafterOrder.notNext (by decide))).bind fun os hos => ?_
    refine ((reads_limitClause hlimit (hrest.notNext (by decide))).scans .parseLimitClause).last
      fun n hn => Scans.pure ?_
    obtain ⟨rfl, rfl⟩ := Prod.mk.inj hr
    obtain ⟨rfl, hsrc'⟩ := Prod.mk.inj hsrc
    obtain ⟨rfl, rfl⟩ := Prod.mk.inj hsrc'
    rw [← hjs, ← hc, ← hgs, ← hhv, ← hos, hn]
    rfl

/-! ## Compounds -/

theorem CompoundText.startsIn {c : Option QueryCompound} (h : CompoundText Nested ls c) :
    StartsIn compoundFirsts (ls ++ []) := by
  cases h with
  | absent => exact .nil _
  | next operator _ _ _ => cases operator <;> exact .cons (by decide)

theorem scans_matchedToken {texts : List String} {text : String} (htext : text ∈ texts) :
    Scans command (matchedToken (matchOneOf texts)) [word text] rest
      (fun o => ∃ t, o = some t ∧ t.text = text) := by
  refine Scans.matchedOneOf htext ?_
  rintro s hs ⟨t, ht, hword⟩
  have hprevious : previousToken s = (.ok t, s) := by
    have hsome : previous s = (.ok (some t), s) := by
      rw [previous, Prog.bind_ok (Prog.get_apply s), Option.mem_def.mp ht]
      rfl
    rw [previousToken, Prog.bind_ok hsome]
    rfl
  exact ⟨some t, s, by rw [Prog.bind_ok hprevious]; rfl, hs, t, rfl, hword⟩

/-- A query with compound parts behind it. -/
theorem ParsedQuery.erased_compound {q q' : ParsedQuery} {compound compound' : Option QueryCompound}
    (hq : q'.erased = q) (hcompound : erasedCompound compound' = compound) :
    Select.ParsedQuery.erased { q' with compound := compound' } = { q with compound } := by
  rw [← hq, ← hcompound]
  cases q'
  rfl

theorem scans_compoundLoop (hnested : ReadsNested command parseText Nested)
    {c : Option QueryCompound} (h : CompoundText Nested ls c) {turns : Nat}
    (hturns : ls.length < turns) :
    Scans command (compoundLoop parseText turns) ls [] (erasedCompound · = c) := by
  induction h generalizing turns with
  | absent =>
    cases turns with
    | zero => exact absurd hturns (Nat.not_lt_zero _)
    | succ turns =>
      have hnone : Scans command (matchedToken (matchOneOf ["UNION", "INTERSECT"])) [] []
          (· = none) :=
        (reads_matchedToken_none (reads_matchOneOf_false fun text _ => notNext_nil text)).scans
          (.matchedToken (.matchOneOf _))
      refine hnone.look fun found hfound => ?_
      rw [hfound]
      exact .pure rfl
  | @next ls ls' ls'' quantifier q compound operator hquantifier hsingle hmore ih =>
    cases turns with
    | zero => exact absurd hturns (Nat.not_lt_zero _)
    | succ turns =>
      have hless : ls''.length < turns := by
        simp only [List.length_cons, List.length_append] at hturns
        omega
      have hword : operatorWord operator ∈ ["UNION", "INTERSECT"] := by
        cases operator <;> decide
      refine Scans.bind (scans_matchedToken hword) fun found hfound => ?_
      obtain ⟨t, rfl, ht⟩ := hfound
      refine ((reads_quantifier hquantifier (notNext_word (by decide))
        (notNext_word (by decide))).scans .parseQuantifier).bind fun quantifier' hq => ?_
      refine ((reads_expectText .word "SELECT").scans (.expectText _)).bind fun _ _ => ?_
      refine (scans_parseSingleSelect hnested hsingle hmore.startsIn).bind fun q' hq' => ?_
      refine (ih hless).last fun compound' hcompound => Scans.pure ?_
      have hoperator : (if t.text = "UNION" then QueryCompoundOperator.unionOp else .intersectOp) =
          operator := by
        rw [ht]
        cases operator <;> rfl
      rw [hoperator, hq, erasedCompound, QueryCompound.erased,
        ParsedQuery.erased_compound hq' hcompound]

theorem scans_parseCompoundSelect (hnested : ReadsNested command parseText Nested)
    {ls' : List Lexeme} {q : ParsedQuery} {c : Option QueryCompound} (h : SingleText Nested ls q)
    (hc : CompoundText Nested ls' c) :
    Scans command (parseCompoundSelect parseText) (ls ++ ls') []
      (·.erased = { q with compound := c }) := by
  refine (scans_parseSingleSelect hnested h hc.startsIn).bind fun q' hq => ?_
  refine (reads_tokensLeft.scans .tokensLeft).look fun n hn => ?_
  have hturns : ls'.length < n + 1 := by
    rw [hn, List.append_nil]
    omega
  refine (scans_compoundLoop hnested hc hturns).last fun c' hc' => ?_
  have hend : Forward (endOrError { q' with compound := c' }) :=
    Forward.atEnd.bind fun _ => .ite (.pure _) (Forward.token.bind fun _ => .fail _ _ _)
  refine ((reads_endOrError _).scans hend).mono fun q'' hq'' => ?_
  rw [hq'']
  exact ParsedQuery.erased_compound hq hc'

/-! ## Commands -/

theorem scans_tableExpression (hnested : ReadsNested command parseText Nested)
    {c : QueryCommonTableExpression} (h : TableExpressionText Nested ls c) :
    Scans command (parseCommonTableExpression parseText) ls rest (·.erased = c) := by
  cases h with
  | mk n h =>
    refine ((reads_readIdentifier n _).scans (.readIdentifier _)).bind fun name hname => ?_
    refine ((reads_expectText .word "AS").scans (.expectText _)).bind fun _ _ => ?_
    refine (scans_parseSubquery hnested h).last fun r hr => Scans.pure ?_
    rw [QueryCommonTableExpression.erased, hr, hname]

theorem scans_parseSelect (hnested : ReadsNested command parseText Nested) {ls' : List Lexeme}
    {q : ParsedQuery} {c : Option QueryCompound} (h : SingleText Nested ls q)
    (hc : CompoundText Nested ls' c) :
    Scans command (parseSelect parseText) (ls ++ ls') []
      (fun r => ∃ q', r = .selectAll q' ∧ q'.erased = { q with compound := c }) := by
  refine (scans_parseCompoundSelect hnested h hc).last fun q' hq => Scans.pure ?_
  exact ⟨q', rfl, hq⟩

theorem scans_parseWith (hnested : ReadsNested command parseText Nested)
    {ls' ls'' : List Lexeme} {ctes : List QueryCommonTableExpression} {q : ParsedQuery}
    {c : Option QueryCompound} (hctes : Listed (TableExpressionText Nested) ls ctes)
    (h : SingleText Nested ls' q) (hc : CompoundText Nested ls'' c) :
    Scans command (parseWith parseText) (ls ++ word "SELECT" :: (ls' ++ ls'')) []
      (fun r => ∃ q', r = .selectAll q' ∧
        q'.erased = { q with compound := c, commonTableExpressions := ctes }) := by
  have hitem : ScansItems command (parseCommonTableExpression parseText)
      (TableExpressionText Nested) QueryCommonTableExpression.erased (fun _ => True) :=
    fun ls c rest hc _ => scans_tableExpression hnested hc
  refine (scans_listOf hctes hitem (fun _ => trivial) trivial
    (typeNotNext_cons fun h => by cases h)).bind fun ctes' hctes' => ?_
  refine ((reads_expectText .word "SELECT").scans (.expectText _)).bind fun _ _ => ?_
  refine (scans_parseCompoundSelect hnested h hc).last fun q' hq => Scans.pure ?_
  refine ⟨{ q' with commonTableExpressions := ctes' }, rfl, ?_⟩
  have herased : Select.ParsedQuery.erased { q' with commonTableExpressions := ctes' } =
      { q'.erased with commonTableExpressions := erasedTables ctes' } := by
    cases q'
    rfl
  rw [herased, hq, erasedTables_eq, hctes']

/-- A command that starts with `SELECT` or `WITH`. -/
theorem scans_parse {text : String} {Q : ParsedCommand → Prop}
    (htext : text = "SELECT" ∨ text = "WITH")
    (hselect : text = "SELECT" → Scans command (parseSelect parseText) ls [] Q)
    (hwith : text = "WITH" → Scans command (parseWith parseText) ls [] Q) :
    Scans command (parse parseText) (word text :: ls) [] Q := by
  have hother : ∀ {other : String}, other ≠ "SELECT" → other ≠ "WITH" →
      NotNext other (word text :: ls ++ []) := by
    intro other hneSelect hneWith
    rcases htext with rfl | rfl
    · exact notNext_word hneSelect.symm
    · exact notNext_word hneWith.symm
  have hskip : ∀ {other : String} {f g : Parser ParsedCommand}, other ≠ "SELECT" →
      other ≠ "WITH" → Scans command g (word text :: ls) [] Q →
      Scans command (matchText other >>= fun b => if b = true then f else g) (word text :: ls) []
        Q := by
    intro other f g hneSelect hneWith hg
    exact Scans.unmatched (reads_matchText_false (hother hneSelect hneWith)) (.matchText _) hg
  have hskipAll : ∀ {texts : List String} {f g : Parser ParsedCommand}, "SELECT" ∉ texts →
      "WITH" ∉ texts → Scans command g (word text :: ls) [] Q →
      Scans command (matchOneOf texts >>= fun b => if b = true then f else g) (word text :: ls) []
        Q := by
    intro texts f g hnotSelect hnotWith hg
    refine Scans.unmatched (reads_matchOneOf_false fun other hmem => ?_) (.matchOneOf _) hg
    exact hother (fun h => hnotSelect (h ▸ hmem)) (fun h => hnotWith (h ▸ hmem))
  -- the keywords that come first in the source do not stand here
  have hknown : ∀ first : Token,
      Scans command (parseKnown parseText first) (word text :: ls) [] Q := by
    intro first
    rw [parseKnown]
    refine hskipAll (by decide) (by decide) ?_
    refine hskip (by decide) (by decide) <| hskip (by decide) (by decide) ?_
    refine hskip (by decide) (by decide) <| hskip (by decide) (by decide) ?_
    refine hskip (by decide) (by decide) <| hskip (by decide) (by decide) ?_
    refine hskip (by decide) (by decide) <| hskip (by decide) (by decide) ?_
    refine hskip (by decide) (by decide) <| hskipAll (by decide) (by decide) ?_
    refine hskip (by decide) (by decide) ?_
    rcases htext with rfl | rfl
    · exact Scans.matched (reads_matchText .word "SELECT") (.matchText _) (hselect rfl)
    · refine Scans.unmatched (reads_matchText_false (notNext_word (by decide))) (.matchText _) ?_
      exact Scans.matched (reads_matchText .word "WITH") (.matchText _) (hwith rfl)
  intro s hs
  obtain ⟨t, ts, hrest, ht, -⟩ := List.map_eq_cons_iff.mp hs.lexemes
  have hkeyword : lowercaseKeyword t = false := by
    rw [lowercaseKeyword, show t.text = text from congrArg Lexeme.text ht]
    rcases htext with rfl | rfl
    · rw [show isLowercaseKeyword "SELECT" = false by decide, Bool.and_false]
    · rw [show isLowercaseKeyword "WITH" = false by decide, Bool.and_false]
  obtain ⟨r, u, hr, hu, hq⟩ := hknown t s hs
  refine ⟨r, u, ?_, hu, hq⟩
  rw [parse, Prog.bind_ok (atEnd_apply s), hrest, List.isEmpty_cons, if_neg Bool.false_ne_true,
    Prog.bind_ok (token_apply hrest), hkeyword, if_neg Bool.false_ne_true]
  exact hr

/-- The tokens of a query are read by `parse`. -/
theorem SelectText.scans (hnested : ReadsNested command parseText Nested) {q : ParsedQuery}
    (h : SelectText Nested ls q) :
    Scans command (parse parseText) ls [] (fun r => ∃ q', r = .selectAll q' ∧ q'.erased = q) := by
  cases h with
  | plain hsingle hcompound =>
    exact scans_parse (.inl rfl) (fun _ => scans_parseSelect hnested hsingle hcompound)
      (fun h => absurd h (by decide))
  | common hctes hsingle hcompound =>
    exact scans_parse (.inr rfl) (fun h => absurd h (by decide))
      (fun _ => scans_parseWith hnested hctes hsingle hcompound)

/-! ## Texts -/

/-- A text that is longer than the levels it needs. -/
theorem parseLevels_selectWithin {n levels : Nat} {q : ParsedQuery} {text : List Char}
    (h : SelectWithin n ls q) (htext : Renders ls text) (hlevels : text.length < levels) :
    ∃ q', (parseLevels levels text).1 = .ok (.selectAll q') ∧ q'.erased = q := by
  induction n generalizing ls levels q text with
  | zero => exact absurd h id
  | succ n ih =>
    rcases h with h | h
    · exact ih h htext hlevels
    · cases levels with
      | zero => exact absurd hlevels (Nat.not_lt_zero _)
      | succ levels =>
        have hnested : ReadsNested text (parseLevels levels) (SelectWithin n) := by
          constructor
          · exact fun ls q hq => hq.written
          · intro ls q inner hq hinner hshorter
            exact ih hq hinner (Nat.lt_of_lt_of_le hshorter (Nat.le_of_lt_succ hlevels))
        have hwritten := h.written hnested.written
        obtain ⟨tokens, htokens, hlexemes⟩ := tokenize_renders htext hwritten.plain hwritten.closes
        have hplaced : PlacedAt 0 text tokens :=
          (placedAt_of_tokenizeFrom htext hwritten.plain (Nat.le_refl _) htokens).1
        let s : Cursor := { command := text, rest := tokens, previous := none, calls := [] }
        have hs : s.Stands text (ls ++ []) := by
          constructor
          · rfl
          · exact ⟨[], text, rfl, hplaced⟩
          · rw [List.append_nil]
            exact hlexemes
        obtain ⟨r, u, hrun, -, q', rfl, hq⟩ := h.scans hnested s hs
        refine ⟨q', ?_, hq⟩
        simp only [parseLevels, htokens]
        show (parse (parseLevels levels) s).1 = _
        rw [hrun]

/-- Each text that a query may be written as is read back as that query, at whatever depth its
subqueries stand. -/
theorem parseWithError_sentence {q : ParsedQuery} {text : List Char} (h : SelectSentence ls q)
    (htext : Renders ls text) :
    ∃ q', (parseWithError text).1 = .ok (.selectAll q') ∧ q'.erased = q := by
  rcases h with ⟨n, h⟩
  exact parseLevels_selectWithin h htext (Nat.lt_succ_self _)

/-! ## A query in a query -/

/-- The tokens of `SELECT a FROM t WHERE b IN (SELECT c FROM u) LIMIT 3`. -/
def nestedLexemes : List Lexeme :=
  [word "SELECT", word "a", word "FROM", word "t", word "WHERE", word "b", word "IN",
    ⟨.leftParen, "("⟩, word "SELECT", word "c", word "FROM", word "u", ⟨.rightParen, ")"⟩,
    word "LIMIT", ⟨.number, "3"⟩]

/-- A query for one column of one table. -/
def columnQuery (column table : String) (condition : Option Select.QueryCondition)
    (limitCount : Option Nat) : ParsedQuery :=
  { ParsedQuery.allOf table with
    selectAll := false, selectedColumns := [{ columnName := column }], condition, limitCount }

def nestedQuery : ParsedQuery :=
  columnQuery "a" "t"
    (some (.subquery (.columnReference "" "b" "" 0) .isIn (columnQuery "c" "u" none none)))
    (some 3)

theorem selectText_plain (column table : Name) {ls' : List Lexeme}
    {condition : Option Select.QueryCondition} {limitCount : Option Nat}
    (hwhere : Clause "WHERE" (ConditionText Nested .or) ls condition)
    (hlimit : Clause "LIMIT" LimitText ls' limitCount) :
    SelectText Nested
      (word "SELECT" :: word column.text :: word "FROM" :: word table.text :: (ls ++ ls'))
      (columnQuery column.text table.text condition limitCount) := by
  have hlist : SelectListText ([word column.text] ++ []) (false, [{ columnName := column.text }]) :=
    .columns (.one (.mk (.column ⟨none, column⟩) .absent))
  have hsource : SourceText Nested [word table.text] (table.text, "", none) :=
    .table (.mk table .absent)
  have hsingle := SingleText.mk hlist hsource .nil hwhere .absent .absent .absent hlimit
  have hselect := SelectText.plain hsingle .absent
  rw [List.append_nil] at hselect
  exact hselect

theorem selectSentence_nested : SelectSentence nestedLexemes nestedQuery := by
  have hinner : SelectWithin 1 [word "SELECT", word "c", word "FROM", word "u"]
      (columnQuery "c" "u" none none) :=
    .inr (selectText_plain ⟨"c", by decide, by decide⟩ ⟨"u", by decide, by decide⟩ .absent .absent)
  have hcondition : ConditionText (SelectWithin 1) .or
      (word "b" :: word "IN" :: inParens [word "SELECT", word "c", word "FROM", word "u"])
      (.subquery (.columnReference "" "b" "" 0) .isIn (columnQuery "c" "u" none none)) :=
    .ofAnd (.ofNot (.test (.column ⟨none, ⟨"b", by decide, by decide⟩⟩) (.isIn hinner)))
  have hlimit : LimitText [⟨.number, "3"⟩] 3 := @LimitText.mk 3 (by decide)
  exact ⟨2, .inr (selectText_plain ⟨"a", by decide, by decide⟩ ⟨"t", by decide, by decide⟩
    (.present hcondition) (.present hlimit))⟩

theorem renders_nested :
    Renders nestedLexemes "SELECT a FROM t WHERE b IN(SELECT c FROM u) LIMIT 3".toList :=
  @Renders.next [] _ _ _ rfl rfl <| @Renders.next [' '] _ _ _ rfl rfl <|
  @Renders.next [' '] _ _ _ rfl rfl <| @Renders.next [' '] _ _ _ rfl rfl <|
  @Renders.next [' '] _ _ _ rfl rfl <| @Renders.next [' '] _ _ _ rfl rfl <|
  @Renders.next [' '] _ _ _ rfl rfl <| @Renders.next [] _ _ _ rfl rfl <|
  @Renders.next [] _ _ _ rfl rfl <| @Renders.next [' '] _ _ _ rfl rfl <|
  @Renders.next [' '] _ _ _ rfl rfl <| @Renders.next [' '] _ _ _ rfl rfl <|
  @Renders.next [] _ _ _ rfl rfl <| @Renders.next [' '] _ _ _ rfl rfl <|
  @Renders.next [' '] _ _ _ rfl rfl <| .nil fun _ hc => absurd hc List.not_mem_nil

theorem parseWithError_sentence_nested :
    ∃ q', (parseWithError "SELECT a FROM t WHERE b IN(SELECT c FROM u) LIMIT 3".toList).1 =
      .ok (.selectAll q') ∧ q'.erased = nestedQuery :=
  parseWithError_sentence selectSentence_nested renders_nested

end ScratchDb.QueryParser
