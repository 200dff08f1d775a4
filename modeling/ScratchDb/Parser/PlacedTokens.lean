import ScratchDb.Parser.ParsedTrees

/-!
# Tokens at their places

The tokens of a command stand where their positions say. The parser keeps this, as
it only goes forward, and so the text between two parentheses is made of the tokens
between them.
-/

namespace ScratchDb.QueryParser

variable {α β : Type}

/-! ## Where tokens stand -/

/-- The tokens of a text that starts at `i`, with whitespace between them. -/
inductive PlacedAt : Nat → List Char → List Token → Prop where
  | nil {i : Nat} {gap : List Char} : IsGap gap → PlacedAt i gap []
  | cons {i : Nat} {gap text : List Char} {t : Token} {ts : List Token} :
      IsGap gap → KeepsApart t.type (ts.map Token.lexeme) text → t.position = i + gap.length →
      PlacedAt (t.position + t.text.toList.length) text ts →
      PlacedAt i (gap ++ (t.text.toList ++ text)) (t :: ts)

/-- `tokenize` places the tokens that it reads. -/
theorem placedAt_of_tokenizeFrom {ls : List Lexeme} {text : List Char} (h : Renders ls text)
    (hplain : ∀ l ∈ ls, l.Plain) {turns i : Nat} {parens : List Nat} {tokens : List Token}
    (hturns : text.length ≤ turns) (htokens : tokenizeFrom turns i text parens = .ok tokens) :
    PlacedAt i text tokens ∧ tokens.map Token.lexeme = ls := by
  induction h generalizing turns i parens tokens with
  | @nil gap hgap =>
    have hfinish : finishTokens parens = .ok tokens := by
      cases turns with
      | zero => exact htokens
      | succ turns =>
        have hdrop := @dropWhile_gap gap [] hgap (by simp)
        rw [List.append_nil] at hdrop
        simpa only [tokenizeFrom, hdrop] using htokens
    cases parens with
    | nil =>
      cases hfinish
      exact ⟨.nil hgap, rfl⟩
    | cons p parens => cases hfinish
  | @cons gap l ls text hgap hapart htail ih =>
    have hl : l.Plain := hplain l List.mem_cons_self
    have hls : ∀ l' ∈ ls, l'.Plain := fun l' hl' => hplain l' (List.mem_cons_of_mem l hl')
    obtain ⟨ch, cs, hstart, hstarts⟩ := Plain.starts hl
    have htext : l.text.toList ++ text = ch :: (cs ++ text) := by rw [hstart, List.cons_append]
    cases turns with
    | zero => simp [hstart] at hturns
    | succ turns =>
      have hstop : ∀ c ∈ (l.text.toList ++ text).head?, isSpace c = false := by
        rw [htext]
        intro c hc
        cases hc
        exact not_isSpace_of_startsWith hstarts
      have hdrop := dropWhile_gap hgap hstop
      have htakeGap : (gap ++ (l.text.toList ++ text)).takeWhile isSpace = gap :=
        takeWhile_append_of_ends hgap hstop
      have hread := hl.readToken_eq (htail.ends hls hapart) (i + gap.length) htext
      have hlength : text.length ≤ turns := by
        rw [htext] at hturns
        simp only [List.length_append, List.length_cons] at hturns
        omega
      have htake : (ch :: (cs ++ text)).take l.text.toList.length = l.text.toList := by
        rw [← htext, List.take_left']
        rfl
      have hrest : (ch :: (cs ++ text)).drop l.text.toList.length = text := by
        rw [← htext, List.drop_left']
        rfl
      -- the token, and the rest of the tokens behind it
      have hnext : ∀ opened : List Nat,
          (tokenizeFrom turns (i + gap.length + l.text.toList.length) text opened).map
            (⟨l.type, l.text, i + gap.length⟩ :: ·) = .ok tokens →
          PlacedAt i (gap ++ (l.text.toList ++ text)) tokens ∧
            tokens.map Token.lexeme = l :: ls := by
        intro opened hopened
        cases hts : tokenizeFrom turns (i + gap.length + l.text.toList.length) text opened with
        | error e =>
          rw [hts] at hopened
          cases hopened
        | ok ts =>
          rw [hts] at hopened
          cases hopened
          obtain ⟨hplaced, hlexemes⟩ := ih hls hlength hts
          exact ⟨PlacedAt.cons (t := ⟨l.type, l.text, i + gap.length⟩) hgap (hlexemes ▸ hapart) rfl
            hplaced, congrArg (l :: ·) hlexemes⟩
      rw [htext] at hdrop htakeGap
      rw [htext] at htokens
      simp only [tokenizeFrom, hdrop, htakeGap, hread, htake, hrest, String.ofList_toList] at htokens
      obtain ⟨type, text'⟩ := l
      cases type with
      | rightParen =>
        cases parens with
        | nil => cases htokens
        | cons p parens => exact hnext _ htokens
      | _ => exact hnext _ htokens

/-- What stands behind some of the tokens. -/
theorem PlacedAt.behind {i : Nat} {text : List Char} {front ts : List Token}
    (h : PlacedAt i text (front ++ ts)) :
    ∃ before after, text = before ++ after ∧ PlacedAt (i + before.length) after ts := by
  induction front generalizing i text with
  | nil => exact ⟨[], text, rfl, h⟩
  | cons t front ih =>
    cases h with
    | @cons i gap text t _ hgap hapart hposition hrest =>
      obtain ⟨before, after, rfl, hafter⟩ := ih hrest
      refine ⟨gap ++ (t.text.toList ++ before), after, by simp, ?_⟩
      have hstart : i + (gap ++ (t.text.toList ++ before)).length =
          t.position + t.text.toList.length + before.length := by
        simp only [List.length_append]
        omega
      rw [hstart]
      exact hafter

theorem Renders.ne_nil {l : Lexeme} {ls : List Lexeme} {text : List Char}
    (h : Renders (l :: ls) text) (hl : l.Plain) : text ≠ [] := by
  cases h with
  | @cons gap l ls text =>
    obtain ⟨c, cs, hstart, -⟩ := Plain.starts hl
    rw [hstart]
    simp

/-- The text in front of a token is made of the tokens in front of it. -/
theorem PlacedAt.renders {i : Nat} {text : List Char} {front ts : List Token} {t : Token}
    (h : PlacedAt i text (front ++ t :: ts)) (hplain : ∀ u ∈ front, u.lexeme.Plain) :
    ∃ inner outer, text = inner ++ (t.text.toList ++ outer) ∧ t.position = i + inner.length ∧
      Renders (front.map Token.lexeme) inner := by
  induction front generalizing i text with
  | nil =>
    cases h with
    | @cons i gap text t _ hgap hapart hposition hrest => exact ⟨gap, text, rfl, hposition, .nil hgap⟩
  | cons u front ih =>
    cases h with
    | @cons i gap text u _ hgap hapart hposition hrest =>
      have hfront : ∀ v ∈ front, v.lexeme.Plain := fun v hv => hplain v (List.mem_cons_of_mem u hv)
      obtain ⟨inner, outer, rfl, hinner, hrenders⟩ := ih hrest hfront
      refine ⟨gap ++ (u.text.toList ++ inner), outer, by simp, ?_, .cons hgap ?_ hrenders⟩
      · simp only [List.length_append]
        omega
      · -- a blank in front of the next token is in front of the last one as well
        intro l hl hblank
        cases front with
        | nil => cases hl
        | cons v front =>
          obtain ⟨c, hc, hspace⟩ := hapart l hl hblank
          refine ⟨c, ?_, hspace⟩
          cases inner with
          | nil => exact absurd rfl (hrenders.ne_nil (hfront v List.mem_cons_self))
          | cons d inner => exact hc

/-! ## Parts of the parser that go forward -/

/-- Where `m` returns, it has taken some of the tokens, and the command is the same. -/
def Forward (m : Parser α) : Prop :=
  ∀ s a t, m s = (.ok a, t) → t.command = s.command ∧ t.rest <:+ s.rest

namespace Forward

theorem pure (a : α) : Forward (Pure.pure a : Parser α) := by
  intro s b t h
  cases h
  exact ⟨rfl, List.suffix_rfl⟩

theorem stop (e : Stop) : Forward (Prog.stop e : Parser α) := by
  intro s a t h
  cases h

theorem bind {m : Parser α} {f : α → Parser β} (hm : Forward m) (hf : ∀ a, Forward (f a)) :
    Forward (m >>= f) := by
  intro s b t h
  obtain ⟨a, u, ha, hb⟩ := Prog.bind_eq_ok h
  obtain ⟨hcommand, hrest⟩ := hm s a u ha
  obtain ⟨hcommand', hrest'⟩ := hf a u b t hb
  exact ⟨hcommand'.trans hcommand, hrest'.trans hrest⟩

theorem ite {p : Prop} [Decidable p] {m n : Parser α} (hm : Forward m) (hn : Forward n) :
    Forward (if p then m else n) := by
  split
  · exact hm
  · exact hn

theorem get : Forward (Prog.get : Parser Cursor) := by
  intro s a t h
  cases h
  exact ⟨rfl, List.suffix_rfl⟩

theorem atEnd : Forward QueryParser.atEnd := get.bind fun _ => pure _

theorem token : Forward QueryParser.token := by
  refine get.bind fun s => ?_
  cases s.rest with
  | nil => exact stop _
  | cons t ts => exact pure t

theorem advance : Forward QueryParser.advance := by
  intro s a t h
  cases h
  exact ⟨rfl, List.tail_suffix _⟩

theorem previous : Forward QueryParser.previous := get.bind fun _ => pure _

theorem tokensLeft : Forward QueryParser.tokensLeft := get.bind fun _ => pure _

theorem fail (message text : String) (position : Nat) :
    Forward (QueryParser.fail message text position : Parser α) := stop _

theorem failAtEnd (message : String) : Forward (QueryParser.failAtEnd message : Parser α) :=
  get.bind fun _ => fail _ _ _

theorem expected (text : String) : Forward (QueryParser.expected text : Parser α) :=
  atEnd.bind fun _ => ite (failAtEnd _) (token.bind fun _ => fail _ _ _)

theorem of_isMatch {m : Parser Bool} (h : IsMatch m) :
    Forward m := by
  intro s a t hm
  rcases h s with hfalse | ⟨u, us, hrest, htrue⟩
  · rw [hfalse] at hm
    cases hm
    exact ⟨rfl, List.suffix_rfl⟩
  · rw [htrue] at hm
    cases hm
    rw [hrest]
    exact ⟨rfl, List.suffix_cons u us⟩

theorem expectText (text : String) : Forward (QueryParser.expectText text) :=
  (of_isMatch (isMatch_matchText text)).bind fun _ => ite (pure _) (expected _)

theorem expectType (type : TokenType) (text : String) :
    Forward (QueryParser.expectType type text) :=
  (of_isMatch (isMatch_matchType type)).bind fun _ => ite (pure _) (expected _)

theorem readIdentifier (label : String) : Forward (QueryParser.readIdentifier label) :=
  atEnd.bind fun _ => ite (failAtEnd _) <| token.bind fun _ =>
    ite (fail _ _ _) <| ite (fail _ _ _) <| advance.bind fun _ => pure _

end Forward

/-! ## Reading tokens at their places -/

/-- The rest of the tokens stands at the end of the command. -/
def Cursor.Placed (s : Cursor) : Prop :=
  ∃ front text, s.command = front ++ text ∧ PlacedAt front.length text s.rest

/-- The cursor is in this command, before these tokens. -/
structure Cursor.Stands (command : List Char) (ls : List Lexeme) (s : Cursor) : Prop where
  command : s.command = command
  placed : s.Placed
  lexemes : s.rest.map Token.lexeme = ls

theorem Cursor.Placed.of_suffix {s t : Cursor} (h : s.Placed) (hcommand : t.command = s.command)
    (hrest : t.rest <:+ s.rest) : t.Placed := by
  obtain ⟨front, text, htext, hplaced⟩ := h
  obtain ⟨taken, htaken⟩ := hrest
  rw [← htaken] at hplaced
  obtain ⟨before, after, rfl, hafter⟩ := hplaced.behind
  refine ⟨front ++ before, after, ?_, ?_⟩
  · rw [hcommand, htext, List.append_assoc]
  · rw [List.length_append]
    exact hafter

/-- As `Reads`, in a command whose tokens stand at their places. -/
def Scans (command : List Char) (m : Parser α) (ls rest : List Lexeme) (Q : α → Prop) : Prop :=
  ∀ s : Cursor, s.Stands command (ls ++ rest) →
    ∃ a t, m s = (.ok a, t) ∧ t.Stands command rest ∧ Q a

section Scans

variable {command : List Char} {ls ls' rest : List Lexeme} {Q : α → Prop} {R : β → Prop}

/-- What is read of any tokens is read of those at their places. -/
theorem Reads.scans {m : Parser α} (h : Reads m ls rest Q) (hm : Forward m) :
    Scans command m ls rest Q := by
  intro s hs
  obtain ⟨a, t, ha, ht, -, hq⟩ := h s hs.lexemes
  obtain ⟨hcommand, hrest⟩ := hm s a t ha
  exact ⟨a, t, ha, ⟨hcommand.trans hs.command, hs.placed.of_suffix hcommand hrest, ht⟩, hq⟩

namespace Scans

theorem pure {a : α} (h : Q a) : Scans command (Pure.pure a) [] rest Q :=
  fun s hs => ⟨a, s, rfl, hs, h⟩

theorem mono {m : Parser α} {Q' : α → Prop} (h : Scans command m ls rest Q)
    (hQ : ∀ a, Q a → Q' a) : Scans command m ls rest Q' := by
  intro s hs
  obtain ⟨a, t, hm, ht, ha⟩ := h s hs
  exact ⟨a, t, hm, ht, hQ a ha⟩

/-- One part after another. -/
theorem bind {m : Parser α} {f : α → Parser β} (hm : Scans command m ls (ls' ++ rest) Q)
    (hf : ∀ a, Q a → Scans command (f a) ls' rest R) :
    Scans command (m >>= f) (ls ++ ls') rest R := by
  intro s hs
  rw [List.append_assoc] at hs
  obtain ⟨a, t, ha, ht, hq⟩ := hm s hs
  obtain ⟨b, u, hb, hu, hr⟩ := hf a hq t ht
  exact ⟨b, u, by rw [Prog.bind_ok ha, hb], hu, hr⟩

/-- A part that takes no token. -/
theorem look {m : Parser α} {f : α → Parser β} (hm : Scans command m [] (ls ++ rest) Q)
    (hf : ∀ a, Q a → Scans command (f a) ls rest R) : Scans command (m >>= f) ls rest R :=
  bind hm hf

/-- A part behind which no token is taken. -/
theorem last {m : Parser α} {f : α → Parser β} (hm : Scans command m ls rest Q)
    (hf : ∀ a, Q a → Scans command (f a) [] rest R) : Scans command (m >>= f) ls rest R := by
  rw [← List.append_nil ls]
  exact bind hm hf

/-- The branch of a match that takes a token. -/
theorem matched {m : Parser Bool} {f g : Parser β} (hm : Reads m ls (ls' ++ rest) (· = true))
    (hforward : Forward m) (hf : Scans command f ls' rest R) :
    Scans command (m >>= fun b => if b = true then f else g) (ls ++ ls') rest R := by
  refine (hm.scans hforward).bind fun b hb => ?_
  rw [if_pos hb]
  exact hf

/-- The branch of a match that does not. -/
theorem unmatched {m : Parser Bool} {f g : Parser β} (hm : Reads m [] (ls ++ rest) (· = false))
    (hforward : Forward m) (hg : Scans command g ls rest R) :
    Scans command (m >>= fun b => if b = true then f else g) ls rest R := by
  refine (hm.scans hforward).look fun b hb => ?_
  rw [if_neg (hb ▸ Bool.false_ne_true)]
  exact hg

end Scans

/-! ## The text between two parentheses -/

theorem takeToClose_eq {inner outer : List Token} {closing : Token} {depth turns : Nat} {s : Cursor}
    (hrest : s.rest = inner ++ closing :: outer) (hclosing : closing.type = .rightParen)
    (hinner : closes (inner.map Token.lexeme) depth) (hturns : inner.length < turns) :
    takeToClose (depth + 1) turns s =
      (.ok (some closing), { s with rest := outer, previous := some closing }) := by
  induction inner generalizing depth turns s with
  | nil =>
    cases turns with
    | zero => exact absurd hturns (Nat.not_lt_zero _)
    | succ turns =>
      cases hinner
      rw [List.nil_append] at hrest
      rw [takeToClose, Prog.bind_ok (atEnd_apply s), hrest, List.isEmpty_cons,
        if_neg Bool.false_ne_true, takeToken, Prog.bind_assoc, Prog.bind_ok (token_apply hrest),
        Prog.bind_assoc, Prog.bind_ok (advance_apply hrest), Prog.bind_ok (Prog.pure_apply _ _),
        hclosing]
      rfl
  | cons t inner ih =>
    cases turns with
    | zero => exact absurd hturns (Nat.not_lt_zero _)
    | succ turns =>
      rw [List.cons_append] at hrest
      rw [takeToClose, Prog.bind_ok (atEnd_apply s), hrest, List.isEmpty_cons,
        if_neg Bool.false_ne_true, takeToken, Prog.bind_assoc, Prog.bind_ok (token_apply hrest),
        Prog.bind_assoc, Prog.bind_ok (advance_apply hrest), Prog.bind_ok (Prog.pure_apply _ _)]
      have hnext : ∀ {depth : Nat}, closes (inner.map Token.lexeme) depth →
          takeToClose (depth + 1) turns
            { s with rest := inner ++ closing :: outer, previous := some t } =
            (.ok (some closing), { s with rest := outer, previous := some closing }) :=
        fun hdepth => ih rfl hdepth (Nat.lt_of_succ_lt_succ hturns)
      obtain ⟨type, text, position⟩ := t
      cases type with
      | leftParen => exact hnext hinner
      | rightParen =>
        obtain ⟨hpos, hless⟩ := hinner
        have hdepth : depth + 1 = (depth - 1 + 1) + 1 := by omega
        dsimp only
        rw [if_neg (by omega), hdepth]
        exact hnext hless
      | _ => exact hnext hinner

/-- Between two parentheses stands a text of the tokens between them. -/
theorem textToClose_eq {s : Cursor}
    (hs : s.Stands command (⟨.leftParen, "("⟩ :: (ls ++ ⟨.rightParen, ")"⟩ :: rest)))
    (hplain : ∀ l ∈ ls, l.Plain) (hcloses : closes ls 0) :
    ∃ opened t inner u, matchedToken (matchType .leftParen) s = (.ok (some opened), t) ∧
      textToClose (opened.position + 1) t = (.ok inner, u) ∧ u.Stands command rest ∧
      Renders ls inner ∧ inner.length < command.length := by
  obtain ⟨front, text, htext, hplaced⟩ := hs.placed
  obtain ⟨opened, ts, hrest, hopened, hts⟩ := List.map_eq_cons_iff.mp hs.lexemes
  obtain ⟨between, behind, rfl, hbetween, hbehind⟩ := List.map_eq_append_iff.mp hts
  obtain ⟨closing, outer, rfl, hclosing, houter⟩ := List.map_eq_cons_iff.mp hbehind
  have hopenedText : opened.text = "(" := congrArg Lexeme.text hopened
  have hclosingType : closing.type = .rightParen := congrArg Lexeme.type hclosing
  -- where the tokens stand
  rw [hrest] at hplaced
  cases hplaced with
  | @cons i gap text' _ _ _ _ hposition hplaced =>
    rw [hopenedText] at hplaced htext
    have hplainTokens : ∀ u ∈ between, u.lexeme.Plain := fun u hu =>
      hplain u.lexeme (hbetween ▸ List.mem_map_of_mem hu)
    obtain ⟨inner, outerText, rfl, hend, hrenders⟩ := hplaced.renders hplainTokens
    rw [hbetween] at hrenders
    have hstart : opened.position + 1 = (front ++ (gap ++ "(".toList)).length := by
      simp only [List.length_append, hposition, Nat.add_assoc]
      rfl
    have hwhole : s.command = (front ++ (gap ++ "(".toList)) ++
        (inner ++ (closing.text.toList ++ outerText)) := by
      rw [htext]
      simp only [List.append_assoc]
    have hend' : closing.position = opened.position + 1 + inner.length := hend
    let t : Cursor := { s with rest := between ++ closing :: outer, previous := some opened }
    let u : Cursor := { t with rest := outer, previous := some closing }
    refine ⟨opened, t, inner, u, ?_, ?_, ⟨hs.command, ?_, houter⟩, hrenders, ?_⟩
    · have htype : opened.type = .leftParen := congrArg Lexeme.type hopened
      rw [matchedToken, matchType, Prog.bind_assoc, Prog.bind_ok (atEnd_apply s), hrest,
        List.isEmpty_cons, if_neg Bool.false_ne_true, Prog.bind_assoc,
        Prog.bind_ok (token_apply hrest), if_pos htype, Prog.bind_assoc,
        Prog.bind_ok (advance_apply hrest)]
      rfl
    · have hturns : between.length < t.rest.length + 1 := by
        show between.length < (between ++ closing :: outer).length + 1
        rw [List.length_append]
        omega
      have htake : takeToClose 1 (t.rest.length + 1) t = (.ok (some closing), u) :=
        takeToClose_eq rfl hclosingType (hbetween.symm ▸ hcloses) hturns
      have hleft : tokensLeft t = (.ok t.rest.length, t) := rfl
      rw [textToClose, Prog.bind_ok hleft, Prog.bind_ok htake]
      dsimp only
      rw [textBetween, Prog.bind_ok (Prog.get_apply u)]
      have hlong : ¬ u.command.length < opened.position + 1 := by
        show ¬ s.command.length < opened.position + 1
        rw [hwhole, List.length_append, hstart]
        omega
      rw [if_neg hlong]
      show (Except.ok ((s.command.drop (opened.position + 1)).take
        (closing.position - (opened.position + 1))), u) = _
      rw [hend', Nat.add_sub_cancel_left, hwhole, hstart, List.drop_left, List.take_left]
    · refine hs.placed.of_suffix rfl ?_
      rw [hrest]
      exact ⟨opened :: (between ++ [closing]), by simp [u]⟩
    · rw [← hs.command, hwhole, List.length_append, ← hstart, List.length_append]
      omega

end Scans

end ScratchDb.QueryParser
