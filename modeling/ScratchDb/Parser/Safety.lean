import ScratchDb.Parser.Statements

/-!
# What keeps the parser inside its tokens

A specification of the functions of the parser: how many tokens they need and
take, and that only a call that is given what it does not accept escapes. Rules
for the ways in which the functions are put together.
-/

namespace ScratchDb.QueryParser

open Select

variable {α β : Type}

/-! ## The specification -/

/-- The call accepts what it is given. -/
def Call.Accepted : Call → Prop
  | .bound tokensLeft => 0 < tokensLeft
  | .constraintId text => ∃ id, stoull text.toList = .ok id
  | .stringSize size => 0 < size ∧ size ≤ 1024
  | .numberPrecision precision => 0 < precision

/-- The tokens are in the command. -/
def Cursor.Fits (s : Cursor) : Prop :=
  (∀ t ∈ s.rest, t.position < s.command.length) ∧
    ∀ t ∈ s.previous, t.position < s.command.length

/-- With the calls `calls`, a run has ended in `r`: it has escaped exactly when a call was not
accepted. -/
def EndsWith (calls : List Call) : Except Stop α → Prop
  | .error (.escape _) => ∃ c ∈ calls, ¬ c.Accepted
  | _ => ∀ c ∈ calls, c.Accepted

/-- After a run of a part of the parser from `s`, which has returned a value that satisfies `Q` and
has taken `taken` tokens at least, or has stopped. -/
structure Parsed (taken : Nat) (Q : α → Prop) (s : Cursor) (r : Except Stop α) (t : Cursor) :
    Prop where
  command : t.command = s.command
  calls : ∃ calls, t.calls = calls ++ s.calls ∧ EndsWith calls r
  returned : ∀ a, r = .ok a → Q a ∧ t.Fits ∧ t.rest.length + taken ≤ s.rest.length

/-- A part of the parser of `command`, started with between `least` and `most` tokens left. -/
def Safe (command : List Char) (least most taken : Nat) (Q : α → Prop) (m : Parser α) : Prop :=
  ∀ s : Cursor, s.command = command → s.Fits → least ≤ s.rest.length → s.rest.length ≤ most →
    m.Ends s (Parsed taken Q s)

section Rules

variable {command : List Char} {least most taken : Nat} {Q : α → Prop} {R : β → Prop}

namespace Safe

theorem pure {a : α} (h : Q a) : Safe command least most 0 Q (Pure.pure a) :=
  fun s _ hfits _ _ => Prog.ends_pure
    { command := rfl
      calls := ⟨[], rfl, fun _ hc => absurd hc List.not_mem_nil⟩
      returned := fun b hb => by cases hb; exact ⟨h, hfits, Nat.le_refl _⟩ }

theorem error (e : ParseError) : Safe command least most taken Q (Prog.stop (.error e)) :=
  fun _ _ _ _ _ => Prog.ends_stop
    { command := rfl
      calls := ⟨[], rfl, fun _ hc => absurd hc List.not_mem_nil⟩
      returned := fun _ hb => by cases hb }

/-- A run that cannot start is safe. -/
theorem vacuous {m : Parser α} (h : most < least) : Safe command least most taken Q m :=
  fun _ _ _ hleast hmost => absurd (hleast.trans hmost) (by omega)

theorem mono {m : Parser α} {Q' : α → Prop} {least' most' taken' : Nat}
    (h : Safe command least' most' taken' Q' m) (hQ : ∀ a, Q' a → Q a)
    (hleast : least' ≤ least) (hmost : most ≤ most')
    (htaken : taken ≤ taken') : Safe command least most taken Q m := by
  intro s hs hfits hl hm
  refine (h s hs hfits (hleast.trans hl) (hm.trans hmost)).mono fun r t hp => ⟨hp.1, hp.2, ?_⟩
  intro a ha
  obtain ⟨hq, hfits', hlen⟩ := hp.3 a ha
  exact ⟨hQ a hq, hfits', by omega⟩

theorem weaken {m : Parser α} {taken' : Nat} (h : Safe command least most taken' Q m)
    (htaken : taken ≤ taken') : Safe command least most taken Q m :=
  h.mono (fun _ hq => hq) le_rfl le_rfl htaken

theorem forget {m : Parser α} {taken' : Nat} (h : Safe command least most taken' Q m)
    (htaken : taken ≤ taken') : Safe command least most taken (fun _ => True) m :=
  h.mono (fun _ _ => trivial) le_rfl le_rfl htaken

/-- One part after another. -/
theorem bind {m : Parser α} {f : α → Parser β} {taken₁ : Nat}
    (hm : Safe command least most taken₁ Q m)
    (hf : ∀ a, Q a → Safe command 0 (most - taken₁) (taken - taken₁) R (f a)) :
    Safe command least most taken R (m >>= f) := by
  intro s hs hfits hl hmost
  have hend := hm s hs hfits hl hmost
  refine Prog.ends_bind hend ?_ ?_
  · rintro a t ⟨hcommand, ⟨calls, hcalls, haccepted⟩, hreturned⟩
    obtain ⟨hq, hfits', hlen⟩ := hreturned a rfl
    refine (hf a hq t (hcommand.trans hs) hfits' (Nat.zero_le _) (by omega)).mono ?_
    rintro r u ⟨hcommand', ⟨calls', hcalls', haccepted'⟩, hreturned'⟩
    refine ⟨hcommand'.trans hcommand, ⟨calls' ++ calls, ?_, ?_⟩, ?_⟩
    · rw [hcalls', hcalls, List.append_assoc]
    · rcases r with (e | e) | b
      · exact List.forall_mem_append.mpr ⟨haccepted', haccepted⟩
      · obtain ⟨c, hc, hnot⟩ := haccepted'
        exact ⟨c, List.mem_append_left _ hc, hnot⟩
      · exact List.forall_mem_append.mpr ⟨haccepted', haccepted⟩
    · intro b hb
      obtain ⟨hr, hfits'', hlen'⟩ := hreturned' b hb
      exact ⟨hr, hfits'', by omega⟩
  · rintro e t ⟨hcommand, hcalls, -⟩
    refine ⟨hcommand, ?_, fun b hb => by cases hb⟩
    cases e with
    | error e => exact hcalls
    | escape e => exact hcalls

theorem ite {p : Prop} [Decidable p] {m n : Parser α} (hm : p → Safe command least most taken Q m)
    (hn : ¬ p → Safe command least most taken Q n) :
    Safe command least most taken Q (if p then m else n) := by
  split
  · exact hm ‹p›
  · exact hn ‹¬ p›

/-- A first part that only looks at the cursor. -/
theorem look {m : Parser α} {f : α → Parser β} {P : Cursor → α → Prop}
    (hm : ∀ s, s.command = command → s.Fits → ∃ a, m s = (.ok a, s) ∧ P s a)
    (hf : ∀ s a, s.command = command → P s a → least ≤ s.rest.length → s.rest.length ≤ most →
      Safe command s.rest.length s.rest.length taken R (f a)) :
    Safe command least most taken R (m >>= f) := by
  intro s hs hfits hl hmost
  obtain ⟨a, ha, hp⟩ := hm s hs hfits
  unfold Prog.Ends
  rw [Prog.bind_ok ha]
  exact hf s a hs hp hl hmost s hs hfits le_rfl le_rfl

end Safe

end Rules

/-! ## Tokens -/

section Tokens

variable {command : List Char} {least most taken : Nat} {Q : α → Prop} {R : β → Prop}

theorem Cursor.Fits.advance {s : Cursor} {t : Token} {ts : List Token} (h : s.Fits)
    (hrest : s.rest = t :: ts) : Fits { s with rest := ts, previous := some t } := by
  constructor
  · intro x hx
    exact h.1 x (hrest ▸ List.mem_cons_of_mem t hx)
  · rintro x hx
    cases hx
    exact h.1 t (hrest ▸ List.mem_cons_self)

theorem atEnd_apply (s : Cursor) : atEnd s = (.ok s.rest.isEmpty, s) := rfl

theorem token_apply {s : Cursor} {t : Token} {ts : List Token} (h : s.rest = t :: ts) :
    token s = (.ok t, s) := by
  rw [token, Prog.bind_ok (Prog.get_apply s), h]
  rfl

theorem advance_apply {s : Cursor} {t : Token} {ts : List Token} (h : s.rest = t :: ts) :
    advance s = (.ok (), { s with rest := ts, previous := some t }) := by
  rw [advance, Prog.modify_apply, h]
  rfl

namespace Safe

/-- The guard of most reads. -/
theorem atEnd {m n : Parser β} (hend : Safe command 0 most taken R m)
    (hnext : Safe command 1 most taken R n) :
    Safe command least most taken R
      (QueryParser.atEnd >>= fun ended => if ended = true then m else n) := by
  refine look (P := fun s ended => ended = s.rest.isEmpty)
    (fun s _ _ => ⟨_, atEnd_apply s, rfl⟩) ?_
  rintro s _ - rfl - hmost
  cases hrest : s.rest with
  | nil => exact hend.mono (fun _ h => h) (Nat.zero_le _) (Nat.zero_le _) le_rfl
  | cons t ts => exact hnext.mono (fun _ h => h) (Nat.succ_pos _) (hrest ▸ hmost) le_rfl

/-- A read that is guarded. -/
theorem token {f : Token → Parser β}
    (h : ∀ t, t.position < command.length → Safe command 1 most taken R (f t)) :
    Safe command 1 most taken R (QueryParser.token >>= f) := by
  intro s hs hfits hl hmost
  obtain ⟨t, ts, hrest⟩ := List.exists_cons_of_length_pos hl
  unfold Prog.Ends
  rw [Prog.bind_ok (token_apply hrest)]
  exact h t (hs ▸ hfits.1 t (hrest ▸ List.mem_cons_self)) s hs hfits hl hmost

theorem advance {f : Unit → Parser β} (h : Safe command 0 (most - 1) (taken - 1) R (f ())) :
    Safe command 1 most taken R (QueryParser.advance >>= f) := by
  intro s hs hfits hl hmost
  obtain ⟨t, ts, hrest⟩ := List.exists_cons_of_length_pos hl
  unfold Prog.Ends
  rw [Prog.bind_ok (advance_apply hrest)]
  have hlen : s.rest.length = ts.length + 1 := by rw [hrest, List.length_cons]
  refine (h { s with rest := ts, previous := some t } hs (hfits.advance hrest) (Nat.zero_le _)
    (show ts.length ≤ most - 1 by omega)).mono ?_
  rintro r u ⟨hcommand, hcalls, hreturned⟩
  refine ⟨hcommand, hcalls, fun b hb => ?_⟩
  obtain ⟨hr, hfits', hlen'⟩ := hreturned b hb
  have hlen'' : u.rest.length + (taken - 1) ≤ ts.length := hlen'
  exact ⟨hr, hfits', by omega⟩

theorem takeToken {f : Token → Parser β}
    (h : ∀ t, t.position < command.length → Safe command 0 (most - 1) (taken - 1) R (f t)) :
    Safe command 1 most taken R (QueryParser.takeToken >>= f) := by
  rw [QueryParser.takeToken, Prog.bind_assoc]
  refine token fun t ht => ?_
  rw [Prog.bind_assoc]
  exact advance (h t ht)

theorem tokensLeft {f : Nat → Parser β}
    (h : ∀ n, n ≤ most → Safe command n n taken R (f n)) :
    Safe command least most taken R (QueryParser.tokensLeft >>= f) := by
  refine look (P := fun s n => n = s.rest.length) (fun s _ _ => ⟨_, rfl, rfl⟩) ?_
  rintro s _ - rfl - hmost
  exact h _ hmost

theorem get {f : Cursor → Parser β}
    (h : ∀ s, s.command = command → Safe command least most taken R (f s)) :
    Safe command least most taken R (Prog.get >>= f) := by
  refine look (P := fun s t => t = s) (fun s _ _ => ⟨_, rfl, rfl⟩) ?_
  rintro s t hs rfl hl hmost
  exact (h t hs).mono (fun _ hq => hq) hl hmost le_rfl

theorem fail (message text : String) (position : Nat) :
    Safe command least most taken Q (QueryParser.fail message text position) :=
  error _

theorem failAtEnd (message : String) :
    Safe command least most taken Q (QueryParser.failAtEnd message) :=
  get fun _ _ => fail _ _ _

theorem expected (text : String) : Safe command least most taken Q (QueryParser.expected text) :=
  atEnd (failAtEnd _) (token fun _ _ => fail _ _ _)

end Safe

/-- A call that is not accepted has to escape. -/
theorem Safe.noteCall {c : Call} {f : Unit → Parser β}
    (haccepted : c.Accepted → Safe command least most taken R (f ()))
    (hnot : ¬ c.Accepted → ∀ s : Cursor, least ≤ s.rest.length → s.rest.length ≤ most →
      ∃ e, f () s = (.error (.escape e), s)) :
    Safe command least most taken R (QueryParser.noteCall c >>= f) := by
  intro s hs hfits hl hmost
  let noted : Cursor := { s with calls := c :: s.calls }
  have happly : (QueryParser.noteCall c >>= f) s = f () noted := rfl
  unfold Prog.Ends
  rw [happly]
  by_cases hc : c.Accepted
  · refine (haccepted hc noted hs hfits hl hmost).mono ?_
    rintro r u ⟨hcommand, ⟨calls, hcalls, hends⟩, hreturned⟩
    refine ⟨hcommand, ⟨calls ++ [c], ?_, ?_⟩, hreturned⟩
    · rw [hcalls, List.append_assoc]
      rfl
    · have hall : ∀ x ∈ [c], x.Accepted := by
        intro x hx
        rwa [List.mem_singleton.mp hx]
      rcases r with (e | e) | a
      · exact List.forall_mem_append.mpr ⟨hends, hall⟩
      · obtain ⟨x, hx, hnot'⟩ := hends
        exact ⟨x, List.mem_append_left _ hx, hnot'⟩
      · exact List.forall_mem_append.mpr ⟨hends, hall⟩
  · obtain ⟨e, he⟩ := hnot hc noted hl hmost
    rw [he]
    exact ⟨rfl, ⟨[c], rfl, c, List.mem_singleton_self c, hc⟩, fun a ha => by cases ha⟩

/-! ## Matches -/

/-- `m` takes a token and returns true, or leaves the cursor and returns false. -/
def IsMatch (m : Parser Bool) : Prop :=
  ∀ s : Cursor, m s = (.ok false, s) ∨ ∃ t ts, s.rest = t :: ts ∧
    m s = (.ok true, { s with rest := ts, previous := some t })

theorem isMatch_token {p : Token → Prop} [DecidablePred p] :
    IsMatch (do
      if ← atEnd then Pure.pure false
      else
        let t ← token
        if p t then
          advance
          Pure.pure true
        else
          Pure.pure false) := by
  intro s
  cases hrest : s.rest with
  | nil =>
    refine .inl ?_
    rw [Prog.bind_ok (atEnd_apply s), hrest]
    rfl
  | cons t ts =>
    rw [Prog.bind_ok (atEnd_apply s), hrest]
    simp only [List.isEmpty_cons, Bool.false_eq_true, if_false]
    rw [Prog.bind_ok (token_apply hrest)]
    by_cases hp : p t
    · rw [if_pos hp, Prog.bind_ok (advance_apply hrest)]
      exact .inr ⟨t, ts, rfl, rfl⟩
    · rw [if_neg hp]
      exact .inl rfl

theorem isMatch_matchText (text : String) : IsMatch (matchText text) := isMatch_token

theorem isMatch_matchType (type : TokenType) : IsMatch (matchType type) := isMatch_token

theorem isMatch_matchOneOf (texts : List String) : IsMatch (matchOneOf texts) := by
  induction texts with
  | nil => exact fun s => .inl rfl
  | cons text texts ih =>
    intro s
    rw [matchOneOf]
    rcases isMatch_matchText text s with h | ⟨t, ts, hrest, h⟩
    · rw [Prog.bind_ok h]
      exact ih s
    · rw [Prog.bind_ok h]
      exact .inr ⟨t, ts, hrest, rfl⟩

theorem IsMatch.safe_of_pos {m : Parser Bool} (hm : IsMatch m) {n n' : Parser β}
    (hmatched : 0 < most → Safe command 0 (most - 1) (taken - 1) R n)
    (helse : Safe command least most taken R n') :
    Safe command least most taken R (m >>= fun matched => if matched = true then n else n') := by
  intro s hs hfits hl hmost
  unfold Prog.Ends
  rcases hm s with h | ⟨t, ts, hrest, h⟩
  · rw [Prog.bind_ok h]
    exact helse s hs hfits hl hmost
  · have hlen : 1 ≤ s.rest.length := by
      rw [hrest]
      exact Nat.succ_pos _
    have hadvance : Safe command 1 most taken R (QueryParser.advance >>= fun _ => n) :=
      .advance (hmatched (by omega))
    have hend := hadvance s hs hfits hlen hmost
    unfold Prog.Ends at hend
    rw [Prog.bind_ok (advance_apply hrest)] at hend
    rw [Prog.bind_ok h]
    exact hend

theorem IsMatch.safe {m : Parser Bool} (hm : IsMatch m) {n n' : Parser β}
    (hmatched : Safe command 0 (most - 1) (taken - 1) R n)
    (helse : Safe command least most taken R n') :
    Safe command least most taken R (m >>= fun matched => if matched = true then n else n') :=
  hm.safe_of_pos (fun _ => hmatched) helse

/-- A match whose outcome does not matter. -/
theorem IsMatch.safe_bind {m : Parser Bool} (hm : IsMatch m) {f : Bool → Parser β}
    (hf : ∀ matched, Safe command 0 most 0 R (f matched)) :
    Safe command least most 0 R (m >>= f) := by
  have hpick : m >>= f = m >>= fun matched => if matched = true then f true else f false :=
    congrArg _ (funext fun matched => by cases matched <;> rfl)
  rw [hpick]
  exact hm.safe ((hf true).mono (fun _ h => h) (by omega) (by omega) (by omega))
    ((hf false).mono (fun _ h => h) (by omega) (by omega) (by omega))

/-- `previous()` is a token after a match. -/
theorem IsMatch.safe_matchedToken {m : Parser Bool} (hm : IsMatch m) {f : Option Token → Parser β}
    (hmatched : 0 < most → ∀ t : Token, t.position < command.length →
      Safe command 0 (most - 1) (taken - 1) R (f (some t)))
    (helse : Safe command least most taken R (f none)) :
    Safe command least most taken R (matchedToken m >>= f) := by
  intro s hs hfits hl hmost
  unfold Prog.Ends
  rcases hm s with h | ⟨t, ts, hrest, h⟩
  · have hnone : matchedToken m s = (.ok none, s) := by
      rw [matchedToken, Prog.bind_ok h]
      rfl
    rw [Prog.bind_ok hnone]
    exact helse s hs hfits hl hmost
  · have hsome : matchedToken m s = (.ok (some t), { s with rest := ts, previous := some t }) := by
      rw [matchedToken, Prog.bind_ok h]
      rfl
    have hlen : 1 ≤ s.rest.length := by
      rw [hrest]
      exact Nat.succ_pos _
    have hadvance : Safe command 1 most taken R (QueryParser.advance >>= fun _ => f (some t)) :=
      .advance (hmatched (by omega) t (hs ▸ hfits.1 t (hrest ▸ List.mem_cons_self)))
    have hend := hadvance s hs hfits hlen hmost
    unfold Prog.Ends at hend
    rw [Prog.bind_ok (advance_apply hrest)] at hend
    rw [Prog.bind_ok hsome]
    exact hend

/-! ## The functions of the cursor -/

theorem safe_expectText (text : String) :
    Safe command least most 1 (fun _ => True) (expectText text) :=
  (isMatch_matchText text).safe (.pure trivial) (.expected _)

theorem safe_expectType (type : TokenType) (text : String) :
    Safe command least most 1 (fun _ => True) (expectType type text) :=
  (isMatch_matchType type).safe (.pure trivial) (.expected _)

theorem safe_readIdentifier (label : String) :
    Safe command least most 1 (fun name => isIdentifier name = true) (readIdentifier label) := by
  refine .atEnd (.failAtEnd _) (.token fun t _ => .ite (fun _ => .fail _ _ _) fun _ => ?_)
  refine .ite (fun _ => .fail _ _ _) fun hname => .advance (.pure ?_)
  rwa [not_not] at hname

theorem safe_endOrError (a : α) : Safe command least most 0 (fun _ => True) (endOrError a) :=
  .atEnd (.pure trivial) (.token fun _ _ => .fail _ _ _)

/-- `peek` looks at the next token, if there is one. -/
theorem Safe.peek {f : Option Token → Parser β} (hnone : Safe command 0 most taken R (f none))
    (hsome : ∀ t, t.position < command.length → Safe command 1 most taken R (f (some t))) :
    Safe command least most taken R (QueryParser.peek >>= f) := by
  intro s hs hfits hl hmost
  unfold Prog.Ends
  cases hrest : s.rest with
  | nil =>
    have happly : QueryParser.peek s = (.ok none, s) := by
      rw [QueryParser.peek, Prog.bind_ok (atEnd_apply s), hrest]
      rfl
    rw [Prog.bind_ok happly]
    exact hnone s hs hfits (Nat.zero_le _) hmost
  | cons t ts =>
    have happly : QueryParser.peek s = (.ok (some t), s) := by
      rw [QueryParser.peek, Prog.bind_ok (atEnd_apply s), hrest]
      simp only [List.isEmpty_cons, Bool.false_eq_true, if_false]
      rw [Prog.bind_ok (token_apply hrest)]
      rfl
    have ht : t.position < command.length := hs ▸ hfits.1 t (hrest ▸ List.mem_cons_self)
    rw [Prog.bind_ok happly]
    exact hsome t ht s hs hfits (hrest ▸ Nat.succ_pos _) hmost

theorem Safe.previous {f : Option Token → Parser β}
    (h : ∀ t, Safe command least most taken R (f t)) :
    Safe command least most taken R (QueryParser.previous >>= f) := by
  rw [QueryParser.previous, Prog.bind_assoc]
  exact .get fun s _ => h s.previous

theorem safe_itemAnd {item : Parser α} {turns : Parser (List α)}
    (hitem : Safe command least most 0 Q item)
    (hturns : Safe command 0 most 0 (fun _ => True) turns) :
    Safe command least most 0 (fun _ => True) (itemAnd item turns) :=
  hitem.bind fun _ _ => hturns.bind fun _ _ => .pure trivial

theorem safe_commaSeparated {item : Parser α} (hitem : ∀ n, Safe command 0 n 0 Q item)
    {turns : Nat} (hturns : most < turns) :
    Safe command least most 0 (fun _ => True) (commaSeparated item turns) := by
  induction turns generalizing least most with
  | zero => exact absurd hturns (Nat.not_lt_zero _)
  | succ turns ih =>
    refine safe_itemAnd ((hitem most).mono (fun _ h => h) (by omega) le_rfl le_rfl) ?_
    exact (isMatch_matchType .comma).safe_of_pos (fun hpos => ih (by omega)) (.pure trivial)

theorem safe_listOf {item : Parser α} (hitem : ∀ n, Safe command 0 n 0 Q item) :
    Safe command least most 0 (fun _ => True) (listOf item) :=
  .tokensLeft fun _ _ => safe_commaSeparated hitem (Nat.lt_succ_self _)

/-- The loop ends with the parenthesis, or with the last token. -/
theorem safe_takeToClose {turns : Nat} (hturns : most < turns) (depth : Nat) :
    Safe command least most 0
      (fun t => ∀ opened ∈ t, (opened : Token).position < command.length)
      (takeToClose depth turns) := by
  induction turns generalizing least most depth with
  | zero => exact absurd hturns (Nat.not_lt_zero _)
  | succ turns ih =>
    refine .atEnd (.pure fun _ h => by cases h) ?_
    by_cases hpos : most = 0
    · exact .vacuous (by omega)
    refine .takeToken fun t ht => ?_
    cases t.type with
    | rightParen =>
      refine .ite (fun _ => .pure fun x hx => ?_) fun _ => ih (by omega) _
      cases hx
      exact ht
    | _ => exact ih (by omega) _

theorem safe_textBetween {start : Nat} (stop : Nat) (hstart : start ≤ command.length) :
    Safe command least most 0 (fun text => text.length + start ≤ command.length)
      (textBetween start stop) := by
  refine .get fun s hs => ?_
  dsimp only
  refine .ite (fun hthrows => absurd hstart (by rw [hs] at hthrows; omega)) fun _ => .pure ?_
  rw [hs, List.length_take, List.length_drop]
  omega

theorem safe_textToClose {start : Nat} (hstart : start ≤ command.length) :
    Safe command least most 0 (fun text => text.length + start ≤ command.length)
      (textToClose start) := by
  refine .tokensLeft fun n _ => (safe_takeToClose (Nat.lt_succ_self n) 1).bind fun closed _ => ?_
  cases closed with
  | none => exact .fail _ _ _
  | some t => exact safe_textBetween t.position hstart

theorem safe_parseParenthesizedBody :
    Safe command least most 1 (fun _ => True) parseParenthesizedBody :=
  (isMatch_matchType .leftParen).safe_matchedToken
    (fun _ _ hopened => (safe_textToClose hopened).bind fun _ _ => .pure trivial) (.expected _)

end Tokens

end ScratchDb.QueryParser
