import ScratchDb.Lib.Splitting
import ScratchDb.Values.ValueParser

/-!
# Lists of literals

`split_csv_with_positions` and `split_value_list` are one scan, and what
`join_value_list` joins is split into the same literals again as long as the
16 bits that count the parentheses hide no comma.
-/

namespace ScratchDb

namespace ValueParser

/-- The scan of both: inside a string, and how many parentheses are open. -/
def valueSplitter : Splitter Char (Bool × Nat) where
  next s c :=
    if c = '\'' then (!s.1, s.2)
    else if c = '(' ∧ ¬ s.1 then (s.1, (s.2 + 1) % 2 ^ 16)
    else if c = ')' ∧ ¬ s.1 ∧ s.2 > 0 then (s.1, s.2 - 1)
    else s
  cuts s c := decide (c = ',' ∧ ¬ s.1 ∧ s.2 = 0)

/-! ## Literals -/

/-- Quotes and parentheses match, the parentheses nested at most `depth` deep; commas stand outside
of them only where `commas` allows it. -/
inductive Matched : Nat → Bool → List Char → Prop where
  | nil {depth : Nat} {commas : Bool} : Matched depth commas []
  | other {depth : Nat} {commas : Bool} {c : Char} {text : List Char} :
      c ≠ '\'' ∧ c ≠ '(' ∧ c ≠ ')' → (c = ',' → commas = true) → Matched depth commas text →
      Matched depth commas (c :: text)
  | string {depth : Nat} {commas : Bool} {body text : List Char} : '\'' ∉ body →
      Matched depth commas text → Matched depth commas ('\'' :: (body ++ '\'' :: text))
  | parens {depth : Nat} {commas : Bool} {inner text : List Char} : Matched depth true inner →
      Matched (depth + 1) commas text → Matched (depth + 1) commas ('(' :: (inner ++ ')' :: text))

/-- A trimmed text with matching quotes and parentheses, and no comma outside of them. -/
structure IsLiteral (value : String) : Prop where
  trimmed : trim value.toList = value.toList
  matched : ∃ depth, Matched depth false value.toList

/-- No comma outside of strings stands where no parenthesis is open, counted in 16 bits. -/
def commasCovered : Bool → Nat → List Char → Bool
  | _, _, [] => true
  | true, opened, c :: text => commasCovered (c ≠ '\'') opened text
  | false, opened, c :: text =>
    if c = '\'' then commasCovered true opened text
    else if c = '(' then commasCovered false ((opened + 1) % 2 ^ 16) text
    else if c = ')' then commasCovered false (opened - 1) text
    else (c ≠ ',' || opened ≠ 0) && commasCovered false opened text

def CommasCovered (value : String) : Prop := commasCovered false 0 value.toList = true

/-! ## One scan -/

/-- A branch of the loops that does not cut. -/
theorem cuts_of_ne {s : Bool × Nat} {c : Char} (h : c ≠ ',') : valueSplitter.cuts s c = false :=
  decide_eq_false fun hcut => h hcut.1

theorem splitCsvFrom_eq (basePosition : Nat) (text : List Char) (i : Nat) (current : List Char)
    (position : Nat) (inString : Bool) (parenDepth : Nat)
    (h : basePosition + i = position + current.length) :
    splitCsvFrom basePosition text i current position inString parenDepth =
      (valueSplitter.placedPieces (inString, parenDepth) current position text).map
        fun p => textPart p.1 p.2 := by
  induction text generalizing i current position inString parenDepth with
  | nil => rfl
  | cons c text ih =>
    have hstays : ∀ inString parenDepth,
        splitCsvFrom basePosition text (i + 1) (current ++ [c]) position inString parenDepth =
          (valueSplitter.placedPieces (inString, parenDepth) (current ++ [c]) position text).map
            fun p => textPart p.1 p.2 := fun inString parenDepth =>
      ih _ _ _ _ _ (by rw [List.length_append, List.length_singleton]; omega)
    have hcut := ih (i + 1) [] (basePosition + i + 1) inString parenDepth (by simp; omega)
    rw [splitCsvFrom, Splitter.placedPieces]
    by_cases hquote : c = '\''
    · rw [if_pos hquote, hstays, cuts_of_ne (by rw [hquote]; decide)]
      simp [valueSplitter, hquote]
    rw [if_neg hquote]
    by_cases hopen : c = '(' ∧ ¬ inString
    · rw [if_pos hopen, hstays, cuts_of_ne (by rw [hopen.1]; decide)]
      simp [valueSplitter, hopen]
    rw [if_neg hopen]
    by_cases hclose : c = ')' ∧ ¬ inString ∧ parenDepth > 0
    · rw [if_pos hclose, hstays, cuts_of_ne (by rw [hclose.1]; decide)]
      simp [valueSplitter, hclose]
    have hnext : valueSplitter.next (inString, parenDepth) c = (inString, parenDepth) := by
      simp only [valueSplitter, hquote, hopen, hclose, if_false]
    rw [if_neg hclose, hnext]
    by_cases hcomma : c = ',' ∧ ¬ inString ∧ parenDepth = 0
    · have hcuts : valueSplitter.cuts (inString, parenDepth) c = true := decide_eq_true hcomma
      rw [if_pos hcomma, hcut, if_pos hcuts, List.map_cons, h]
    · have hcuts : valueSplitter.cuts (inString, parenDepth) c = false := decide_eq_false hcomma
      rw [if_neg hcomma, hstays, hcuts, if_neg Bool.false_ne_true]

theorem splitValues_eq (text current : List Char) (inString : Bool) (depth : Nat) :
    splitValues text current inString depth =
      (valueSplitter.pieces (inString, depth) current.reverse text).map trimmed := by
  induction text generalizing current inString depth with
  | nil => rfl
  | cons c text ih =>
    have hstays : ∀ inString depth, splitValues text (c :: current) inString depth =
        (valueSplitter.pieces (inString, depth) (current.reverse ++ [c]) text).map trimmed := by
      intro inString depth
      rw [ih, List.reverse_cons]
    rw [splitValues, Splitter.pieces]
    by_cases hquote : c = '\''
    · rw [if_pos hquote, hstays, cuts_of_ne (by rw [hquote]; decide)]
      simp [valueSplitter, hquote]
    rw [if_neg hquote]
    by_cases hopen : c = '(' ∧ ¬ inString
    · rw [if_pos hopen, hstays, cuts_of_ne (by rw [hopen.1]; decide)]
      simp [valueSplitter, hopen]
    rw [if_neg hopen]
    by_cases hclose : c = ')' ∧ ¬ inString ∧ 0 < depth
    · rw [if_pos hclose, hstays, cuts_of_ne (by rw [hclose.1]; decide)]
      simp [valueSplitter, hclose]
    have hnext : valueSplitter.next (inString, depth) c = (inString, depth) := by
      simp only [valueSplitter, hquote, hopen, hclose, gt_iff_lt, if_false]
    rw [if_neg hclose, hnext]
    by_cases hcomma : c = ',' ∧ ¬ inString ∧ depth = 0
    · have hcuts : valueSplitter.cuts (inString, depth) c = true := decide_eq_true hcomma
      rw [if_pos hcomma, ih, if_pos hcuts, List.map_cons]
      rfl
    · have hcuts : valueSplitter.cuts (inString, depth) c = false := decide_eq_false hcomma
      rw [if_neg hcomma, hstays, hcuts, if_neg Bool.false_ne_true]

theorem splitCsvWithPositions_eq {text : String} (h : text.toList ≠ []) (basePosition : Nat) :
    splitCsvWithPositions text basePosition =
      (valueSplitter.placedPieces (false, 0) [] basePosition text.toList).map
        fun p => textPart p.1 p.2 := by
  rw [splitCsvWithPositions, if_neg h]
  exact splitCsvFrom_eq basePosition text.toList 0 [] basePosition false 0 rfl

/-- Both give the same parts. -/
theorem splitValueList_eq (text : String) (basePosition : Nat) :
    splitValueList text = (splitCsvWithPositions text basePosition).map Prod.fst := by
  rw [splitValueList]
  by_cases hempty : text = ""
  · rw [if_pos hempty, hempty]
    rfl
  · rw [if_neg hempty, splitValues_eq, List.reverse_nil,
      ← Splitter.map_fst_placedPieces _ _ basePosition, List.map_map,
      splitCsvWithPositions_eq fun hnil => hempty (String.toList_eq_nil_iff.mp hnil),
      List.map_map]
    rfl

/-- A text without the whitespace around it. -/
theorem exists_trim (text : List Char) :
    ∃ back, text = text.takeWhile isSpace ++ (trim text ++ back) := by
  have hback := @List.rdropWhile_append_rtakeWhile _ isSpace (text.dropWhile isSpace)
  refine ⟨(text.dropWhile isSpace).rtakeWhile isSpace, ?_⟩
  rw [trim, hback, List.takeWhile_append_dropWhile]

/-- Each part stands in the text at its position. -/
theorem excerpt_of_splitCsv {text : String} {basePosition : Nat} {part : String × Nat}
    (h : part ∈ splitCsvWithPositions text basePosition) :
    basePosition ≤ part.2 ∧
      (text.toList.drop (part.2 - basePosition)).take part.1.toList.length = part.1.toList := by
  by_cases hempty : text.toList = []
  · rw [splitCsvWithPositions, if_pos hempty] at h
    cases h
  · rw [splitCsvWithPositions_eq hempty] at h
    obtain ⟨⟨piece, position⟩, hpiece, rfl⟩ := List.mem_map.mp h
    -- any text of that length may stand before the list
    have hbefore : (List.replicate basePosition ' ').length = basePosition := List.length_replicate
    rw [← hbefore] at hpiece
    obtain ⟨hle, front, back, heq, hfront⟩ := Splitter.excerpt_of_placedPieces _ hpiece
    rw [hbefore] at hle
    obtain ⟨trailing, htrim⟩ := exists_trim piece
    dsimp only at heq hfront hle
    have hsplit : text.toList = front.drop basePosition ++ (piece ++ back) := by
      have hdrop := congrArg (List.drop basePosition) heq
      rwa [List.drop_left' hbefore, List.nil_append,
        List.drop_append_of_le_length (by omega)] at hdrop
    have hposition : (front.drop basePosition ++ piece.takeWhile isSpace).length =
        position + blanksBefore piece - basePosition := by
      rw [List.length_append, List.length_drop, hfront, blanksBefore]
      omega
    have hparts : text.toList = (front.drop basePosition ++ piece.takeWhile isSpace) ++
        (trim piece ++ (trailing ++ back)) := by
      rw [hsplit]
      conv_lhs => rw [htrim]
      simp only [List.append_assoc]
    dsimp only [textPart]
    refine ⟨Nat.le_add_right_of_le hle, ?_⟩
    rw [String.toList_ofList, ← hposition, hparts, List.drop_left, List.take_left]

/-! ## Literals in the scan -/

theorem run_string {opened : Nat} {body : List Char} (h : '\'' ∉ body) :
    valueSplitter.run (true, opened) body = (true, opened) := by
  induction body with
  | nil => rfl
  | cons c body ih =>
    rw [List.mem_cons, not_or] at h
    have hnext : valueSplitter.next (true, opened) c = (true, opened) := by
      simp [valueSplitter, Ne.symm h.1]
    rw [Splitter.run, List.foldl_cons, hnext]
    exact ih h.2

theorem next_of_plain {inString : Bool} {opened : Nat} {c : Char}
    (h : c ≠ '\'' ∧ c ≠ '(' ∧ c ≠ ')') :
    valueSplitter.next (inString, opened) c = (inString, opened) := by
  simp only [valueSplitter, h.1, h.2.1, h.2.2, false_and, if_false]

/-- A closing parenthesis outside of strings: the counter stays at zero. -/
theorem next_close (opened : Nat) :
    valueSplitter.next (false, opened) ')' = (false, opened - 1) := by
  cases opened with
  | zero => rfl
  | succ n => rfl

/-- Matching text leaves the scan outside of strings, with no more parentheses open than before:
fewer only where the 16 bits wrapped around. -/
theorem Matched.run {depth : Nat} {commas : Bool} {text : List Char}
    (h : Matched depth commas text) (opened : Nat) :
    ∃ left ≤ opened, valueSplitter.run (false, opened) text = (false, left) := by
  induction h generalizing opened with
  | nil => exact ⟨opened, Nat.le_refl _, rfl⟩
  | other hc _ _ ih =>
    obtain ⟨left, hle, hrun⟩ := ih opened
    refine ⟨left, hle, ?_⟩
    rw [Splitter.run, List.foldl_cons, next_of_plain hc]
    exact hrun
  | @string _ _ body text hbody _ ih =>
    obtain ⟨left, hle, hrun⟩ := ih opened
    refine ⟨left, hle, ?_⟩
    have hopen : valueSplitter.run (false, opened) ('\'' :: body) = (true, opened) :=
      run_string hbody
    rw [← List.cons_append, Splitter.run_append, hopen]
    exact hrun
  | @parens _ _ inner text _ _ ihInner ihText =>
    obtain ⟨left, hle, hrun⟩ := ihInner ((opened + 1) % 2 ^ 16)
    have hless : left ≤ opened + 1 := hle.trans (Nat.mod_le _ _)
    obtain ⟨rest, hrest, hrunText⟩ := ihText (left - 1)
    refine ⟨rest, by omega, ?_⟩
    have hopen : valueSplitter.run (false, opened) ('(' :: inner) = (false, left) := hrun
    rw [← List.cons_append, Splitter.run_append, hopen, Splitter.run, List.foldl_cons, next_close]
    exact hrunText

theorem IsLiteral.run {value : String} (h : IsLiteral value) :
    valueSplitter.run (false, 0) value.toList = (false, 0) := by
  obtain ⟨depth, hmatched⟩ := h.matched
  obtain ⟨left, hle, hrun⟩ := hmatched.run 0
  rw [hrun, Nat.le_zero.mp hle]

/-- Covered text is not cut. -/
theorem commasCovered_iff (inString : Bool) (opened : Nat) (text : List Char) :
    commasCovered inString opened text = true ↔
      valueSplitter.cutCount (inString, opened) text = 0 := by
  induction text generalizing inString opened with
  | nil => simp [commasCovered, Splitter.cutCount]
  | cons c text ih =>
    rw [Splitter.cutCount]
    cases inString with
    | true =>
      have hcuts : valueSplitter.cuts (true, opened) c = false := by simp [valueSplitter]
      have hnext : valueSplitter.next (true, opened) c = (decide (c ≠ '\''), opened) := by
        by_cases hquote : c = '\'' <;> simp [valueSplitter, hquote]
      rw [commasCovered, ih, hcuts, if_neg Bool.false_ne_true, Nat.zero_add, hnext]
    | false =>
      rw [commasCovered]
      by_cases hquote : c = '\''
      · rw [if_pos hquote, ih, cuts_of_ne (by rw [hquote]; decide), if_neg Bool.false_ne_true,
          Nat.zero_add, hquote]
        rfl
      by_cases hopen : c = '('
      · rw [if_neg hquote, if_pos hopen, ih, cuts_of_ne (by rw [hopen]; decide),
          if_neg Bool.false_ne_true, Nat.zero_add, hopen]
        rfl
      by_cases hclose : c = ')'
      · rw [if_neg hquote, if_neg hopen, if_pos hclose, ih, cuts_of_ne (by rw [hclose]; decide),
          if_neg Bool.false_ne_true, Nat.zero_add, hclose, next_close]
      rw [if_neg hquote, if_neg hopen, if_neg hclose, next_of_plain ⟨hquote, hopen, hclose⟩,
        Bool.and_eq_true, ih]
      by_cases hcomma : c = ',' ∧ opened = 0
      · simp [valueSplitter, hcomma]
      · have hcuts : valueSplitter.cuts (false, opened) c = false :=
          decide_eq_false fun hcut => hcomma ⟨hcut.1, hcut.2.2⟩
        have houter : (decide (c ≠ ',') || decide (opened ≠ 0)) = true := by
          simp only [ne_eq, Bool.or_eq_true, decide_eq_true_eq]
          exact not_and_or.mp hcomma
        rw [houter, hcuts, if_neg Bool.false_ne_true, Nat.zero_add]
        exact and_iff_right rfl

/-- As long as the count stays in 16 bits, commas that stand in parentheses are covered. -/
theorem Matched.covered {depth : Nat} {commas : Bool} {text : List Char}
    (h : Matched depth commas text) {opened : Nat} (hfits : opened + depth < 2 ^ 16)
    (hcommas : commas = true → 0 < opened) (rest : List Char)
    (hrest : commasCovered false opened rest = true) :
    commasCovered false opened (text ++ rest) = true := by
  induction h generalizing opened rest with
  | nil => exact hrest
  | @other _ _ c text hc hcomma _ ih =>
    rw [List.cons_append, commasCovered, if_neg hc.1, if_neg hc.2.1, if_neg hc.2.2,
      ih hfits hcommas rest hrest, Bool.and_true]
    by_cases h : c = ','
    · have hpos := hcommas (hcomma h)
      simp only [ne_eq, Bool.or_eq_true, decide_eq_true_eq]
      exact .inr (by omega)
    · simp [h]
  | @string _ _ body text hbody _ ih =>
    have hstring : ∀ tail, commasCovered true opened (body ++ '\'' :: tail) =
        commasCovered false opened tail := by
      intro tail
      clear ih
      induction body with
      | nil => rfl
      | cons c body ihBody =>
        rw [List.mem_cons, not_or] at hbody
        rw [List.cons_append, commasCovered, decide_eq_true (Ne.symm hbody.1)]
        exact ihBody hbody.2
    rw [List.cons_append, List.append_assoc, List.cons_append, commasCovered, if_pos rfl, hstring]
    exact ih hfits hcommas rest hrest
  | @parens depth _ inner text _ _ ihInner ihText =>
    have hcount : (opened + 1) % 2 ^ 16 = opened + 1 := Nat.mod_eq_of_lt (by omega)
    have hopen : ∀ tail, commasCovered false opened ('(' :: tail) =
        commasCovered false (opened + 1) tail := by
      intro tail
      rw [← hcount]
      rfl
    rw [List.cons_append, List.append_assoc, List.cons_append, hopen]
    refine ihInner (by omega) (fun _ => Nat.succ_pos _) _ ?_
    exact ihText hfits hcommas rest hrest

/-- Parentheses nested fewer than 65536 deep. -/
theorem commasCovered_of_shallow {value : String} {depth : Nat} (hdepth : depth < 2 ^ 16)
    (h : Matched depth false value.toList) : CommasCovered value := by
  have hcovered : commasCovered false 0 (value.toList ++ []) = true :=
    h.covered (by omega) (fun h => absurd h Bool.false_ne_true) [] rfl
  rwa [List.append_nil] at hcovered

/-! ## Joined literals -/

theorem trimmed_eq {v : String} (h : trim v.toList = v.toList) :
    trimmed v.toList = v ∧ trimmed (' ' :: v.toList) = v := by
  have hfirst : trimmed v.toList = String.ofList (trim v.toList) := rfl
  have hblank : trimmed (' ' :: v.toList) = String.ofList (trim v.toList) := rfl
  rw [hfirst, hblank, h, String.ofList_toList]
  exact ⟨rfl, rfl⟩

/-- A joined list is split by the scan of its texts. -/
theorem splitValueList_join_cons {v : String} {values : List String}
    (h : joinValueList (v :: values) ≠ "") :
    splitValueList (joinValueList (v :: values)) =
      (valueSplitter.pieces (false, 0) []
        ([',', ' '].intercalate (v.toList :: values.map String.toList))).map trimmed := by
  rw [splitValueList, if_neg h, splitValues_eq, joinValueList, String.toList_intercalate]
  rfl

/-- Texts that are not cut, each but the last with matching quotes and parentheses. -/
theorem splitValueList_of_uncut {values : List String}
    (htrim : ∀ v ∈ values, trim v.toList = v.toList)
    (huncut : ∀ v ∈ values, valueSplitter.cutCount (false, 0) v.toList = 0)
    (hreturns : ∀ v ∈ values.dropLast, valueSplitter.run (false, 0) v.toList = (false, 0))
    (hjoined : values = [] ∨ joinValueList values ≠ "") :
    splitValueList (joinValueList values) = values := by
  cases values with
  | nil => rfl
  | cons v values =>
    have hne : joinValueList (v :: values) ≠ "" := hjoined.resolve_left (List.cons_ne_nil _ _)
    have hjoins : valueSplitter.Joins (false, 0) ',' [' '] ((v :: values).map String.toList) := by
      refine ⟨?_, rfl, rfl, rfl, rfl⟩
      intro word hword
      rw [← List.map_dropLast] at hword
      obtain ⟨w, hw, rfl⟩ := List.mem_map.mp hword
      exact hreturns w hw
    have hwords : ∀ w ∈ v.toList :: values.map String.toList,
        valueSplitter.cutCount (false, 0) w = 0 := by
      rw [← List.map_cons, List.forall_mem_map]
      exact huncut
    rw [splitValueList_join_cons hne, hjoins.pieces hwords, List.nil_append, List.map_cons,
      List.map_map, List.map_map, (trimmed_eq (htrim v List.mem_cons_self)).1]
    refine congrArg (v :: ·) ((List.map_congr_left fun w hw => ?_).trans (List.map_id _))
    exact (trimmed_eq (htrim w (List.mem_cons_of_mem _ hw))).2

theorem splitValueList_joinValueList {values : List String} (h : ∀ v ∈ values, IsLiteral v)
    (hjoined : values = [] ∨ joinValueList values ≠ "") :
    splitValueList (joinValueList values) = values ↔ ∀ v ∈ values, CommasCovered v := by
  constructor
  · intro heq
    cases values with
    | nil => exact fun v hv => absurd hv List.not_mem_nil
    | cons v values =>
      have hne : joinValueList (v :: values) ≠ "" := hjoined.resolve_left (List.cons_ne_nil _ _)
      have hjoins : valueSplitter.Joins (false, 0) ',' [' '] (v.toList :: values.map String.toList) := by
        refine ⟨?_, rfl, rfl, rfl, rfl⟩
        intro word hword
        rw [← List.map_cons] at hword
        obtain ⟨w, hw, rfl⟩ := List.mem_map.mp (List.mem_of_mem_dropLast hword)
        exact (h w hw).run
      have hlength := congrArg List.length heq
      rw [splitValueList_join_cons hne, List.length_map] at hlength
      have hwords := hjoins.length_pieces_iff.mp (by rw [hlength, List.length_cons, List.length_map])
      rw [← List.map_cons, List.forall_mem_map] at hwords
      exact fun w hw => (commasCovered_iff false 0 w.toList).mpr (hwords w hw)
  · intro hcovered
    refine splitValueList_of_uncut (fun v hv => (h v hv).trimmed) (fun v hv => ?_) (fun v hv => ?_)
      hjoined
    · exact (commasCovered_iff false 0 v.toList).mp (hcovered v hv)
    · exact (h v (List.mem_of_mem_dropLast hv)).run

/-! ## `INSERT` with a column list -/

section

variable {command : String} {schema : Schema} {names values seen ordered filled : List String}

/-- Every value stands at the index of its column, and what no column was given stays as it is. -/
theorem placed_of_placeValues (h : placeValues command schema names values seen ordered = .ok filled)
    (hlength : ordered.length = schema.columns.length) :
    filled.length = schema.columns.length ∧
      (∀ p ∈ names.zip values, p.1 ∉ seen ∧
        ∃ i, schema.columnIndex p.1 = some i ∧ filled[i]? = some p.2) ∧
      (∀ i, (∀ p ∈ names.zip values, schema.columnIndex p.1 ≠ some i) → filled[i]? = ordered[i]?) ∧
      ∀ v ∈ filled, v ∈ ordered ∨ v ∈ values := by
  induction names generalizing values seen ordered with
  | nil =>
    rw [placeValues, Except.ok.injEq] at h
    · subst h
      exact ⟨hlength, fun p hp => absurd hp List.not_mem_nil, fun _ _ => rfl, fun _ => .inl⟩
    · exact fun _ _ _ _ h => absurd h (List.cons_ne_nil _ _).symm
  | cons name names ih =>
    cases values with
    | nil =>
      rw [placeValues, Except.ok.injEq] at h
      · subst h
        exact ⟨hlength, fun p hp => absurd hp List.not_mem_nil, fun _ _ => rfl, fun _ => .inl⟩
      · exact fun _ _ _ _ _ h => absurd h (List.cons_ne_nil _ _).symm
    | cons value values =>
      rw [placeValues] at h
      cases hindex : schema.columnIndex name with
      | none => simp [hindex] at h
      | some i =>
        obtain ⟨hi, hname, -⟩ := List.findIdx?_eq_some_iff_getElem.mp hindex
        by_cases hseen : name ∈ seen
        · simp [hindex, hseen] at h
        · simp only [hindex, hseen, if_false] at h
          obtain ⟨hfilled, hgiven, hrest, hmem⟩ := ih h (by rw [List.length_set, hlength])
          -- the columns behind it have other names, and so other indexes
          have hother : ∀ p ∈ names.zip values, schema.columnIndex p.1 ≠ some i := by
            intro p hp hsame
            obtain ⟨_, hpname, -⟩ := List.findIdx?_eq_some_iff_getElem.mp hsame
            have heq : name = p.1 := (of_decide_eq_true hname).symm.trans (of_decide_eq_true hpname)
            exact (hgiven p hp).1 (heq ▸ List.mem_cons_self)
          rw [List.zip_cons_cons]
          refine ⟨hfilled, ?_, ?_, ?_⟩
          · intro p hp
            rcases List.mem_cons.mp hp with rfl | hp
            · refine ⟨hseen, i, hindex, ?_⟩
              rw [hrest i hother, List.getElem?_set_self (by omega)]
            · exact ⟨fun h => (hgiven p hp).1 (List.mem_cons_of_mem _ h), (hgiven p hp).2⟩
          · intro j hj
            rw [hrest j fun p hp => hj p (List.mem_cons_of_mem _ hp)]
            refine List.getElem?_set_ne fun hij => ?_
            exact hj (name, value) List.mem_cons_self (hij ▸ hindex)
          · intro v hv
            rcases hmem v hv with hv | hv
            · rcases List.mem_or_eq_of_mem_set hv with hv | rfl
              · exact .inl hv
              · exact .inr List.mem_cons_self
            · exact .inr (List.mem_cons_of_mem _ hv)

/-- What is inserted for a value. -/
def orNull (value : String) : String := if value = "" then "NULL" else value

theorem fillMissing_eq {columns : List Column} (h : fillMissing command columns ordered = .ok filled)
    (hlength : ordered.length = columns.length) : filled = ordered.map orNull := by
  induction columns generalizing ordered filled with
  | nil =>
    rw [List.eq_nil_of_length_eq_zero hlength] at h ⊢
    exact (Except.ok.inj h).symm
  | cons column columns ih =>
    cases ordered with
    | nil => cases hlength
    | cons value ordered =>
      have hrest : ∀ first, (fillMissing command columns ordered).map (first :: ·) = .ok filled →
          filled = first :: ordered.map orNull := by
        intro first h
        cases hfill : fillMissing command columns ordered with
        | error e =>
          rw [hfill] at h
          cases h
        | ok rest =>
          rw [hfill] at h
          rw [← ih hfill (Nat.succ.inj hlength)]
          exact (Except.ok.inj h).symm
      rw [fillMissing] at h
      rw [List.map_cons, orNull]
      by_cases hvalue : value = ""
      · rw [if_neg (not_not.mpr hvalue)] at h
        rw [if_pos hvalue]
        split at h
        · exact hrest _ h
        · cases h
      · rw [if_pos hvalue] at h
        rw [if_neg hvalue]
        exact hrest _ h

/-- The texts that `parse_row` reads: the given values at the indexes of their columns, and `NULL`
for the other columns. -/
structure Reaches (schema : Schema) (names values parts : List String) : Prop where
  length : parts.length = schema.columns.length
  given : ∀ p ∈ names.zip values, ∃ i, schema.columnIndex p.1 = some i ∧
    parts[i]? = some (orNull p.2)
  missing : ∀ i < schema.columns.length,
    (∀ p ∈ names.zip values, schema.columnIndex p.1 ≠ some i) → parts[i]? = some "NULL"

theorem reaches_of_orderValues (h : orderValues command schema names values = .ok ordered) :
    Reaches schema names values ordered ∧ ∀ v ∈ ordered, v = "NULL" ∨ v ≠ "" ∧ v ∈ values := by
  cases hplaced : placeValues command schema names values []
      (List.replicate schema.columns.length "") with
  | error e =>
    rw [orderValues, hplaced] at h
    cases h
  | ok placed =>
    rw [orderValues, hplaced] at h
    obtain ⟨hlength, hgiven, hrest, hmem⟩ := placed_of_placeValues hplaced List.length_replicate
    have hordered := fillMissing_eq h hlength
    subst hordered
    refine ⟨⟨?_, ?_, ?_⟩, ?_⟩
    · rw [List.length_map, hlength]
    · intro p hp
      obtain ⟨-, i, hi, hvalue⟩ := hgiven p hp
      exact ⟨i, hi, by rw [List.getElem?_map, hvalue, Option.map_some]⟩
    · intro i hi hother
      rw [List.getElem?_map, hrest i hother, List.getElem?_replicate, if_pos hi, Option.map_some]
      rfl
    · intro v hv
      obtain ⟨value, hvalue, rfl⟩ := List.mem_map.mp hv
      rw [orNull]
      by_cases hempty : value = ""
      · exact .inl (if_pos hempty)
      · rw [if_neg hempty]
        refine .inr ⟨hempty, (hmem value hvalue).resolve_left fun h => hempty ?_⟩
        exact (List.mem_replicate.mp h).2

theorem isLiteral_null : IsLiteral "NULL" := by
  refine ⟨by decide, 0, ?_⟩
  refine .other (by decide) (fun h => absurd h (by decide)) ?_
  refine .other (by decide) (fun h => absurd h (by decide)) ?_
  refine .other (by decide) (fun h => absurd h (by decide)) ?_
  exact .other (by decide) (fun h => absurd h (by decide)) .nil

theorem joinValueList_ne {v : String} (h : v ≠ "") (values : List String) :
    joinValueList (v :: values) ≠ "" := by
  intro hempty
  have hlist := congrArg String.toList hempty
  rw [joinValueList, String.toList_intercalate, List.map_cons] at hlist
  refine h (String.toList_eq_nil_iff.mp ?_)
  cases values with
  | nil => rwa [List.map_nil, List.intercalate_singleton] at hlist
  | cons next values =>
    rw [List.map_cons, List.intercalate_cons_cons] at hlist
    exact (List.append_eq_nil_iff.mp (List.append_eq_nil_iff.mp hlist).1).1

/-- `parse_row` splits the ordered values again. -/
theorem splitCsv_of_orderValues (h : orderValues command schema names values = .ok ordered)
    (hliterals : ∀ v ∈ values, IsLiteral v) (hcovered : ∀ v ∈ values, CommasCovered v)
    (basePosition : Nat) :
    (splitCsvWithPositions (joinValueList ordered) basePosition).map Prod.fst = ordered := by
  obtain ⟨-, hmem⟩ := reaches_of_orderValues h
  have hboth : ∀ v ∈ ordered, IsLiteral v ∧ CommasCovered v ∧ v ≠ "" := by
    intro v hv
    rcases hmem v hv with rfl | ⟨hne, hv⟩
    · exact ⟨isLiteral_null, rfl, by decide⟩
    · exact ⟨hliterals v hv, hcovered v hv, hne⟩
  rw [← splitValueList_eq]
  refine (splitValueList_joinValueList (fun v hv => (hboth v hv).1) ?_).mpr
    fun v hv => (hboth v hv).2.1
  cases ordered with
  | nil => exact .inl rfl
  | cons v rest => exact .inr (joinValueList_ne (hboth v List.mem_cons_self).2.2 rest)

end

/-- The call of `parse_row_with_error` in `insert_row`. -/
def parsedRow (parser : ValueParser) (command : String) (schema : Schema) (valuesText : String)
    (position : Nat) : Except QueryError (List Value) :=
  match parseRow parser schema valuesText position with
  | .error e => .error (e.toQueryError command)
  | .ok row => pure row

/-- `INSERT` with a column list and a text of these values calls `parse_row` with a text that is
split into exactly these values, and `NULL` for each other column. -/
def InsertKeeps (values : List String) : Prop :=
  ∀ (parser : ValueParser) (command : String) (schema : Schema) (names : List String),
    names.length = values.length →
    rowOfValues parser command schema names (joinValueList values) =
      ((orderValues command schema names values).bind fun ordered =>
        parsedRow parser command schema (joinValueList ordered)
          (tokenPosition command (joinValueList values))) ∧
    ∀ (ordered : List String) (basePosition : Nat),
      orderValues command schema names values = .ok ordered →
      Reaches schema names values
        ((splitCsvWithPositions (joinValueList ordered) basePosition).map Prod.fst)

theorem insertKeeps {values : List String} (hvalues : values ≠ [])
    (hliterals : ∀ v ∈ values, IsLiteral v) (hjoined : joinValueList values ≠ "")
    (hcovered : ∀ v ∈ values, CommasCovered v) : InsertKeeps values := by
  intro parser command schema names hlength
  have hnames : names ≠ [] := by
    rintro rfl
    exact hvalues (List.eq_nil_of_length_eq_zero hlength.symm)
  have hsplit := (splitValueList_joinValueList hliterals (.inr hjoined)).mpr hcovered
  constructor
  · rw [rowOfValues, if_neg hnames]
    simp only [hsplit, hlength, ne_eq, not_true_eq_false, if_false]
    cases orderValues command schema names values with
    | error e => rfl
    | ok ordered => rfl
  · intro ordered basePosition hordered
    rw [splitCsv_of_orderValues hordered hliterals hcovered]
    exact (reaches_of_orderValues hordered).1

/-! ## Nested too deep -/

/-- A comma in `depth` pairs of parentheses. -/
def nestedComma (depth : Nat) : List Char :=
  List.replicate depth '(' ++ ',' :: List.replicate depth ')'

theorem nestedComma_succ (depth : Nat) :
    nestedComma (depth + 1) = '(' :: (nestedComma depth ++ [')']) := by
  have hopen : List.replicate (depth + 1) '(' = '(' :: List.replicate depth '(' :=
    List.replicate_succ
  have hclose : List.replicate (depth + 1) ')' = List.replicate depth ')' ++ [')'] :=
    List.replicate_succ'
  rw [nestedComma, nestedComma, hopen, hclose]
  simp only [List.cons_append, List.append_assoc]

theorem matched_nestedComma (depth : Nat) : Matched depth true (nestedComma depth) := by
  induction depth with
  | zero => exact .other (by decide) (fun _ => rfl) .nil
  | succ depth ih =>
    rw [nestedComma_succ]
    exact .parens ih .nil

theorem isLiteral_nestedComma (depth : Nat) :
    IsLiteral (String.ofList (nestedComma (depth + 1))) := by
  refine ⟨?_, depth + 1, ?_⟩
  · rw [String.toList_ofList, nestedComma_succ, trim, List.dropWhile_cons_of_neg (by decide),
      ← List.cons_append, List.rdropWhile_concat_neg _ _ _ (by decide)]
  · rw [String.toList_ofList, nestedComma_succ]
    exact .parens (matched_nestedComma depth) .nil

theorem commasCovered_opens (depth : Nat) {opened : Nat} (h : opened < 2 ^ 16) (text : List Char) :
    commasCovered false opened (List.replicate depth '(' ++ text) =
      commasCovered false ((opened + depth) % 2 ^ 16) text := by
  induction depth generalizing opened with
  | zero => rw [Nat.add_zero, Nat.mod_eq_of_lt h]; rfl
  | succ depth ih =>
    have hstep : commasCovered false opened (List.replicate (depth + 1) '(' ++ text) =
        commasCovered false ((opened + 1) % 2 ^ 16) (List.replicate depth '(' ++ text) := rfl
    rw [hstep, ih (Nat.mod_lt _ (by decide)), Nat.mod_add_mod, Nat.add_assoc, Nat.add_comm 1]

end ValueParser

end ScratchDb
