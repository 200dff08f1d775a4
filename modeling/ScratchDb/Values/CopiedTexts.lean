import ScratchDb.Values.DatesInOrder
import ScratchDb.Values.ResultTexts
import ScratchDb.Values.ValueLists

/-!
# Values copied as literals

`insert_select` writes the text of each selected value as a literal and parses
the literals of a row again. Between the commas of the new list stands what
stood in the list that the row came from, up to the form of numbers; but a
string `NULL` has become a NULL, and a DATETIME is read back from its text.
-/

namespace ScratchDb

namespace ValueParser

open Select

/-! ## Characters that the scan passes over -/

def IsUnmarked (c : Char) : Prop := c ≠ '\'' ∧ c ≠ '(' ∧ c ≠ ')' ∧ c ≠ ','

theorem isUnmarked_of_isNumberChar {c : Char} (h : IsNumberChar c) : IsUnmarked c := by
  rcases h with hdigit | rfl | rfl
  · refine ⟨?_, ?_, ?_, ?_⟩ <;> rintro rfl <;> exact absurd hdigit (by decide)
  · exact ⟨by decide, by decide, by decide, by decide⟩
  · exact ⟨by decide, by decide, by decide, by decide⟩

theorem isUnmarked_of_isSpace {c : Char} (h : isSpace c = true) : IsUnmarked c := by
  refine ⟨?_, ?_, ?_, ?_⟩ <;> rintro rfl <;> exact absurd h (by decide)

/-- Unmarked text leaves the scan as it is and is not cut. -/
theorem scan_unmarked {text : List Char} (h : ∀ c ∈ text, IsUnmarked c) (s : Bool × Nat) :
    valueSplitter.run s text = s ∧ valueSplitter.cutCount s text = 0 := by
  induction text with
  | nil => exact ⟨rfl, rfl⟩
  | cons c text ih =>
    obtain ⟨hquote, hopen, hclose, hcomma⟩ := h c List.mem_cons_self
    obtain ⟨hrun, hcount⟩ := ih fun d hd => h d (List.mem_cons_of_mem _ hd)
    have hnext : valueSplitter.next s c = s := next_of_plain ⟨hquote, hopen, hclose⟩
    constructor
    · rw [Splitter.run, List.foldl_cons, hnext]
      exact hrun
    · rw [Splitter.cutCount, cuts_of_ne hcomma, hnext, hcount]
      rfl

theorem scan_append_unmarked {back : List Char} (h : ∀ c ∈ back, IsUnmarked c) (s : Bool × Nat)
    (text rest : List Char) :
    valueSplitter.run s (text ++ (back ++ rest)) = valueSplitter.run s (text ++ rest) ∧
      valueSplitter.cutCount s (text ++ (back ++ rest)) =
        valueSplitter.cutCount s (text ++ rest) := by
  obtain ⟨hrun, hcount⟩ := scan_unmarked h (valueSplitter.run s text)
  constructor
  · rw [Splitter.run_append, Splitter.run_append, hrun, Splitter.run_append]
  · rw [Splitter.cutCount_append, Splitter.cutCount_append, hrun, hcount, Nat.zero_add,
      Splitter.cutCount_append]

/-- Unmarked text between quotes. -/
theorem scan_quoted {text : List Char} (h : ∀ c ∈ text, IsUnmarked c) (opened : Nat) :
    valueSplitter.run (false, opened) ('\'' :: (text ++ ['\''])) = (false, opened) ∧
      valueSplitter.cutCount (false, opened) ('\'' :: (text ++ ['\''])) = 0 := by
  have hscan := scan_append_unmarked h (false, opened) ['\''] ['\'']
  exact ⟨hscan.1, hscan.2⟩

theorem scan_trim (s : Bool × Nat) (text : List Char) :
    valueSplitter.run s (trim text) = valueSplitter.run s text ∧
      valueSplitter.cutCount s (trim text) = valueSplitter.cutCount s text := by
  have hback : ∀ c ∈ (text.dropWhile isSpace).rtakeWhile isSpace, IsUnmarked c := fun c hc =>
    isUnmarked_of_isSpace (List.mem_rtakeWhile_imp hc)
  have hfront : ∀ c ∈ text.takeWhile isSpace, IsUnmarked c := fun c hc =>
    isUnmarked_of_isSpace (List.mem_takeWhile_imp hc)
  have hparts : text = [] ++ (text.takeWhile isSpace ++
      (trim text ++ ((text.dropWhile isSpace).rtakeWhile isSpace ++ []))) := by
    have hdrop := @List.rdropWhile_append_rtakeWhile _ isSpace (text.dropWhile isSpace)
    rw [List.append_nil, trim, hdrop, List.nil_append, List.takeWhile_append_dropWhile]
  obtain ⟨hrun, hcount⟩ := scan_append_unmarked hfront s []
    (trim text ++ ((text.dropWhile isSpace).rtakeWhile isSpace ++ []))
  obtain ⟨hrun', hcount'⟩ := scan_append_unmarked hback s (trim text) []
  rw [← hparts] at hrun hcount
  rw [hrun, hcount, List.nil_append, hrun', hcount', List.append_nil]
  exact ⟨rfl, rfl⟩

/-! ## What a literal is made of -/

/-- The literals of a type that stands between quotes. -/
inductive Quoted (column : Column) : List Char → Value → Prop where
  | character {body : List Char} : column.type = .character → body.length = 1 →
      Quoted column body (.character (bytesOf body))
  | string {body : List Char} : column.type = .string → Quoted column body (.string (bytesOf body))
  | varstring {body : List Char} : column.type = .varstring →
      Quoted column body (.varstring (bytesOf body))
  | text {body : List Char} : column.type = .text → Quoted column body (.text (bytesOf body))
  | date {body : List Char} {days : Int} : column.type = .date →
      Date.fromString body = some days → Quoted column body (.date days)
  | time {body : List Char} {seconds : Nat} : column.type = .time →
      Time.fromString body = some seconds → Quoted column body (.time seconds)
  | datetime {body : List Char} {seconds : Int} : column.type = .datetime →
      DateTime.fromString body = some seconds → Quoted column body (.datetime seconds)

theorem quoted_of_parseQuoted {column : Column} {body : List Char} {v : Value}
    (htype : isQuotedType column.type = true) (h : parseQuoted column body = .ok v) :
    Quoted column body v := by
  rw [parseQuoted] at h
  cases ht : column.type with
  | nullType | integer | number =>
    rw [ht] at htype
    exact absurd htype (by decide)
  | character =>
    simp only [ht] at h
    split at h
    · cases h
    · rename_i hlength
      rw [← Except.ok.inj h]
      exact .character ht (not_not.mp hlength)
  | string =>
    simp only [ht] at h
    split at h
    · rw [← Except.ok.inj h]
      exact .string ht
    · cases h
  | varstring =>
    simp only [ht] at h
    split at h
    · rw [← Except.ok.inj h]
      exact .varstring ht
    · cases h
  | text =>
    simp only [ht] at h
    split at h
    · rw [← Except.ok.inj h]
      exact .text ht
    · cases h
  | date =>
    simp only [ht] at h
    cases hread : Date.fromString body with
    | none =>
      rw [hread] at h
      cases h
    | some days =>
      rw [hread] at h
      rw [← Except.ok.inj h]
      exact .date ht hread
  | time =>
    simp only [ht] at h
    cases hread : Time.fromString body with
    | none =>
      rw [hread] at h
      cases h
    | some seconds =>
      rw [hread] at h
      rw [← Except.ok.inj h]
      exact .time ht hread
  | datetime =>
    simp only [ht] at h
    cases hread : DateTime.fromString body with
    | none =>
      rw [hread] at h
      cases h
    | some seconds =>
      rw [hread] at h
      rw [← Except.ok.inj h]
      exact .datetime ht hread

/-- A literal and its value. -/
inductive Spelled (column : Column) : List Char → Value → Prop where
  | null : Spelled column "NULL".toList .null
  | integer {text : List Char} {n : Int} : column.type = .integer →
      parseInteger text = some n → Spelled column text (.integer n)
  | number {text : List Char} {n : Int} : column.type = .number → Spelled column text (.number n)
  | quoted {body : List Char} {v : Value} : column.type ≠ .integer ∧ column.type ≠ .number →
      Quoted column body v → Spelled column ('\'' :: (body ++ ['\''])) v

theorem spelled_of_parseCleaned {column : Column} {text : List Char} {v : Value}
    (h : parseCleaned column text = .ok v) : Spelled column text v := by
  rw [parseCleaned] at h
  split at h
  · rename_i hnull
    split at h
    · rw [hnull, ← Except.ok.inj h]
      exact .null
    · cases h
  split at h
  · rename_i hinteger
    cases hread : parseInteger text with
    | none =>
      rw [hread] at h
      cases h
    | some n =>
      rw [hread] at h
      rw [← Except.ok.inj h]
      exact .integer hinteger hread
  split at h
  · rename_i hnumber
    cases hread : parseNumber text column.precision column.scale with
    | none =>
      rw [hread] at h
      cases h
    | some n =>
      rw [hread] at h
      rw [← Except.ok.inj h]
      exact .number hnumber
  split at h
  · rename_i hinteger hnumber hquoted
    split at h
    · cases h
    · rename_i hends
      simp only [not_or, not_lt, not_not] at hends
      obtain ⟨hlength, hhead, hlast⟩ := hends
      obtain ⟨rest, rfl⟩ := List.head?_eq_some_iff.mp hhead
      have hne : rest ≠ [] := by
        rintro rfl
        simp at hlength
      rw [List.getLast?_cons_of_ne_nil hne] at hlast
      obtain ⟨body, rfl⟩ := List.getLast?_eq_some_iff.mp hlast
      refine .quoted ⟨hinteger, hnumber⟩ (quoted_of_parseQuoted hquoted ?_)
      simpa using h
  · cases h

/-! ## Copies -/

/-- The text of a value as `insert_select` writes it into the new list. -/
def copyLiteral (column : Column) (v : Value) : List Char :=
  let text := (formatValue column v).toList
  if column.type = .integer ∨ column.type = .number ∨ text = "NULL".toList then text
  else '\'' :: (text ++ ['\''])

theorem toList_sourceText {schema : Schema} {name : String} {column : Column}
    (h : schema.findColumn name = some column) (v : Value) :
    (sourceText schema name (formatValue column v)).toList = copyLiteral column v := by
  have hnull : formatValue column v = "NULL" ↔ (formatValue column v).toList = "NULL".toList :=
    String.toList_inj.symm
  have hquote : ("'" ++ formatValue column v ++ "'").toList =
      '\'' :: ((formatValue column v).toList ++ ['\'']) := by
    rw [String.toList_append, String.toList_append]
    rfl
  simp only [sourceText, h, copyLiteral]
  by_cases hnumeric : column.type = .integer ∨ column.type = .number
  · rw [if_pos hnumeric, if_pos (by tauto)]
  · by_cases htext : formatValue column v = "NULL"
    · rw [if_neg hnumeric, if_pos htext, if_pos (.inr (.inr (hnull.mp htext))), htext]
    · rw [if_neg hnumeric, if_neg htext, if_neg (by rw [← hnull]; tauto), hquote]

theorem textOf_bytesOf {text : List Char} (h : ∀ c ∈ text, c.toNat < 256) :
    textOf (bytesOf text) = text := by
  rw [textOf, bytesOf, List.map_map]
  conv_rhs => rw [← List.map_id text]
  refine List.map_congr_left fun c hc => ?_
  have hbyte : (UInt8.ofNat c.toNat).toNat = c.toNat := by
    rw [UInt8.toNat_ofNat']
    exact Nat.mod_eq_of_lt (h c hc)
  rw [Function.comp_apply, hbyte, Char.ofNat_toNat]
  rfl

theorem isUnmarked_padded {width n : Nat} {c : Char} (h : c ∈ PaddedDecimal.padded width n) :
    IsUnmarked c :=
  isUnmarked_of_isNumberChar (.inl (PaddedDecimal.isDigit_of_mem_padded h))

theorem isUnmarked_date {days : Int} {c : Char} (h : c ∈ Date.toString days) : IsUnmarked c := by
  have hdash : IsUnmarked '-' := isUnmarked_of_isNumberChar (.inr (.inl rfl))
  rw [Date.toString_eq] at h
  rcases List.mem_append.mp h with hyear | h
  · rw [List.leftpad, List.mem_append] at hyear
    rcases hyear with hzero | hyear
    · rw [(List.mem_replicate.mp hzero).2]
      exact isUnmarked_of_isNumberChar (.inl (by decide))
    · exact isUnmarked_of_isNumberChar (isNumberChar_signedDecimal hyear)
  rcases List.mem_cons.mp h with rfl | h
  · exact hdash
  rcases List.mem_append.mp h with hmonth | h
  · exact isUnmarked_padded hmonth
  rcases List.mem_cons.mp h with rfl | hday
  · exact hdash
  · exact isUnmarked_padded hday

theorem isUnmarked_time {seconds : Nat} {c : Char} (h : c ∈ Time.toString seconds) :
    IsUnmarked c := by
  have hcolon : IsUnmarked ':' := ⟨by decide, by decide, by decide, by decide⟩
  rw [Time.toString_eq] at h
  rcases List.mem_append.mp h with hhour | h
  · exact isUnmarked_padded hhour
  rcases List.mem_cons.mp h with rfl | h
  · exact hcolon
  rcases List.mem_append.mp h with hminute | h
  · exact isUnmarked_padded hminute
  rcases List.mem_cons.mp h with rfl | hsecond
  · exact hcolon
  · exact isUnmarked_padded hsecond

/-- The texts of the types without free text. -/
theorem isUnmarked_formatValue {column : Column} {v : Value} (h : v.stringData = []) :
    ∀ c ∈ (formatValue column v).toList, IsUnmarked c := by
  intro c hc
  cases v with
  | null =>
    rw [formatValue, String.toList_ofList] at hc
    have hletters : c ∈ ['N', 'U', 'L', 'L'] := hc
    simp only [List.mem_cons, List.not_mem_nil, or_false] at hletters
    rcases hletters with rfl | rfl | rfl | rfl <;> exact ⟨by decide, by decide, by decide, by decide⟩
  | integer n =>
    rw [formatValue, String.toList_ofList] at hc
    exact isUnmarked_of_isNumberChar (isNumberChar_signedDecimal hc)
  | number n =>
    rw [formatValue, String.toList_ofList] at hc
    exact isUnmarked_of_isNumberChar (isNumberChar_formatNumber hc)
  | date days =>
    rw [formatValue, String.toList_ofList] at hc
    exact isUnmarked_date hc
  | time seconds =>
    rw [formatValue, String.toList_ofList] at hc
    exact isUnmarked_time hc
  | datetime seconds =>
    rw [formatValue, String.toList_ofList, DateTime.toString_eq] at hc
    rcases List.mem_append.mp hc with hdate | hc
    · exact isUnmarked_date hdate
    rcases List.mem_cons.mp hc with rfl | htime
    · exact ⟨by decide, by decide, by decide, by decide⟩
    · exact isUnmarked_time htime
  | character text | string text | varstring text | text text =>
    have hnil : text = [] := h
    have hchars : c ∈ (String.ofList (textOf text)).toList := hc
    rw [String.toList_ofList, hnil] at hchars
    exact absurd hchars List.not_mem_nil

/-- The scan goes over a copy as over the literal. -/
def Follows (text copy : List Char) : Prop :=
  valueSplitter.cutCount (false, 0) text = 0 →
    valueSplitter.cutCount (false, 0) copy = 0 ∧
      (valueSplitter.run (false, 0) text = (false, 0) →
        valueSplitter.run (false, 0) copy = (false, 0))

theorem follows_of_unmarked {column : Column} {v : Value} (text : List Char)
    (h : ∀ c ∈ (formatValue column v).toList, IsUnmarked c) :
    Follows text (copyLiteral column v) := by
  intro _
  rw [copyLiteral]
  split
  · obtain ⟨hrun, hcount⟩ := scan_unmarked h (false, 0)
    exact ⟨hcount, fun _ => hrun⟩
  · obtain ⟨hrun, hcount⟩ := scan_quoted h 0
    exact ⟨hcount, fun _ => hrun⟩

/-- A text, whose end may have been cut off where it is unmarked. -/
theorem follows_of_cut {column : Column} {v : Value} {back : List Char}
    (hnumeric : column.type ≠ .integer ∧ column.type ≠ .number) (h : ∀ c ∈ back, IsUnmarked c) :
    Follows ('\'' :: (((formatValue column v).toList ++ back) ++ ['\'']))
      (copyLiteral column v) := by
  by_cases hnull : (formatValue column v).toList = "NULL".toList
  · apply follows_of_unmarked
    have hword := @isUnmarked_formatValue column .null rfl
    rw [formatValue, String.toList_ofList] at hword
    rw [hnull]
    exact hword
  · have hquoted : ¬ (column.type = .integer ∨ column.type = .number ∨
        (formatValue column v).toList = "NULL".toList) := by tauto
    obtain ⟨hrun, hcount⟩ := scan_append_unmarked h (false, 0)
      ('\'' :: (formatValue column v).toList) ['\'']
    rw [copyLiteral, if_neg hquoted, List.append_assoc, ← List.cons_append, ← List.cons_append, Follows, hrun,
      hcount]
    exact fun huncut => ⟨huncut, id⟩

theorem follows_of_bytes {column : Column} {v : Value} {body : List Char} {bytes : Bytes}
    (hnumeric : column.type ≠ .integer ∧ column.type ≠ .number)
    (hbytes : ∀ c ∈ body, c.toNat < 256)
    (hcut : bytes = bytesOf body ∨ bytes = (bytesOf body).rdropWhile (· = 0))
    (htext : (formatValue column v).toList = textOf bytes) :
    Follows ('\'' :: (body ++ ['\''])) (copyLiteral column v) := by
  rcases hcut with rfl | rfl
  · have hfollows := @follows_of_cut column v [] hnumeric fun c hc => absurd hc List.not_mem_nil
    rwa [List.append_nil, htext, textOf_bytesOf hbytes] at hfollows
  · have hzeros : ∀ c ∈ textOf ((bytesOf body).rtakeWhile (· = 0)), IsUnmarked c := by
      intro c hc
      obtain ⟨b, hb, rfl⟩ := List.mem_map.mp hc
      have hzero : b = 0 := by simpa using List.mem_rtakeWhile_imp hb
      rw [hzero]
      exact ⟨by decide, by decide, by decide, by decide⟩
    have hparts : textOf ((bytesOf body).rdropWhile (· = 0)) ++
        textOf ((bytesOf body).rtakeWhile (· = 0)) = body := by
      conv_rhs => rw [← textOf_bytesOf hbytes, textOf]
      rw [textOf, textOf, ← List.map_append, List.rdropWhile_append_rtakeWhile]
    have hfollows := @follows_of_cut column v _ hnumeric hzeros
    rwa [htext, hparts] at hfollows

/-- What a table gives back of the value of a literal. -/
def KeptAs (v raw : Value) : Prop := v = raw ∨ v = raw.padded

theorem copy_follows {column : Column} {text : List Char} {raw v : Value}
    (h : Spelled column text raw) (hbytes : ∀ c ∈ text, c.toNat < 256) (hkept : KeptAs v raw) :
    Follows text (copyLiteral column v) := by
  cases h with
  | null =>
    have hv : v = .null := hkept.elim id id
    rw [hv]
    exact follows_of_unmarked _ (isUnmarked_formatValue rfl)
  | @integer _ n ht hread =>
    have hv : v = .integer n := hkept.elim id id
    rw [hv]
    exact follows_of_unmarked _ (isUnmarked_formatValue rfl)
  | @number _ n ht =>
    have hv : v = .number n := hkept.elim id id
    rw [hv]
    exact follows_of_unmarked _ (isUnmarked_formatValue rfl)
  | @quoted body _ hnumeric hquoted =>
    have hbody : ∀ c ∈ body, c.toNat < 256 := fun c hc =>
      hbytes c (List.mem_cons_of_mem _ (List.mem_append_left _ hc))
    cases hquoted with
    | date ht hread | time ht hread | datetime ht hread =>
      have hnil : v.stringData = [] := by
        rcases hkept with rfl | rfl <;> rfl
      exact follows_of_unmarked _ (isUnmarked_formatValue hnil)
    | character ht hlength | varstring ht | text ht =>
      have hv := hkept.elim id id
      refine follows_of_bytes hnumeric hbody (.inl rfl) ?_
      rw [hv]
      exact String.toList_ofList
    | string ht =>
      rcases hkept with hv | hv
      · refine follows_of_bytes hnumeric hbody (.inl rfl) ?_
        rw [hv]
        exact String.toList_ofList
      · refine follows_of_bytes hnumeric hbody (.inr rfl) ?_
        rw [hv]
        exact String.toList_ofList

/-! ## Values of the copies -/

/-- What is read from the copy. -/
def copiedValue : Value → Value
  | .string s => if s = bytesOf "NULL".toList then .null else .string s
  | .varstring s => if s = bytesOf "NULL".toList then .null else .varstring s
  | .text s => if s = bytesOf "NULL".toList then .null else .text s
  | .datetime seconds =>
    .datetime (DateTime.printedDay seconds * 86400 + seconds % 86400)
  | v => v

theorem parseInteger_bounds {text : List Char} {n : Int} (h : parseInteger text = some n) :
    -2 ^ 63 ≤ n ∧ n < 2 ^ 63 := by
  rw [parseInteger] at h
  cases hread : stoll text with
  | none =>
    rw [hread] at h
    cases h
  | some p =>
    obtain ⟨value, rest⟩ := p
    rw [hread] at h
    cases rest with
    | cons c rest => cases h
    | nil =>
      rw [← Option.some.inj h]
      rw [stoll] at hread
      cases hscan : scanNumber text with
      | none =>
        rw [hscan] at hread
        cases hread
      | some q =>
        obtain ⟨negative, k, rest⟩ := q
        rw [hscan] at hread
        simp only at hread
        split at hread
        · split at hread
          · cases hread
            omega
          · cases hread
        · split at hread
          · cases hread
            omega
          · cases hread

section

variable {column : Column} {v w : Value}

/-- A copy is a text without blanks around it. -/
theorem copyLiteral_spec {text : List Char} {raw : Value} (h : Spelled column text raw)
    (hkept : KeptAs v raw) :
    trim (copyLiteral column v) = copyLiteral column v ∧ copyLiteral column v ≠ [] := by
  have hnumbers : (∀ c ∈ (formatValue column v).toList, IsNumberChar c) →
      (formatValue column v).toList ≠ [] →
      trim (copyLiteral column v) = copyLiteral column v ∧ copyLiteral column v ≠ [] := by
    intro hchars hne
    rw [copyLiteral]
    split
    · exact ⟨trim_of_numberChars hchars, hne⟩
    · exact ⟨trim_quoted _, List.cons_ne_nil _ _⟩
  cases h with
  | null =>
    have hv : v = .null := hkept.elim id id
    subst hv
    have hliteral : copyLiteral column .null = "NULL".toList := by
      rw [copyLiteral, if_pos (.inr (.inr String.toList_ofList))]
      exact String.toList_ofList
    rw [hliteral]
    exact ⟨by decide, by decide⟩
  | @integer _ n ht =>
    have hv : v = .integer n := hkept.elim id id
    subst hv
    have hformat : (formatValue column (.integer n)).toList = signedDecimal n := String.toList_ofList
    rw [hformat] at hnumbers
    apply hnumbers
    · exact fun c => isNumberChar_signedDecimal
    · rw [signedDecimal]
      split
      · exact List.cons_ne_nil _ _
      · exact decimal_ne_nil _
  | @number _ n ht =>
    have hv : v = .number n := hkept.elim id id
    subst hv
    have hformat : (formatValue column (.number n)).toList = formatNumber n column.scale :=
      String.toList_ofList
    rw [hformat] at hnumbers
    apply hnumbers
    · exact fun c => isNumberChar_formatNumber
    · rw [formatNumber]
      exact List.append_ne_nil_of_right_ne_nil _ (List.append_ne_nil_of_left_ne_nil (decimal_ne_nil _) _)
  | quoted hnumeric =>
    rw [copyLiteral]
    split
    · rename_i hplain
      have hnull : (formatValue column v).toList = "NULL".toList := by tauto
      rw [hnull]
      exact ⟨by decide, by decide⟩
    · exact ⟨trim_quoted _, List.cons_ne_nil _ _⟩

/-- A text that stands between quotes. -/
theorem parse_copied_text (hquoted : isQuotedType column.type = true)
    (h : parseCleaned column (copyLiteral column v) = .ok w) :
    ((formatValue column v).toList = "NULL".toList ∧ w = .null) ∨
      (formatValue column v).toList ≠ "NULL".toList ∧
        parseQuoted column (formatValue column v).toList = .ok w := by
  have hnumeric : ¬ (column.type = .integer ∨ column.type = .number) := by
    rintro (ht | ht) <;> rw [ht] at hquoted <;> exact absurd hquoted (by decide)
  by_cases hnull : (formatValue column v).toList = "NULL".toList
  · rw [copyLiteral, if_pos (.inr (.inr hnull)), hnull, parseCleaned, if_pos rfl] at h
    split at h
    · exact .inl ⟨hnull, (Except.ok.inj h).symm⟩
    · cases h
  · rw [copyLiteral, if_neg (by tauto), parseCleaned_quoted hquoted] at h
    exact .inr ⟨hnull, h⟩

theorem textOf_eq_null {bytes : Bytes} :
    textOf bytes = "NULL".toList ↔ bytes = bytesOf "NULL".toList := by
  constructor
  · intro h
    rw [← bytesOf_textOf bytes, h]
  · rintro rfl
    decide

/-- Texts are read back as they are, apart from a `NULL`. -/
theorem value_of_copied_bytes {bytes : Bytes} {wrap : Bytes → Value}
    (hquoted : isQuotedType column.type = true)
    (hformat : (formatValue column v).toList = textOf bytes)
    (hparse : ∀ u, Quoted column (textOf bytes) u → u = wrap bytes)
    (h : parseCleaned column (copyLiteral column v) = .ok w) :
    w = if bytes = bytesOf "NULL".toList then .null else wrap bytes := by
  rcases parse_copied_text hquoted h with ⟨hnull, hw⟩ | ⟨hnull, hread⟩
  · rw [hformat, textOf_eq_null] at hnull
    rw [if_pos hnull]
    exact hw
  · rw [hformat] at hnull hread
    rw [if_neg fun heq => hnull (textOf_eq_null.mpr heq)]
    exact hparse w (quoted_of_parseQuoted hquoted hread)

theorem Quoted.type_eq {body : List Char} (h : Quoted column body v) : v.type = column.type := by
  cases h with
  | character ht | string ht | varstring ht | text ht | date ht | time ht | datetime ht =>
    exact ht.symm

/-- The bytes of a text are read as that text. -/
theorem Quoted.eq_of_type {bytes : Bytes} {u : Value} (h : Quoted column (textOf bytes) u)
    (hv : v.type = column.type) (hbytes : v.stringData = bytes)
    (htext : v.type = .character ∨ v.type = .string ∨ v.type = .varstring ∨ v.type = .text) :
    u = v := by
  have htype := h.type_eq.trans hv.symm
  cases h with
  | date | time | datetime =>
    rw [← htype] at htext
    simp [Value.type] at htext
  | character | string | varstring | text =>
    cases v <;> cases htype
    rw [bytesOf_textOf, ← hbytes]
    rfl

theorem value_of_copy {text : List Char} {raw : Value} (hvalid : column.isValid = true)
    (h : Spelled column text raw) (hkept : KeptAs v raw)
    (hread : parseCleaned column (copyLiteral column v) = .ok w) : w = copiedValue v := by
  cases h with
  | null =>
    have hv : v = .null := hkept.elim id id
    subst hv
    have hliteral : copyLiteral column .null = "NULL".toList := by
      rw [copyLiteral, if_pos (.inr (.inr String.toList_ofList))]
      exact String.toList_ofList
    rw [hliteral, parseCleaned, if_pos rfl] at hread
    split at hread
    · exact (Except.ok.inj hread).symm
    · cases hread
  | @integer _ n ht htext =>
    have hv : v = .integer n := hkept.elim id id
    subst hv
    have hformat : (formatValue column (.integer n)).toList = signedDecimal n := String.toList_ofList
    obtain ⟨hlow, hhigh⟩ := parseInteger_bounds htext
    rw [copyLiteral, if_pos (.inl ht), hformat, parseCleaned,
      if_neg (numberChars_ne_null fun c => isNumberChar_signedDecimal), if_pos ht,
      parseInteger_signedDecimal hlow hhigh] at hread
    exact (Except.ok.inj hread).symm
  | @number _ n ht =>
    have hv : v = .number n := hkept.elim id id
    subst hv
    have hformat : (formatValue column (.number n)).toList = formatNumber n column.scale :=
      String.toList_ofList
    have hscale : column.scale ≤ column.precision := by
      rw [Column.isValid, ht] at hvalid
      simp only [Bool.and_eq_true, decide_eq_true_eq] at hvalid
      omega
    rw [copyLiteral, if_pos (.inr (.inl ht)), hformat, parseCleaned,
      if_neg (numberChars_ne_null fun c => isNumberChar_formatNumber),
      if_neg (by rw [ht]; decide), if_pos ht, parseNumber_formatNumber_eq n _ hscale] at hread
    split at hread
    · rename_i hsome
      split at hsome
      · cases hsome
        rw [Nat.sub_self, pow_zero, mul_one] at hread
        exact (Except.ok.inj hread).symm
      · cases hsome
    · cases hread
  | @quoted body _ hnumeric hquoted =>
    cases hquoted with
    | @date days ht htext =>
      have hv : v = .date days := hkept.elim id id
      subst hv
      have hformat : (formatValue column (.date days)).toList = body :=
        String.toList_ofList.trans (Date.toString_fromString htext)
      rcases parse_copied_text (by rw [ht]; rfl) hread with ⟨hnull, -⟩ | ⟨-, hparse⟩
      · have hnone : Date.fromString "NULL".toList = none := by decide
        rw [← hformat, hnull, hnone] at htext
        cases htext
      · simp only [hformat, parseQuoted, ht, htext] at hparse
        exact (Except.ok.inj hparse).symm
    | @time seconds ht htext =>
      have hv : v = .time seconds := hkept.elim id id
      subst hv
      have hformat : (formatValue column (.time seconds)).toList = body :=
        String.toList_ofList.trans (Time.toString_fromString htext)
      rcases parse_copied_text (by rw [ht]; rfl) hread with ⟨hnull, -⟩ | ⟨-, hparse⟩
      · have hnone : Time.fromString "NULL".toList = none := by decide
        rw [← hformat, hnull, hnone] at htext
        cases htext
      · simp only [hformat, parseQuoted, ht, htext] at hparse
        exact (Except.ok.inj hparse).symm
    | @datetime seconds ht htext =>
      have hv : v = .datetime seconds := hkept.elim id id
      subst hv
      have hformat : (formatValue column (.datetime seconds)).toList = DateTime.toString seconds :=
        String.toList_ofList
      rcases parse_copied_text (by rw [ht]; rfl) hread with ⟨hnull, -⟩ | ⟨-, hparse⟩
      · have hblank : ' ' ∈ DateTime.toString seconds := by
          rw [DateTime.toString_eq]
          exact List.mem_append_right _ List.mem_cons_self
        rw [← hformat, hnull] at hblank
        exact absurd hblank (by decide)
      · simp only [hformat, parseQuoted, ht, DateTime.fromString_toString] at hparse
        split at hparse
        · rename_i hsome
          split at hsome
          · cases hsome
            exact (Except.ok.inj hparse).symm
          · cases hsome
        · cases hparse
    | character ht hlength =>
      have hv : v = .character (bytesOf body) := hkept.elim id id
      subst hv
      have hformat : (formatValue column (.character (bytesOf body))).toList =
          textOf (bytesOf body) := String.toList_ofList
      have hword : bytesOf body ≠ bytesOf "NULL".toList := by
        intro heq
        have hfour := congrArg List.length heq
        rw [bytesOf, List.length_map, hlength] at hfour
        exact absurd hfour (by decide)
      have hw := @value_of_copied_bytes _ _ _ _ .character (by rw [ht]; rfl) hformat
        (fun u hu => hu.eq_of_type ht.symm rfl (.inl rfl)) hread
      rwa [if_neg hword] at hw
    | varstring ht =>
      have hv : v = .varstring (bytesOf body) := hkept.elim id id
      subst hv
      have hformat : (formatValue column (.varstring (bytesOf body))).toList =
          textOf (bytesOf body) := String.toList_ofList
      exact value_of_copied_bytes (by rw [ht]; rfl) hformat
        (fun u hu => hu.eq_of_type ht.symm rfl (.inr (.inr (.inl rfl)))) hread
    | text ht =>
      have hv : v = .text (bytesOf body) := hkept.elim id id
      subst hv
      have hformat : (formatValue column (.text (bytesOf body))).toList =
          textOf (bytesOf body) := String.toList_ofList
      exact value_of_copied_bytes (by rw [ht]; rfl) hformat
        (fun u hu => hu.eq_of_type ht.symm rfl (.inr (.inr (.inr rfl)))) hread
    | string ht =>
      obtain ⟨bytes, rfl⟩ : ∃ bytes, v = .string bytes := by
        rcases hkept with rfl | rfl
        · exact ⟨_, rfl⟩
        · exact ⟨_, rfl⟩
      have hformat : (formatValue column (.string bytes)).toList = textOf bytes :=
        String.toList_ofList
      exact value_of_copied_bytes (by rw [ht]; rfl) hformat
        (fun u hu => hu.eq_of_type ht.symm rfl (.inr (.inl rfl))) hread

end

end ValueParser

end ScratchDb
