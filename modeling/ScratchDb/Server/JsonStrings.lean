import Mathlib.Data.List.Infix
import Mathlib.Tactic.ByContra

/-!
# Strings in JSON

Model of `json_escape` and `parse_json_string_field` of `src/server.cpp`. The
control characters without an escape of their own are written as `\u00xx`, which
the parser does not know: it drops the backslash and keeps the rest.
-/

namespace ScratchDb

namespace JsonStrings

/-! ## Writing -/

/-- The `switch` of `json_escape`. -/
def escapeChar (ch : Char) : List Char :=
  match ch with
  | '"' => ['\\', '"']
  | '\\' => ['\\', '\\']
  | '\n' => ['\\', 'n']
  | '\r' => ['\\', 'r']
  | '\t' => ['\\', 't']
  | ch =>
    if ch.toNat < 0x20 then
      ['\\', 'u', '0', '0', Nat.digitChar (ch.toNat / 16), Nat.digitChar (ch.toNat % 16)]
    else [ch]

def jsonEscape (text : List Char) : List Char := text.flatMap escapeChar

/-! ## Reading -/

/-- `body.find`: what follows the first place of a text. -/
def findText (needle : List Char) : List Char → Option (List Char)
  | [] => if needle = [] then some [] else none
  | ch :: rest =>
    if needle <+: ch :: rest then some ((ch :: rest).drop needle.length) else findText needle rest

def unescape (ch : Char) : Char :=
  match ch with
  | 'n' => '\n'
  | 'r' => '\r'
  | 't' => '\t'
  | ch => ch

/-- The loop over the characters of the value. -/
def parseString : List Char → Bool → List Char → Option (List Char)
  | [], _, _ => none
  | ch :: rest, escaping, value =>
    if escaping then parseString rest false (value ++ [unescape ch])
    else if ch = '\\' then parseString rest true value
    else if ch = '"' then some value
    else parseString rest false (value ++ [ch])

def quoted (text : List Char) : List Char := '"' :: (text ++ ['"'])

/-- What follows the quote that is taken for the first one of the value. -/
def openValue (body fieldName : List Char) : Option (List Char) := do
  let rest ← findText (quoted fieldName) body
  let rest ← findText [':'] rest
  findText ['"'] rest

/-- `parse_json_string_field`. -/
def parseJsonStringField (body fieldName : List Char) : Option (List Char) :=
  (openValue body fieldName).bind fun rest => parseString rest false []

/-! ## Searching -/

theorem length_findText {needle text rest : List Char} (h : findText needle text = some rest) :
    needle.length + rest.length ≤ text.length := by
  induction text with
  | nil =>
    rw [findText] at h
    split at h
    · rename_i hnil
      cases h
      rw [hnil]
      exact le_rfl
    · cases h
  | cons ch text ih =>
    rw [findText] at h
    split at h
    · rename_i hlead
      have hlen := hlead.length_le
      cases h
      rw [List.length_drop]
      omega
    · have hrest := ih h
      rw [List.length_cons]
      omega

/-- More text behind it does not move the first place. -/
theorem findText_append {needle text rest : List Char} (h : findText needle text = some rest)
    (tail : List Char) : findText needle (text ++ tail) = some (rest ++ tail) := by
  induction text with
  | nil =>
    rw [findText] at h
    split at h
    · rename_i hnil
      cases h
      cases tail with
      | nil => rw [List.append_nil, findText, if_pos hnil]
      | cons ch tail => rw [List.nil_append, findText, hnil, if_pos List.nil_prefix]; rfl
    · cases h
  | cons ch text ih =>
    rw [List.cons_append, findText]
    rw [findText] at h
    split at h
    · rename_i hlead
      have hlen := hlead.length_le
      cases h
      rw [← List.cons_append, if_pos (hlead.trans (List.prefix_append _ tail)),
        List.drop_append_of_le_length hlen]
    · rename_i hnot
      have hlen := length_findText h
      rw [if_neg, ih h]
      intro hlead
      exact hnot (List.prefix_of_prefix_length_le hlead (List.prefix_append (ch :: text) tail)
        (by rw [List.length_cons]; omega))

/-- A text that is there is found, there or before. -/
theorem findText_of_mem (needle front back : List Char) :
    ∃ between, findText needle (front ++ (needle ++ back)) = some (between ++ back) := by
  induction front with
  | nil =>
    refine ⟨[], ?_⟩
    rw [List.nil_append, List.nil_append]
    cases hneedle : needle ++ back with
    | nil =>
      obtain ⟨rfl, rfl⟩ := List.append_eq_nil_iff.mp hneedle
      rfl
    | cons ch rest =>
      rw [findText, ← hneedle, if_pos (List.prefix_append needle back), List.drop_left]
  | cons ch front ih =>
    rw [List.cons_append, findText]
    split
    · refine ⟨(ch :: (front ++ needle)).drop needle.length, ?_⟩
      rw [← List.append_assoc, ← List.cons_append, List.drop_append_of_le_length (by simp; omega)]
    · exact ih

/-! ## What is read back -/

/-- No control character but newline, carriage return and tab. -/
def Clean (text : List Char) : Prop :=
  ∀ c ∈ text, 0x20 ≤ c.toNat ∨ c = '\n' ∨ c = '\r' ∨ c = '\t'

/-- What the parser makes of an escaped character. -/
def readBack (c : Char) : List Char :=
  if 0x20 ≤ c.toNat ∨ c = '\n' ∨ c = '\r' ∨ c = '\t' then [c]
  else ['u', '0', '0', Nat.digitChar (c.toNat / 16), Nat.digitChar (c.toNat % 16)]

theorem parseString_plain {c : Char} (hslash : c ≠ '\\') (hquote : c ≠ '"')
    (rest value : List Char) :
    parseString (c :: rest) false value = parseString rest false (value ++ [c]) := by
  rw [parseString, if_neg Bool.false_ne_true, if_neg hslash, if_neg hquote]

theorem parseString_escaped (c : Char) (rest value : List Char) :
    parseString ('\\' :: c :: rest) false value =
      parseString rest false (value ++ [unescape c]) := by
  rw [parseString, if_neg Bool.false_ne_true, if_pos rfl, parseString, if_pos rfl]

theorem digitChar_plain :
    ∀ n : Fin 16, Nat.digitChar n ≠ '\\' ∧ Nat.digitChar n ≠ '"' := by
  decide

theorem parseString_escapeChar (c : Char) (rest value : List Char) :
    parseString (escapeChar c ++ rest) false value =
      parseString rest false (value ++ readBack c) := by
  have hself : ∀ {d : Char}, 0x20 ≤ d.toNat ∨ d = '\n' ∨ d = '\r' ∨ d = '\t' →
      readBack d = [d] := fun h => if_pos h
  unfold escapeChar
  split
  · rw [hself (by decide)]
    exact parseString_escaped '"' rest value
  · rw [hself (by decide)]
    exact parseString_escaped '\\' rest value
  · rw [hself (by decide)]
    exact parseString_escaped 'n' rest value
  · rw [hself (by decide)]
    exact parseString_escaped 'r' rest value
  · rw [hself (by decide)]
    exact parseString_escaped 't' rest value
  · rename_i hquote hslash hnewline hreturn htab
    split
    · rename_i hlow
      -- the backslash is dropped, and the letter and the digits stay
      have hdirty : ¬ (0x20 ≤ c.toNat ∨ c = '\n' ∨ c = '\r' ∨ c = '\t') := by
        rintro (h | h | h | h)
        · omega
        · exact hnewline h
        · exact hreturn h
        · exact htab h
      have hhigh := digitChar_plain ⟨c.toNat / 16, by omega⟩
      have hrest := digitChar_plain ⟨c.toNat % 16, by omega⟩
      rw [readBack, if_neg hdirty]
      simp only [List.cons_append, List.nil_append]
      rw [parseString_escaped, parseString_plain (by decide) (by decide),
        parseString_plain (by decide) (by decide), parseString_plain hhigh.1 hhigh.2,
        parseString_plain hrest.1 hrest.2]
      simp only [List.append_assoc, List.cons_append, List.nil_append]
      rfl
    · rename_i hhigh
      rw [hself (.inl (not_lt.mp hhigh))]
      exact parseString_plain hslash hquote rest value

theorem parseString_jsonEscape (text rest value : List Char) :
    parseString (jsonEscape text ++ rest) false value =
      parseString rest false (value ++ text.flatMap readBack) := by
  induction text generalizing value with
  | nil => simp [jsonEscape]
  | cons c text ih =>
    rw [jsonEscape, List.flatMap_cons, List.append_assoc, parseString_escapeChar, ← jsonEscape, ih,
      List.flatMap_cons, List.append_assoc]

theorem readBack_length (c : Char) :
    1 ≤ (readBack c).length ∧ ((readBack c).length = 1 →
      0x20 ≤ c.toNat ∨ c = '\n' ∨ c = '\r' ∨ c = '\t') := by
  rw [readBack]
  split
  · rename_i hclean
    exact ⟨le_rfl, fun _ => hclean⟩
  · exact ⟨by simp, fun h => absurd h (by simp)⟩

theorem length_flatMap_readBack (text : List Char) :
    text.length ≤ (text.flatMap readBack).length := by
  induction text with
  | nil => exact le_rfl
  | cons c text ih =>
    have hone := (readBack_length c).1
    rw [List.flatMap_cons, List.length_append, List.length_cons]
    omega

theorem flatMap_readBack_iff (text : List Char) : text.flatMap readBack = text ↔ Clean text := by
  induction text with
  | nil => exact iff_of_true rfl fun c hc => absurd hc List.not_mem_nil
  | cons c text ih =>
    rw [List.flatMap_cons, Clean, List.forall_mem_cons, ← Clean, ← ih]
    constructor
    · intro h
      have hlen := congrArg List.length h
      have hrest := length_flatMap_readBack text
      have hone := readBack_length c
      rw [List.length_append, List.length_cons] at hlen
      have hclean := hone.2 (by omega)
      rw [readBack, if_pos hclean] at h
      exact ⟨hclean, (List.cons_eq_cons.mp h).2⟩
    · rintro ⟨hclean, htext⟩
      rw [readBack, if_pos hclean, htext]
      rfl

theorem parseString_append {text t : List Char} {escaping : Bool} {value : List Char}
    (h : parseString text escaping value = some t) (tail : List Char) :
    parseString (text ++ tail) escaping value = some t := by
  induction text generalizing escaping value with
  | nil => cases h
  | cons c text ih =>
    rw [List.cons_append, parseString]
    rw [parseString] at h
    split
    · rename_i hescaping
      rw [if_pos hescaping] at h
      exact ih h
    · rename_i hescaping
      rw [if_neg hescaping] at h
      split
      · rename_i hslash
        rw [if_pos hslash] at h
        exact ih h
      · rename_i hslash
        rw [if_neg hslash] at h
        split
        · rename_i hquote
          rwa [if_pos hquote] at h
        · rename_i hquote
          rw [if_neg hquote] at h
          exact ih h

/-- A quote behind anything but a backslash ends a string, if none before it does. -/
theorem parseString_closed {text : List Char} (hlast : text.getLast? ≠ some '\\')
    {escaping : Bool} (hstart : text = [] → escaping = false) (value : List Char) :
    ∃ t, parseString (text ++ ['"']) escaping value = some t := by
  induction text generalizing escaping value with
  | nil =>
    rw [hstart rfl]
    exact ⟨value, rfl⟩
  | cons c text ih =>
    have hrest : text.getLast? ≠ some '\\' := by
      intro h
      rw [List.getLast?_cons, h] at hlast
      exact hlast rfl
    rw [List.cons_append, parseString]
    split
    · exact ih hrest (fun _ => rfl) _
    · split
      · rename_i hslash
        refine ih hrest (fun hnil => ?_) _
        rw [hnil, hslash] at hlast
        exact absurd rfl hlast
      · split
        · exact ⟨value, rfl⟩
        · exact ih hrest (fun _ => rfl) _

/-! ## Fields of an object -/

def IsBlank (c : Char) : Prop := c = ' ' ∨ c = '\t' ∨ c = '\n' ∨ c = '\r'

/-- An object with a string as the value of one of its members: what stands before the member and
behind it, the name, and the blanks around the colon. -/
structure ObjectText where
  before : List Char
  name : List Char
  blanks : List Char
  blanks' : List Char
  back : List Char
  blank : ∀ c ∈ blanks, IsBlank c
  blank' : ∀ c ∈ blanks', IsBlank c

namespace ObjectText

variable (o : ObjectText) (s : List Char)

/-- The text up to the value. -/
def start : List Char := o.before ++ (quoted o.name ++ (o.blanks ++ ':' :: o.blanks'))

/-- The text with this value. -/
def body (value : List Char) : List Char := o.start ++ (quoted (jsonEscape value) ++ o.back)

/-- The first quote behind the first colon behind the first place of the quoted name is the one that
opens the value of the member. -/
def OwnValue : Prop := openValue (o.start ++ ['"']) o.name = some []

/-- It is an earlier one, and the text from there on reads as this string. -/
def EarlierValue : Prop :=
  ∃ rest, openValue (o.start ++ ['"']) o.name = some rest ∧ rest ≠ [] ∧
    parseString rest false [] = some s

end ObjectText

theorem findText_eq_some {needle text rest : List Char} (h : findText needle text = some rest) :
    ∃ front, text = front ++ (needle ++ rest) := by
  induction text with
  | nil =>
    rw [findText] at h
    split at h
    · rename_i hnil
      cases h
      exact ⟨[], by rw [hnil]; rfl⟩
    · cases h
  | cons ch text ih =>
    rw [findText] at h
    split at h
    · rename_i hlead
      cases h
      refine ⟨[], ?_⟩
      rw [List.nil_append, List.prefix_iff_eq_append.mp hlead]
    · obtain ⟨front, hfront⟩ := ih h
      exact ⟨ch :: front, by rw [hfront]; rfl⟩

/-- Text without the first character of what is searched is passed over. -/
theorem findText_skip {c : Char} {needle front : List Char} (h : c ∉ front) (text : List Char) :
    findText (c :: needle) (front ++ text) = findText (c :: needle) text := by
  induction front with
  | nil => rfl
  | cons ch front ih =>
    obtain ⟨hne, hrest⟩ := List.ne_and_not_mem_of_not_mem_cons h
    rw [List.cons_append, findText, if_neg, ih hrest]
    intro hlead
    exact hne (List.cons_prefix_cons.mp hlead).1

/-- A text that is not complete before its place is found there. -/
theorem findText_of_absent {needle front back : List Char} (hne : needle ≠ [])
    (h : findText needle (front ++ needle.dropLast) = none) :
    findText needle (front ++ (needle ++ back)) = some back := by
  induction front with
  | nil =>
    obtain ⟨c, rest, rfl⟩ := List.exists_cons_of_ne_nil hne
    rw [List.nil_append, List.cons_append, findText, ← List.cons_append,
      if_pos (List.prefix_append _ back), List.drop_left]
  | cons ch front ih =>
    rw [List.cons_append, findText] at h
    split at h
    · cases h
    · rename_i hnot
      rw [List.cons_append, findText, if_neg, ih h]
      intro hlead
      refine hnot (List.prefix_of_prefix_length_le hlead ?_ ?_)
      · rw [← List.cons_append, ← List.cons_append, List.prefix_append_right_inj]
        exact (List.dropLast_prefix needle).trans (List.prefix_append _ back)
      · have hpos := List.length_pos_of_ne_nil hne
        rw [List.length_cons, List.length_append, List.length_dropLast]
        omega

theorem openValue_append {text name rest : List Char} (h : openValue text name = some rest)
    (tail : List Char) : openValue (text ++ tail) name = some (rest ++ tail) := by
  obtain ⟨first, hfirst, h⟩ := Option.bind_eq_some_iff.mp h
  obtain ⟨second, hsecond, h⟩ := Option.bind_eq_some_iff.mp h
  rw [openValue, findText_append hfirst tail]
  simp only [Option.bind_eq_bind, Option.bind_some, findText_append hsecond tail,
    findText_append h tail]

theorem openValue_eq_some {text name rest : List Char} (h : openValue text name = some rest) :
    ∃ front, text = front ++ '"' :: rest := by
  obtain ⟨first, hfirst, hrest⟩ := Option.bind_eq_some_iff.mp h
  obtain ⟨second, hsecond, hthird⟩ := Option.bind_eq_some_iff.mp hrest
  obtain ⟨front, rfl⟩ := findText_eq_some hfirst
  obtain ⟨front', rfl⟩ := findText_eq_some hsecond
  obtain ⟨front'', rfl⟩ := findText_eq_some hthird
  exact ⟨front ++ (quoted name ++ (front' ++ ([':'] ++ front''))), by simp⟩

namespace ObjectText

variable (o : ObjectText) (s : List Char)

/-- The search ends at the quote of the value at the latest. -/
theorem openValue_start : ∃ rest, openValue (o.start ++ ['"']) o.name = some rest := by
  obtain ⟨first, hfirst⟩ := findText_of_mem (quoted o.name) o.before
    (o.blanks ++ ':' :: (o.blanks' ++ ['"']))
  obtain ⟨second, hsecond⟩ := findText_of_mem [':'] (first ++ o.blanks) (o.blanks' ++ ['"'])
  obtain ⟨third, hthird⟩ := findText_of_mem ['"'] (second ++ o.blanks') []
  refine ⟨third, ?_⟩
  simp only [List.append_assoc, List.cons_append, List.nil_append, List.append_nil]
    at hfirst hsecond hthird
  rw [openValue, start]
  simp only [List.append_assoc, List.cons_append, hfirst, Option.bind_eq_bind, Option.bind_some,
    hsecond, hthird]

theorem getLast?_start : o.start.getLast? ≠ some '\\' := by
  have hmem : ∀ c, (':' :: o.blanks').getLast? = some c → c ≠ '\\' := by
    rintro c hlast rfl
    rcases List.mem_cons.mp (List.mem_of_getLast? hlast) with h | h
    · exact absurd h (by decide)
    · have hblank := o.blank' _ h
      revert hblank
      unfold IsBlank
      decide
  intro h
  refine hmem _ ?_ rfl
  rw [← h, start, List.getLast?_append, List.getLast?_append, List.getLast?_append]
  cases hlast : (':' :: o.blanks').getLast? with
  | none => cases List.getLast?_eq_none_iff.mp hlast
  | some c => rfl

/-- An earlier quote opens a string that ends before the value. -/
theorem parseString_earlier {rest : List Char}
    (h : openValue (o.start ++ ['"']) o.name = some rest) (hne : rest ≠ []) :
    ∃ t, parseString rest false [] = some t := by
  obtain ⟨front, hfront⟩ := openValue_eq_some h
  obtain ⟨text, c, rfl⟩ : ∃ text c, rest = text ++ [c] :=
    ⟨_, _, (List.dropLast_append_getLast hne).symm⟩
  rw [← List.cons_append, ← List.append_assoc] at hfront
  obtain ⟨hstart, hquote⟩ := List.append_inj' hfront rfl
  cases hquote
  refine parseString_closed (fun hlast => o.getLast?_start ?_) (fun _ => rfl) []
  rw [hstart, List.getLast?_append, List.getLast?_cons, hlast]
  rfl

theorem body_eq : o.body s = (o.start ++ ['"']) ++ (jsonEscape s ++ '"' :: o.back) := by
  simp [body, quoted]

/-- Which strings an object gives back. -/
theorem parseJsonStringField_iff :
    parseJsonStringField (o.body s) o.name = some s ↔
      o.OwnValue ∧ Clean s ∨ o.EarlierValue s := by
  obtain ⟨rest, hopen⟩ := o.openValue_start
  rw [parseJsonStringField, body_eq, openValue_append hopen, Option.bind_some, OwnValue,
    EarlierValue, hopen]
  by_cases hown : rest = []
  · rw [hown, List.nil_append, parseString_jsonEscape, parseString, if_neg Bool.false_ne_true,
      if_neg (by decide), if_pos rfl, List.nil_append, Option.some_inj, flatMap_readBack_iff]
    constructor
    · intro hclean
      exact .inl ⟨rfl, hclean⟩
    · rintro (⟨-, hclean⟩ | ⟨rest, hrest, hne, -⟩)
      · exact hclean
      · exact absurd (Option.some_inj.mp hrest).symm hne
  · obtain ⟨t, ht⟩ := o.parseString_earlier hopen hown
    rw [parseString_append ht]
    constructor
    · intro heq
      exact .inr ⟨rest, rfl, hown, ht.trans heq⟩
    · rintro (⟨hnil, -⟩ | ⟨earlier, hearlier, -, hs⟩)
      · exact absurd (Option.some_inj.mp hnil) hown
      · cases hearlier
        exact ht.symm.trans hs

/-- The search ends at the value where the quoted name does not come before its member. -/
theorem ownValue_of_absent (h : findText (quoted o.name) (o.before ++ '"' :: o.name) = none) :
    o.OwnValue := by
  have hcolon : ':' ∉ o.blanks := by
    intro hmem
    have hblank := o.blank _ hmem
    revert hblank
    unfold IsBlank
    decide
  have hquote : '"' ∉ o.blanks' := by
    intro hmem
    have hblank := o.blank' _ hmem
    revert hblank
    unfold IsBlank
    decide
  have hname : (quoted o.name).dropLast = '"' :: o.name := by
    rw [quoted, ← List.cons_append, List.dropLast_concat]
  have hmember := @findText_of_absent (quoted o.name) o.before
    (o.blanks ++ ':' :: (o.blanks' ++ ['"'])) (List.cons_ne_nil _ _) (by rw [hname]; exact h)
  have hopen : findText [':'] (o.blanks ++ ([':'] ++ (o.blanks' ++ ['"']))) =
      some (o.blanks' ++ ['"']) := by
    rw [findText_skip hcolon]
    exact @findText_of_absent [':'] [] _ (List.cons_ne_nil _ _) (by decide)
  have hvalue : findText ['"'] (o.blanks' ++ (['"'] ++ [])) = some [] := by
    rw [findText_skip hquote]
    exact @findText_of_absent ['"'] [] _ (List.cons_ne_nil _ _) (by decide)
  rw [OwnValue, openValue, start]
  simp only [List.append_assoc, List.cons_append, List.nil_append, List.append_nil]
    at hmember hopen hvalue ⊢
  simp only [hmember, Option.bind_eq_bind, Option.bind_some, hopen, hvalue]

/-- Nothing is found before the first member of an object. -/
theorem ownValue_of_first (h : '"' ∉ o.before) : o.OwnValue := by
  refine o.ownValue_of_absent ?_
  rw [quoted, findText_skip h]
  cases hfound : findText ('"' :: (o.name ++ ['"'])) ('"' :: o.name) with
  | none => rfl
  | some rest =>
    have hlen := length_findText hfound
    simp only [List.length_cons, List.length_append, List.length_nil] at hlen
    omega

end ObjectText

/-- A query with a character of code 1 comes out as another one. -/
theorem control_character_lost :
    ¬ ∀ (o : ObjectText) (s : List Char), parseJsonStringField (o.body s) o.name = some s := by
  intro h
  have hback := h ⟨['{'], "query".toList, [], [], ['}'], by simp, by simp⟩ [Char.ofNat 1]
  exact absurd hback (by decide)

end JsonStrings

end ScratchDb
