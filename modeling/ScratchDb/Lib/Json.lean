import ScratchDb.Lib.DelimitedText

/-!
# JSON texts

A reader for JSON texts, and what a text has to be made of so that the reader
gets a value back from it: rules for strings, numbers, arrays and objects that
are written without blanks. Numbers are kept as they are written.
-/

inductive Json where
  | null
  | bool (b : Bool)
  | number (lexeme : List Char)
  | string (text : List Char)
  | array (items : List Json)
  | object (members : List (List Char × Json))

namespace Json

/-- A natural number, in decimal. -/
def natural (n : Nat) : Json := .number (Nat.toDigits 10 n)

/-! ## The reader -/

def isBlank (c : Char) : Bool := c == ' ' || c == '\t' || c == '\n' || c == '\r'

def skipBlanks (text : List Char) : List Char := text.dropWhile isBlank

def hexValue (c : Char) : Option Nat :=
  if c.isDigit then some (c.toNat - '0'.toNat)
  else if 'a' ≤ c ∧ c ≤ 'f' then some (c.toNat - 'a'.toNat + 10)
  else if 'A' ≤ c ∧ c ≤ 'F' then some (c.toNat - 'A'.toNat + 10)
  else none

/-- The four digits of a `\u` escape. -/
def readHex : List Char → Option (Nat × List Char)
  | a :: b :: c :: d :: rest => do
    let a ← hexValue a
    let b ← hexValue b
    let c ← hexValue c
    let d ← hexValue d
    some (((a * 16 + b) * 16 + c) * 16 + d, rest)
  | _ => none

/-- A `\u` escape, or two for a character outside the basic plane. -/
def readCodePoint (text : List Char) : Option (Char × List Char) := do
  let (high, rest) ← readHex text
  if high < 0xd800 ∨ 0xdfff < high then some (Char.ofNat high, rest)
  else if high < 0xdc00 then
    match rest with
    | '\\' :: 'u' :: rest =>
      let (low, rest) ← readHex rest
      if 0xdc00 ≤ low ∧ low ≤ 0xdfff then
        some (Char.ofNat (0x10000 + (high - 0xd800) * 0x400 + (low - 0xdc00)), rest)
      else none
    | _ => none
  else none

def simpleEscape (c : Char) : Option Char :=
  match c with
  | '"' => some '"'
  | '\\' => some '\\'
  | '/' => some '/'
  | 'b' => some (Char.ofNat 0x08)
  | 'f' => some (Char.ofNat 0x0c)
  | 'n' => some '\n'
  | 'r' => some '\r'
  | 't' => some '\t'
  | _ => none

/-- One character of a string. Control characters have to be escaped. -/
def readChar : List Char → Option (Char × List Char)
  | '\\' :: 'u' :: rest => readCodePoint rest
  | '\\' :: c :: rest => (simpleEscape c).map (·, rest)
  | c :: rest => if c.toNat < 0x20 ∨ c = '"' ∨ c = '\\' then none else some (c, rest)
  | [] => none

/-- The characters of a string and its closing quote, of which there are fewer than `fuel`. -/
def readChars : Nat → List Char → Option (List Char × List Char)
  | 0, _ => none
  | _ + 1, '"' :: rest => some ([], rest)
  | fuel + 1, text => do
    let (c, rest) ← readChar text
    let (cs, rest) ← readChars fuel rest
    some (c :: cs, rest)

def readString : List Char → Option (List Char × List Char)
  | '"' :: rest => readChars rest.length rest
  | _ => none

/-- One digit or more. -/
def readDigits (text : List Char) : Option (List Char × List Char) :=
  match text.takeWhile Char.isDigit with
  | [] => none
  | digits => some (digits, text.dropWhile Char.isDigit)

/-- An integer, without zeros in front. -/
def readInteger (text : List Char) : Option (List Char × List Char) := do
  let (digits, rest) ← readDigits text
  if 1 < digits.length ∧ digits.head? = some '0' then none else some (digits, rest)

def readFraction : List Char → Option (List Char × List Char)
  | '.' :: rest => (readDigits rest).map fun (digits, rest) => ('.' :: digits, rest)
  | rest => some ([], rest)

def readSign : List Char → List Char × List Char
  | '+' :: rest => (['+'], rest)
  | '-' :: rest => (['-'], rest)
  | rest => ([], rest)

def readExponent : List Char → Option (List Char × List Char)
  | c :: rest =>
    if c = 'e' ∨ c = 'E' then
      let (sign, rest) := readSign rest
      (readDigits rest).map fun (digits, rest) => (c :: (sign ++ digits), rest)
    else some ([], c :: rest)
  | [] => some ([], [])

def readNumber (text : List Char) : Option (Json × List Char) := do
  let (sign, rest) := match text with
    | '-' :: rest => (['-'], rest)
    | rest => ([], rest)
  let (digits, rest) ← readInteger rest
  let (fraction, rest) ← readFraction rest
  let (exponent, rest) ← readExponent rest
  some (.number (sign ++ digits ++ fraction ++ exponent), rest)

/-- What is between the brackets of an array or the braces of an object. -/
def readBody {α : Type} (close : Char) (more : List Char → Option (List α × List Char))
    (text : List Char) : Option (List α × List Char) :=
  match skipBlanks text with
  | [] => none
  | c :: rest => if c = close then some ([], rest) else more (c :: rest)

mutual

/-- A value whose text is not longer than `fuel`. -/
def readValue : Nat → List Char → Option (Json × List Char)
  | 0, _ => none
  | fuel + 1, text =>
    match skipBlanks text with
    | '"' :: rest => (readString ('"' :: rest)).map fun (s, rest) => (.string s, rest)
    | '[' :: rest =>
      (readBody ']' (readItems fuel) rest).map fun (items, rest) => (.array items, rest)
    | '{' :: rest =>
      (readBody '}' (readMembers fuel) rest).map fun (members, rest) => (.object members, rest)
    | 'n' :: 'u' :: 'l' :: 'l' :: rest => some (.null, rest)
    | 't' :: 'r' :: 'u' :: 'e' :: rest => some (.bool true, rest)
    | 'f' :: 'a' :: 'l' :: 's' :: 'e' :: rest => some (.bool false, rest)
    | rest => readNumber rest

/-- The items of an array, up to its end. -/
def readItems : Nat → List Char → Option (List Json × List Char)
  | 0, _ => none
  | fuel + 1, text => do
    let (item, rest) ← readValue fuel text
    match skipBlanks rest with
    | ',' :: rest =>
      let (items, rest) ← readItems fuel rest
      some (item :: items, rest)
    | ']' :: rest => some ([item], rest)
    | _ => none

/-- The members of an object, up to its end. -/
def readMembers : Nat → List Char → Option (List (List Char × Json) × List Char)
  | 0, _ => none
  | fuel + 1, text => do
    let (name, rest) ← readString (skipBlanks text)
    match skipBlanks rest with
    | ':' :: rest =>
      let (value, rest) ← readValue fuel rest
      match skipBlanks rest with
      | ',' :: rest =>
        let (members, rest) ← readMembers fuel rest
        some ((name, value) :: members, rest)
      | '}' :: rest => some ([(name, value)], rest)
      | _ => none
    | _ => none

end

/-- The value of a whole text. -/
def read (text : List Char) : Option Json := do
  let (value, rest) ← readValue text.length text
  if skipBlanks rest = [] then some value else none

/-! ## Strings -/

/-- In front of any text, the reader takes this text for the character. -/
def SpellsChar (text : List Char) (c : Char) : Prop :=
  (∀ rest, readChar (text ++ rest) = some (c, rest)) ∧ ∃ d ds, text = d :: ds ∧ d ≠ '"'

theorem spellsChar_self {c : Char} (hcontrol : 0x20 ≤ c.toNat) (hquote : c ≠ '"')
    (hslash : c ≠ '\\') : SpellsChar [c] c := by
  refine ⟨fun rest => ?_, c, [], rfl, hquote⟩
  rw [List.singleton_append, readChar.eq_def]
  split
  · rename_i heq
    cases heq
    exact absurd rfl hslash
  · rename_i heq
    cases heq
    exact absurd rfl hslash
  · rename_i heq
    cases heq
    rw [if_neg]
    rintro (h | h | h)
    · omega
    · exact hquote h
    · exact hslash h
  · rename_i heq
    cases heq

theorem spellsChar_simple {d c : Char} (h : simpleEscape d = some c) :
    SpellsChar ['\\', d] c := by
  refine ⟨fun rest => ?_, '\\', [d], rfl, by decide⟩
  have hu : d ≠ 'u' := by
    rintro rfl
    cases h
  show readChar ('\\' :: d :: rest) = _
  rw [readChar.eq_def]
  split
  · rename_i heq
    cases heq
    exact absurd rfl hu
  · rename_i heq
    cases heq
    rw [h, Option.map_some]
  · rename_i hnot heq
    cases heq
    exact (hnot d rest rfl rfl).elim
  · rename_i heq
    cases heq

theorem hexValue_digitChar {n : Nat} (h : n < 16) : hexValue (Nat.digitChar n) = some n := by
  have hall : ∀ k : Fin 16, hexValue (Nat.digitChar k.val) = some k.val := by decide
  exact hall ⟨n, h⟩

/-- A control character by its number. -/
theorem spellsChar_control {c : Char} (h : c.toNat < 0x20) :
    SpellsChar ['\\', 'u', '0', '0', Nat.digitChar (c.toNat / 16), Nat.digitChar (c.toNat % 16)] c := by
  refine ⟨fun rest => ?_, '\\', _, rfl, by decide⟩
  have hhigh : hexValue (Nat.digitChar (c.toNat / 16)) = some (c.toNat / 16) :=
    hexValue_digitChar (by omega)
  have hlow : hexValue (Nat.digitChar (c.toNat % 16)) = some (c.toNat % 16) :=
    hexValue_digitChar (by omega)
  have hzero : hexValue '0' = some 0 := by decide
  have hnumber : ((0 * 16 + 0) * 16 + c.toNat / 16) * 16 + c.toNat % 16 = c.toNat := by omega
  show readCodePoint ('0' :: '0' :: Nat.digitChar (c.toNat / 16) ::
    Nat.digitChar (c.toNat % 16) :: rest) = _
  simp only [readCodePoint, readHex, hzero, hhigh, hlow, Option.bind_eq_bind, Option.bind_some,
    hnumber]
  rw [if_pos (.inl (by omega)), Char.ofNat_toNat]

/-- In front of any text, the reader takes this text, quotes and all, for the string. -/
def SpellsString (text s : List Char) : Prop :=
  (∀ rest, readString (text ++ rest) = some (s, rest)) ∧ ∃ ds, text = '"' :: ds

theorem readChars_spelled {spell : Char → List Char} {s : List Char}
    (h : ∀ c ∈ s, SpellsChar (spell c) c) {fuel : Nat} (hfuel : s.length < fuel)
    (rest : List Char) : readChars fuel (s.flatMap spell ++ '"' :: rest) = some (s, rest) := by
  induction s generalizing fuel with
  | nil =>
    cases fuel with
    | zero => cases hfuel
    | succ fuel => rfl
  | cons c s ih =>
    cases fuel with
    | zero => cases hfuel
    | succ fuel =>
      rcases h c List.mem_cons_self with ⟨hread, d, ds, hspell, hquote⟩
      have hrest := ih (fun x hx => h x (List.mem_cons_of_mem c hx)) (Nat.lt_of_succ_lt_succ hfuel)
      rw [List.flatMap_cons, List.append_assoc]
      have hone := hread (s.flatMap spell ++ '"' :: rest)
      rw [hspell, List.cons_append] at hone ⊢
      rw [readChars]
      · rw [hone]
        simp only [Option.bind_eq_bind, Option.bind_some, hrest]
      · rintro _ heq
        cases heq
        exact hquote rfl

theorem length_le_flatMap {spell : Char → List Char} {s : List Char}
    (h : ∀ c ∈ s, SpellsChar (spell c) c) : s.length ≤ (s.flatMap spell).length := by
  induction s with
  | nil => exact Nat.le_refl 0
  | cons c s ih =>
    rcases h c List.mem_cons_self with ⟨-, d, ds, hspell, -⟩
    have hrest := ih fun x hx => h x (List.mem_cons_of_mem c hx)
    rw [List.flatMap_cons, hspell, List.length_append, List.length_cons, List.length_cons]
    omega

/-- A string whose characters are spelled one after another. -/
theorem spellsString_flatMap {spell : Char → List Char} {s : List Char}
    (h : ∀ c ∈ s, SpellsChar (spell c) c) : SpellsString ('"' :: (s.flatMap spell ++ ['"'])) s := by
  refine ⟨fun rest => ?_, _, rfl⟩
  have hlength := length_le_flatMap h
  rw [List.cons_append, readString, List.append_assoc, List.singleton_append]
  apply readChars_spelled h
  rw [List.length_append, List.length_cons]
  omega

/-! ## Values -/

/-- What may follow a value that is written without blanks. -/
def Follows (rest : List Char) : Prop := ∀ c ∈ rest.head?, c = ',' ∨ c = ']' ∨ c = '}'

theorem follows_comma (rest : List Char) : Follows (',' :: rest) := by
  intro c hc
  cases hc
  exact .inl rfl

theorem follows_bracket (rest : List Char) : Follows (']' :: rest) := by
  intro c hc
  cases hc
  exact .inr (.inl rfl)

theorem follows_brace (rest : List Char) : Follows ('}' :: rest) := by
  intro c hc
  cases hc
  exact .inr (.inr rfl)

theorem follows_nil : Follows [] := by
  intro c hc
  cases hc

/-- The reader takes the text for the value, and leaves what follows. -/
structure Spells (text : List Char) (v : Json) : Prop where
  reads : ∀ fuel, text.length ≤ fuel → ∀ rest, Follows rest →
    readValue fuel (text ++ rest) = some (v, rest)
  begins : ∃ c cs, text = c :: cs ∧ isBlank c = false ∧ c ≠ ']'

theorem skipBlanks_cons {c : Char} (h : isBlank c = false) (rest : List Char) :
    skipBlanks (c :: rest) = c :: rest :=
  List.dropWhile_cons_of_neg (by rw [h]; exact Bool.false_ne_true)

theorem readBody_cons {α : Type} {close c : Char} {more : List Char → Option (List α × List Char)}
    (hblank : isBlank c = false) (hclose : c ≠ close) (rest : List Char) :
    readBody close more (c :: rest) = more (c :: rest) := by
  rw [readBody, skipBlanks_cons hblank]
  exact if_neg hclose

theorem spells_string {text s : List Char} (h : SpellsString text s) : Spells text (.string s) := by
  rcases h with ⟨hread, ds, rfl⟩
  refine ⟨?_, '"', ds, rfl, by decide, by decide⟩
  intro fuel hfuel rest _
  cases fuel with
  | zero => cases hfuel
  | succ fuel =>
    have hstring := hread rest
    rw [List.cons_append] at hstring ⊢
    rw [readValue, skipBlanks_cons (by decide)]
    show (readString ('"' :: (ds ++ rest))).map _ = _
    rw [hstring, Option.map_some]

theorem spells_true : Spells ['t', 'r', 'u', 'e'] (.bool true) := by
  refine ⟨?_, 't', _, rfl, by decide, by decide⟩
  intro fuel hfuel rest _
  cases fuel with
  | zero => cases hfuel
  | succ fuel => rfl

theorem spells_false : Spells ['f', 'a', 'l', 's', 'e'] (.bool false) := by
  refine ⟨?_, 'f', _, rfl, by decide, by decide⟩
  intro fuel hfuel rest _
  cases fuel with
  | zero => cases hfuel
  | succ fuel => rfl

/-- A decimal number has no zeros in front. -/
theorem toDigits_leading (n : Nat) :
    ¬ (1 < (Nat.toDigits 10 n).length ∧ (Nat.toDigits 10 n).head? = some '0') := by
  have hpos : ∀ m, 0 < m → (Nat.toDigits 10 m).head? ≠ some '0' := by
    intro m
    induction m using Nat.strongRecOn with
    | ind m ih =>
      intro hm
      by_cases hlt : m < 10
      · rw [Nat.toDigits_of_lt_base hlt, List.head?_cons, ne_eq, Option.some.injEq]
        have hall : ∀ k : Fin 10, k.val ≠ 0 → Nat.digitChar k.val ≠ '0' := by decide
        exact hall ⟨m, hlt⟩ (Nat.ne_of_gt hm)
      · rw [Nat.toDigits_of_base_le (by decide) (Nat.le_of_not_lt hlt),
          List.head?_append_of_ne_nil _ Nat.toDigits_ne_nil]
        exact ih (m / 10) (by omega) (by omega)
  rintro ⟨hlong, hzero⟩
  by_cases hn : n = 0
  · rw [hn, Nat.toDigits_zero] at hlong
    exact absurd hlong (by decide)
  · exact hpos n (Nat.pos_of_ne_zero hn) hzero

theorem readDigits_append {ds rest : List Char} (hds : ∀ d ∈ ds, d.isDigit = true) (hne : ds ≠ [])
    (hrest : ∀ c ∈ rest.head?, c.isDigit = false) : readDigits (ds ++ rest) = some (ds, rest) := by
  have htake : (ds ++ rest).takeWhile Char.isDigit = ds := by
    rw [List.takeWhile_append_of_pos hds]
    cases rest with
    | nil => rw [List.takeWhile_nil, List.append_nil]
    | cons c rest =>
      rw [List.takeWhile_cons_of_neg (by simp [hrest c rfl]), List.append_nil]
  have hdrop : (ds ++ rest).dropWhile Char.isDigit = rest := by
    rw [List.dropWhile_append_of_pos hds]
    cases rest with
    | nil => rfl
    | cons c rest => exact List.dropWhile_cons_of_neg (by simp [hrest c rfl])
  rw [readDigits, htake, hdrop]
  cases ds with
  | nil => exact absurd rfl hne
  | cons d ds => rfl

theorem readNumber_natural (n : Nat) {rest : List Char} (hrest : Follows rest) :
    readNumber (Nat.toDigits 10 n ++ rest) = some (natural n, rest) := by
  have hdigits : ∀ d ∈ Nat.toDigits 10 n, d.isDigit = true := by
    intro d hd
    exact DelimitedText.isDigit_of_mem_toDigits hd
  have hnot : ∀ c ∈ rest.head?, c.isDigit = false := by
    intro c hc
    rcases hrest c hc with rfl | rfl | rfl <;> decide
  have hread := readDigits_append hdigits Nat.toDigits_ne_nil hnot
  have hinteger : readInteger (Nat.toDigits 10 n ++ rest) = some (Nat.toDigits 10 n, rest) := by
    rw [readInteger, hread]
    simp only [Option.bind_eq_bind, Option.bind_some]
    rw [if_neg (toDigits_leading n)]
  have hend : readFraction rest = some ([], rest) ∧ readExponent rest = some ([], rest) := by
    cases rest with
    | nil => exact ⟨rfl, rfl⟩
    | cons c rest =>
      rcases hrest c rfl with rfl | rfl | rfl <;> exact ⟨rfl, rfl⟩
  cases hds : Nat.toDigits 10 n with
  | nil => exact absurd hds Nat.toDigits_ne_nil
  | cons d ds =>
    have hminus : d ≠ '-' := by
      rintro rfl
      have hdigit := hdigits '-' (by rw [hds]; exact List.mem_cons_self)
      exact absurd hdigit (by decide)
    rw [hds, List.cons_append] at hinteger
    rw [List.cons_append, readNumber]
    · simp only [Option.bind_eq_bind, hinteger, Option.bind_some, hend.1, hend.2, List.nil_append,
        List.append_nil]
      rw [natural, hds]
    · rintro _ heq
      cases heq
      exact hminus rfl

theorem isDigit_head_toDigits (n : Nat) :
    ∃ c cs, Nat.toDigits 10 n = c :: cs ∧ c.isDigit = true := by
  cases hds : Nat.toDigits 10 n with
  | nil => exact absurd hds Nat.toDigits_ne_nil
  | cons c cs =>
    refine ⟨c, cs, rfl, @DelimitedText.isDigit_of_mem_toDigits n c ?_⟩
    rw [hds]
    exact List.mem_cons_self

theorem not_isDigit_of_mem {c : Char} (h : c.isDigit = true) :
    isBlank c = false ∧ c ∉ ['"', '[', '{', 'n', 't', 'f', ']'] := by
  have hne : ∀ d : Char, d.isDigit = false → c ≠ d := by
    rintro d hd rfl
    rw [h] at hd
    cases hd
  constructor
  · simp only [isBlank, Bool.or_eq_false_iff, beq_eq_false_iff_ne]
    exact ⟨⟨⟨hne _ (by decide), hne _ (by decide)⟩, hne _ (by decide)⟩, hne _ (by decide)⟩
  · simp only [List.mem_cons, List.not_mem_nil, or_false, not_or]
    exact ⟨hne _ (by decide), hne _ (by decide), hne _ (by decide), hne _ (by decide),
      hne _ (by decide), hne _ (by decide), hne _ (by decide)⟩

theorem spells_natural (n : Nat) : Spells (Nat.toDigits 10 n) (natural n) := by
  rcases isDigit_head_toDigits n with ⟨c, cs, hds, hdigit⟩
  rcases not_isDigit_of_mem hdigit with ⟨hblank, hother⟩
  simp only [List.mem_cons, List.not_mem_nil, or_false, not_or] at hother
  refine ⟨?_, c, cs, hds, hblank, hother.2.2.2.2.2.2⟩
  intro fuel hfuel rest hrest
  cases fuel with
  | zero =>
    rw [hds] at hfuel
    cases hfuel
  | succ fuel =>
    have hnumber := readNumber_natural n hrest
    rw [hds, List.cons_append] at hnumber ⊢
    rw [readValue, skipBlanks_cons hblank]
    split
    · rename_i heq
      exact absurd (List.cons.inj heq).1 hother.1
    · rename_i heq
      exact absurd (List.cons.inj heq).1 hother.2.1
    · rename_i heq
      exact absurd (List.cons.inj heq).1 hother.2.2.1
    · rename_i heq
      exact absurd (List.cons.inj heq).1 hother.2.2.2.1
    · rename_i heq
      exact absurd (List.cons.inj heq).1 hother.2.2.2.2.1
    · rename_i heq
      exact absurd (List.cons.inj heq).1 hother.2.2.2.2.2.1
    · exact hnumber

/-! ## Arrays and objects -/

def commaSeparated (texts : List (List Char)) : List Char := [','].intercalate texts

theorem commaSeparated_cons_cons (t u : List Char) (texts : List (List Char)) :
    commaSeparated (t :: u :: texts) = t ++ ',' :: commaSeparated (u :: texts) := by
  rw [commaSeparated, commaSeparated, List.intercalate_cons_cons, List.append_assoc]
  rfl

theorem readItems_spelled {texts : List (List Char)} {items : List Json} (hne : texts ≠ [])
    (h : List.Forall₂ Spells texts items) {fuel : Nat}
    (hfuel : (commaSeparated texts).length < fuel) (rest : List Char) :
    readItems fuel (commaSeparated texts ++ ']' :: rest) = some (items, rest) := by
  induction h generalizing fuel with
  | nil => exact absurd rfl hne
  | cons hv hrest ih =>
    rename_i text v texts items
    cases fuel with
    | zero => cases hfuel
    | succ fuel =>
      cases hrest with
      | nil =>
        have hone : commaSeparated [text] = text := List.intercalate_singleton
        rw [hone] at hfuel
        have hread := hv.reads fuel (Nat.le_of_lt_succ hfuel) _ (follows_bracket rest)
        rw [hone, readItems, hread]
        rfl
      | cons hw hrest =>
        rename_i text' w texts items
        rw [commaSeparated_cons_cons, List.length_append, List.length_cons] at hfuel
        have hread := hv.reads fuel (by omega)
          (',' :: (commaSeparated (text' :: texts) ++ ']' :: rest)) (follows_comma _)
        have hmore : readItems fuel (commaSeparated (text' :: texts) ++ ']' :: rest) =
            some (w :: items, rest) := ih (List.cons_ne_nil _ _) (by omega)
        rw [commaSeparated_cons_cons, List.append_assoc, List.cons_append, readItems, hread]
        simp only [Option.bind_eq_bind, Option.bind_some]
        rw [skipBlanks_cons (by decide)]
        show (readItems fuel _ >>= _) = _
        rw [hmore]
        rfl

/-- An array of items without blanks. -/
theorem spells_array {texts : List (List Char)} {items : List Json}
    (h : List.Forall₂ Spells texts items) :
    Spells ('[' :: (commaSeparated texts ++ [']'])) (.array items) := by
  refine ⟨?_, '[', _, rfl, by decide, by decide⟩
  intro fuel hfuel rest _
  rw [List.length_cons, List.length_append, List.length_singleton] at hfuel
  cases fuel with
  | zero => cases hfuel
  | succ fuel =>
    rw [List.cons_append, List.append_assoc, List.singleton_append, readValue,
      skipBlanks_cons (by decide)]
    cases h with
    | nil => rfl
    | cons hv hrest =>
      rename_i text v texts items
      have hitems := readItems_spelled (List.cons_ne_nil text texts) (.cons hv hrest)
        (show (commaSeparated (text :: texts)).length < fuel by omega) rest
      -- the first item is not taken for the end
      have hfirst : ∃ c cs, commaSeparated (text :: texts) = c :: cs ∧ isBlank c = false ∧
          c ≠ ']' := by
        rcases hv.begins with ⟨c, cs, htext, hc⟩
        cases texts with
        | nil => exact ⟨c, cs, List.intercalate_singleton.trans htext, hc⟩
        | cons u texts =>
          refine ⟨c, cs ++ ',' :: commaSeparated (u :: texts), ?_, hc⟩
          rw [commaSeparated_cons_cons, htext, List.cons_append]
      rcases hfirst with ⟨c, cs, htexts, hblank, hend⟩
      rw [htexts, List.cons_append] at hitems ⊢
      show (readBody ']' (readItems fuel) (c :: (cs ++ ']' :: rest))).map _ = _
      rw [readBody_cons hblank hend, hitems]
      rfl

/-- A member of an object without blanks. -/
def SpellsMember (text : List Char) (m : List Char × Json) : Prop :=
  ∃ name value, text = name ++ ':' :: value ∧ SpellsString name m.1 ∧ Spells value m.2

theorem readMembers_spelled {texts : List (List Char)} {members : List (List Char × Json)}
    (hne : texts ≠ []) (h : List.Forall₂ SpellsMember texts members) {fuel : Nat}
    (hfuel : (commaSeparated texts).length < fuel) (rest : List Char) :
    readMembers fuel (commaSeparated texts ++ '}' :: rest) = some (members, rest) := by
  induction h generalizing fuel with
  | nil => exact absurd rfl hne
  | cons hm hrest ih =>
    rename_i text m texts members
    rcases hm with ⟨name, value, rfl, ⟨hname, ds, rfl⟩, hvalue⟩
    have hskip : ∀ rest, skipBlanks (('"' :: ds) ++ rest) = ('"' :: ds) ++ rest := by
      intro rest
      rw [List.cons_append, skipBlanks_cons (by decide)]
    cases fuel with
    | zero => cases hfuel
    | succ fuel =>
      cases hrest with
      | nil =>
        have hone : commaSeparated ['"' :: ds ++ ':' :: value] = '"' :: ds ++ ':' :: value :=
          List.intercalate_singleton
        rw [hone, List.length_append, @List.length_cons _ ':'] at hfuel
        have hread := hvalue.reads fuel (by omega) _ (follows_brace rest)
        have happend : ('"' :: ds ++ ':' :: value) ++ '}' :: rest =
            ('"' :: ds) ++ ':' :: (value ++ '}' :: rest) := List.append_assoc _ _ _
        rw [hone, happend, readMembers, hskip, hname]
        simp only [Option.bind_eq_bind, Option.bind_some]
        rw [skipBlanks_cons (by decide)]
        show (readValue fuel (value ++ '}' :: rest) >>= _) = _
        rw [hread]
        rfl
      | cons hm' hrest =>
        rename_i text' m' texts members
        rw [commaSeparated_cons_cons, List.length_append, List.length_append, @List.length_cons _ ':',
          @List.length_cons _ ','] at hfuel
        have hread := hvalue.reads fuel (by omega)
          (',' :: (commaSeparated (text' :: texts) ++ '}' :: rest)) (follows_comma _)
        have hmore : readMembers fuel (commaSeparated (text' :: texts) ++ '}' :: rest) =
            some (m' :: members, rest) := ih (List.cons_ne_nil _ _) (by omega)
        have happend : ('"' :: ds ++ ':' :: value) ++ ',' :: commaSeparated (text' :: texts) ++
              '}' :: rest =
            ('"' :: ds) ++ ':' :: (value ++ ',' :: (commaSeparated (text' :: texts) ++ '}' :: rest)) := by
          rw [List.append_assoc, List.append_assoc]
          rfl
        rw [commaSeparated_cons_cons, happend, readMembers, hskip, hname]
        simp only [Option.bind_eq_bind, Option.bind_some]
        rw [skipBlanks_cons (by decide)]
        show (readValue fuel (value ++ ',' :: _) >>= _) = _
        rw [hread]
        simp only [Option.bind_eq_bind, Option.bind_some]
        rw [skipBlanks_cons (by decide)]
        show (readMembers fuel _ >>= _) = _
        rw [hmore]
        rfl

/-- An object of members without blanks. -/
theorem spells_object {texts : List (List Char)} {members : List (List Char × Json)}
    (h : List.Forall₂ SpellsMember texts members) :
    Spells ('{' :: (commaSeparated texts ++ ['}'])) (.object members) := by
  refine ⟨?_, '{', _, rfl, by decide, by decide⟩
  intro fuel hfuel rest _
  rw [List.length_cons, List.length_append, List.length_singleton] at hfuel
  cases fuel with
  | zero => cases hfuel
  | succ fuel =>
    rw [List.cons_append, List.append_assoc, List.singleton_append, readValue,
      skipBlanks_cons (by decide)]
    cases h with
    | nil => rfl
    | cons hm hrest =>
      rename_i text m texts members
      have hmembers := readMembers_spelled (List.cons_ne_nil text texts) (.cons hm hrest)
        (show (commaSeparated (text :: texts)).length < fuel by omega) rest
      have hfirst : ∃ cs, commaSeparated (text :: texts) = '"' :: cs := by
        rcases hm with ⟨name, value, rfl, ⟨-, ds, rfl⟩, -⟩
        cases texts with
        | nil => exact ⟨ds ++ ':' :: value, List.intercalate_singleton⟩
        | cons u texts => exact ⟨_, commaSeparated_cons_cons _ u texts⟩
      rcases hfirst with ⟨cs, htexts⟩
      rw [htexts, List.cons_append] at hmembers ⊢
      show (readBody '}' (readMembers fuel) ('"' :: (cs ++ '}' :: rest))).map _ = _
      rw [readBody_cons (by decide) (by decide), hmembers]
      rfl

/-- A text that spells a value is read as that value. -/
theorem read_spelled {text : List Char} {v : Json} (h : Spells text v) : read text = some v := by
  have hread := h.reads text.length (Nat.le_refl _) [] follows_nil
  rw [List.append_nil] at hread
  rw [read, hread]
  rfl

end Json
