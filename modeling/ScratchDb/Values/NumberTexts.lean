import Mathlib.Tactic.Ring
import ScratchDb.Values.ValueParser
import ScratchDb.Catalog.RoundTrip

/-!
# Reading numbers back

The text of a number is read to the end, and its parts are the digits before
and behind the point. A NUMBER with a scale of its own is read at the scale of
the column that reads it.
-/

namespace ScratchDb

namespace ValueParser

open DelimitedText PaddedDecimal

/-! ## Characters of numbers -/

/-- A digit, a sign or a point. -/
def IsNumberChar (c : Char) : Prop := c.isDigit = true ∨ c = '-' ∨ c = '.'

theorem isSpace_of_isNumberChar {c : Char} (h : IsNumberChar c) : isSpace c = false := by
  rcases h with hdigit | rfl | rfl
  · have hplain := plain_of_nameChars (List.cons_ne_nil c []) fun d hd => by
      rw [List.mem_singleton.mp hd]
      exact .inr (.inl hdigit)
    exact hplain.noSpace c List.mem_cons_self
  · decide
  · decide

theorem isNumberChar_decimal {n : Nat} {c : Char} (h : c ∈ decimal n) : IsNumberChar c :=
  .inl (isDigit_of_mem_toDigits h)

theorem isNumberChar_signedDecimal {n : Int} {c : Char} (h : c ∈ signedDecimal n) :
    IsNumberChar c := by
  rw [signedDecimal] at h
  split at h
  · rcases List.mem_cons.mp h with rfl | hdigit
    · exact .inr (.inl rfl)
    · exact isNumberChar_decimal hdigit
  · exact isNumberChar_decimal h

theorem isNumberChar_formatNumber {n : Int} {scale : Nat} {c : Char}
    (h : c ∈ formatNumber n scale) : IsNumberChar c := by
  rw [formatNumber] at h
  rcases List.mem_append.mp h with hsign | hrest
  · split at hsign
    · exact .inr (.inl (List.mem_singleton.mp hsign))
    · cases hsign
  · rcases List.mem_append.mp hrest with hwhole | hfraction
    · exact isNumberChar_decimal hwhole
    · split at hfraction
      · rcases List.mem_cons.mp hfraction with rfl | hdigit
        · exact .inr (.inr rfl)
        · exact .inl (isDigit_of_mem_padded hdigit)
      · cases hfraction

/-! ## Integers -/

theorem parseInteger_signedDecimal {n : Int} (hlow : -2 ^ 63 ≤ n) (hhigh : n < 2 ^ 63) :
    parseInteger (signedDecimal n) = some n := by
  have hscan : scanNumber (signedDecimal n) = some (decide (n < 0), n.natAbs, []) := by
    rw [signedDecimal]
    by_cases hneg : n < 0
    · have htake : takeNumber (Nat.toDigits 10 n.natAbs ++ []) = some (n.natAbs, []) :=
        takeNumber_toDigits (by simp)
      rw [List.append_nil] at htake
      rw [if_pos hneg, scanNumber, List.dropWhile_cons_of_neg (by decide)]
      simp only [decimal, htake, Option.map_some, decide_eq_true hneg]
    · rw [if_neg hneg, scanNumber_whole, decide_eq_false hneg]
  rw [parseInteger, stoll, hscan]
  by_cases hneg : n < 0
  · simp only [decide_eq_true hneg, if_true]
    rw [if_pos (by omega)]
    exact congrArg some (by omega)
  · simp only [decide_eq_false hneg, Bool.false_eq_true, if_false]
    rw [if_pos (by omega)]
    exact congrArg some (by omega)

/-! ## Numbers with a scale -/

theorem decimal_ne_nil (n : Nat) : decimal n ≠ [] := Nat.toDigits_ne_nil

theorem isDigit_of_mem_decimal {n : Nat} : ∀ c ∈ decimal n, c.isDigit = true := fun _ =>
  isDigit_of_mem_toDigits

/-! ## Decimals -/

/-- A sign and the digits before and behind the point. -/
structure Decimal where
  negative : Bool
  whole : List Char
  fraction : List Char
  digitsWhole : ∀ c ∈ whole, c.isDigit = true
  digitsFraction : ∀ c ∈ fraction, c.isDigit = true

namespace Decimal

def sign (d : Decimal) : List Char := if d.negative then ['-'] else []

/-- Both parts may be empty where there is a point, and the point may be left out where no digit
follows it. -/
def Spells (d : Decimal) (text : List Char) : Prop :=
  text = d.sign ++ (d.whole ++ '.' :: d.fraction) ∨
    text = d.sign ++ d.whole ∧ d.fraction = [] ∧ d.whole ≠ []

/-- The digits as a number, with as many of them behind the point as there is room for. -/
def scaled (d : Decimal) (scale : Nat) : Nat :=
  Nat.ofDigitChars 10 d.whole 0 * 10 ^ scale +
    Nat.ofDigitChars 10 d.fraction 0 * 10 ^ (scale - d.fraction.length)

def signed (d : Decimal) (n : Nat) : Int := if d.negative then -(n : Int) else n

end Decimal

theorem ne_point_of_isDigit {c : Char} (h : c.isDigit = true) : c ≠ '.' := by
  rintro rfl
  exact absurd h (by decide)

theorem splitNumber_fraction_iff {text whole fraction w f : List Char} :
    splitNumber text true whole fraction = some (w, f) ↔
      (∀ c ∈ text, c.isDigit = true) ∧ w = whole ∧ f = fraction ++ text := by
  induction text generalizing fraction with
  | nil =>
    rw [splitNumber, List.append_nil, Option.some_inj, Prod.mk_inj]
    constructor
    · rintro ⟨rfl, rfl⟩
      exact ⟨fun c hc => absurd hc List.not_mem_nil, rfl, rfl⟩
    · rintro ⟨-, rfl, rfl⟩
      exact ⟨rfl, rfl⟩
  | cons c text ih =>
    rw [splitNumber, List.forall_mem_cons]
    by_cases hdigit : c.isDigit = true
    · rw [if_neg (ne_point_of_isDigit hdigit), if_neg (by simp [hdigit]), if_pos rfl, ih,
        List.append_assoc, List.singleton_append]
      exact ⟨fun h => ⟨⟨hdigit, h.1⟩, h.2⟩, fun h => ⟨h.1.2, h.2⟩⟩
    · refine iff_of_false (fun hsome => ?_) fun h => hdigit h.1.1
      split at hsome
      · cases hsome
      · rw [if_pos (Bool.eq_false_iff.mpr hdigit)] at hsome
        cases hsome

/-- The loop splits a text at its point, if it has one. -/
theorem splitNumber_iff {text whole w f : List Char} :
    splitNumber text false whole [] = some (w, f) ↔
      ∃ front, (∀ c ∈ front, c.isDigit = true) ∧ (∀ c ∈ f, c.isDigit = true) ∧
        w = whole ++ front ∧ (text = front ++ '.' :: f ∨ text = front ∧ f = []) := by
  induction text generalizing whole with
  | nil =>
    rw [splitNumber, Option.some_inj, Prod.mk_inj]
    constructor
    · rintro ⟨rfl, rfl⟩
      exact ⟨[], by simp, by simp, (List.append_nil _).symm, .inr ⟨rfl, rfl⟩⟩
    · rintro ⟨front, -, -, rfl, hpoint | ⟨rfl, rfl⟩⟩
      · simp at hpoint
      · exact ⟨(List.append_nil _).symm, rfl⟩
  | cons c text ih =>
    rw [splitNumber]
    by_cases hpoint : c = '.'
    · rw [if_pos hpoint, if_neg Bool.false_ne_true, splitNumber_fraction_iff, hpoint]
      constructor
      · rintro ⟨hdigits, rfl, rfl⟩
        exact ⟨[], by simp, hdigits, (List.append_nil _).symm, .inl rfl⟩
      · rintro ⟨front, hfront, hdigits, rfl, htext | ⟨htext, -⟩⟩
        · cases front with
          | nil =>
            cases htext
            exact ⟨hdigits, List.append_nil _, rfl⟩
          | cons d front =>
            cases htext
            exact absurd rfl (ne_point_of_isDigit (hfront _ List.mem_cons_self))
        · rw [← htext] at hfront
          exact absurd rfl (ne_point_of_isDigit (hfront _ List.mem_cons_self))
    · rw [if_neg hpoint]
      by_cases hdigit : c.isDigit = true
      · rw [if_neg (by simp [hdigit]), if_neg Bool.false_ne_true, ih]
        constructor
        · rintro ⟨front, hfront, hdigits, rfl, htext⟩
          refine ⟨c :: front, List.forall_mem_cons.mpr ⟨hdigit, hfront⟩, hdigits, ?_, ?_⟩
          · rw [List.append_assoc, List.singleton_append]
          · rcases htext with rfl | ⟨rfl, rfl⟩
            · exact .inl rfl
            · exact .inr ⟨rfl, rfl⟩
        · rintro ⟨front, hfront, hdigits, rfl, htext⟩
          cases front with
          | nil =>
            rcases htext with htext | ⟨htext, -⟩
            · cases htext
              exact absurd rfl hpoint
            · cases htext
          | cons d front =>
            have hrest := (List.forall_mem_cons.mp hfront).2
            rcases htext with htext | ⟨htext, hnil⟩
            · cases htext
              exact ⟨front, hrest, hdigits, by simp, .inl rfl⟩
            · obtain ⟨rfl, rfl⟩ := List.cons_eq_cons.mp htext
              exact ⟨text, hrest, hdigits, by simp, .inr ⟨rfl, hnil⟩⟩
      · rw [if_pos (Bool.eq_false_iff.mpr hdigit)]
        refine iff_of_false (fun hsome => ?_) ?_
        · cases hsome
        rintro ⟨front, hfront, -, -, htext⟩
        cases front with
        | nil =>
          rcases htext with htext | ⟨htext, -⟩
          · cases htext
            exact hpoint rfl
          · cases htext
        | cons d front =>
          have hd := hfront d List.mem_cons_self
          rcases htext with htext | ⟨htext, -⟩
          · cases htext
            exact hdigit hd
          · cases htext
            exact hdigit hd

/-! ## The check of the digits -/

theorem ofDigitChars_stripZeros (digits : List Char) :
    Nat.ofDigitChars 10 (stripZeros digits) 0 = Nat.ofDigitChars 10 digits 0 := by
  induction digits using stripZeros.induct with
  | case1 c rest ih => rw [stripZeros, ih, ofDigitChars_cons_eq '0' (c :: rest)]; simp [digitOf]
  | case2 digits h => rw [stripZeros.eq_2 digits h]

theorem stripZeros_spec {digits : List Char} (h : ∀ c ∈ digits, c.isDigit = true) :
    (∀ c ∈ stripZeros digits, c.isDigit = true) ∧
      (stripZeros digits = ['0'] ∨ (stripZeros digits).head? ≠ some '0') := by
  induction digits using stripZeros.induct with
  | case1 c rest ih =>
    rw [stripZeros]
    exact ih fun d hd => h d (List.mem_cons_of_mem _ hd)
  | case2 digits hshape =>
    rw [stripZeros.eq_2 digits hshape]
    refine ⟨h, ?_⟩
    rcases digits with _ | ⟨c, _ | ⟨d, rest⟩⟩
    · exact .inr (by decide)
    · by_cases hzero : c = '0'
      · exact .inl (by rw [hzero])
      · exact .inr (by simp [hzero])
    · refine .inr fun hhead => ?_
      rw [Option.some_inj.mp hhead] at hshape
      exact hshape d rest rfl

/-- Digits without a zero in front fit a place exactly if their number does. -/
theorem length_le_iff {digits : List Char} (h : ∀ c ∈ digits, c.isDigit = true)
    (hlead : digits.head? ≠ some '0') (places : Nat) :
    digits.length ≤ places ↔ Nat.ofDigitChars 10 digits 0 < 10 ^ places := by
  have hbound := ofDigitChars_lt h
  constructor
  · intro hlen
    exact lt_of_lt_of_le hbound (Nat.pow_le_pow_right (by decide) hlen)
  · intro hlt
    cases digits with
    | nil => exact Nat.zero_le _
    | cons c rest =>
      by_contra hlong
      have hdigit : 0 < digitOf c := by
        have hc := h c List.mem_cons_self
        have hzero : c ≠ '0' := fun heq => hlead (by rw [heq]; rfl)
        rw [Ne, eq_iff_digitOf_eq hc (by decide)] at hzero
        have hnought : digitOf '0' = 0 := by decide
        omega
      have hfirst : 10 ^ rest.length * 1 ≤ 10 ^ rest.length * digitOf c :=
        Nat.mul_le_mul_left _ hdigit
      have hplaces : 10 ^ places ≤ 10 ^ rest.length :=
        Nat.pow_le_pow_right (by decide) (by rw [List.length_cons] at hlong; omega)
      rw [ofDigitChars_cons_eq] at hlt
      omega

/-- What `parse_number` checks, and the number that it returns. -/
theorem scaledNumber_eq (d : Decimal) {precision scale : Nat} (hscale : scale ≤ precision) :
    scaledNumber d.whole d.fraction precision scale =
      if d.fraction.length ≤ scale ∧ Nat.ofDigitChars 10 d.whole 0 < 10 ^ (precision - scale) then
        some (d.scaled scale)
      else none := by
  obtain ⟨hdigits, hlead⟩ := stripZeros_spec d.digitsWhole
  have hsame := ofDigitChars_stripZeros d.whole
  have hzero : Nat.ofDigitChars 10 ['0'] 0 = 0 := by decide
  set whole := if stripZeros d.whole = [] then ['0'] else stripZeros d.whole with hwhole
  have hvalue : Nat.ofDigitChars 10 whole 0 = Nat.ofDigitChars 10 d.whole 0 := by
    rw [hwhole]
    split
    · rename_i hnil
      rw [← hsame, hnil]
      rfl
    · exact hsame
  have hplaces : ∀ places, (if whole = ['0'] then 0 else whole.length) ≤ places ↔
      Nat.ofDigitChars 10 d.whole 0 < 10 ^ places := by
    intro places
    rw [← hvalue]
    split
    · rename_i hnought
      rw [hnought, hzero]
      exact iff_of_true (Nat.zero_le _) (Nat.pow_pos (by decide))
    · rename_i hnought
      have hstripped : whole = stripZeros d.whole := by
        rw [hwhole]
        split
        · rename_i hnil
          exact absurd (hwhole.trans (if_pos hnil)) hnought
        · rfl
      rw [hstripped] at hnought ⊢
      exact length_le_iff hdigits (hlead.resolve_left hnought) places
  rw [scaledNumber]
  simp only [← hwhole]
  by_cases hfraction : d.fraction.length ≤ scale
  · rw [if_neg (not_lt.mpr hfraction)]
    by_cases hfits : Nat.ofDigitChars 10 d.whole 0 < 10 ^ (precision - scale)
    · have hfew := (hplaces (precision - scale)).mpr hfits
      rw [if_neg (by omega), if_pos ⟨hfraction, hfits⟩, Nat.ofDigitChars_append,
        Nat.ofDigitChars_append, Nat.ofDigitChars_replicate_zero, hvalue,
        Nat.ofDigitChars_eq_ofDigitChars_zero (l := d.fraction), Decimal.scaled]
      have hsplit : (10 : Nat) ^ scale = 10 ^ (scale - d.fraction.length) * 10 ^ d.fraction.length := by
        rw [← pow_add, Nat.sub_add_cancel hfraction]
      rw [hsplit]
      exact congrArg some (by ring)
    · have hmany := (hplaces (precision - scale)).not.mpr hfits
      rw [if_pos (.inr (not_le.mp hmany)), if_neg fun h => hfits h.2]
  · rw [if_pos (not_le.mp hfraction), if_neg fun h => hfraction h.1]

/-! ## Reading -/

theorem parseNumber_of_spells {d : Decimal} {text : List Char} (h : d.Spells text)
    (precision scale : Nat) :
    parseNumber text precision scale =
      (scaledNumber d.whole d.fraction precision scale).map d.signed := by
  obtain ⟨digits, rfl, hne, hsplit, hhead⟩ : ∃ digits, text = d.sign ++ digits ∧ digits ≠ [] ∧
      splitNumber digits false [] [] = some (d.whole, d.fraction) ∧ digits.head? ≠ some '-' := by
    have hsplit : ∀ {digits : List Char}, digits = d.whole ++ '.' :: d.fraction ∨
        digits = d.whole ∧ d.fraction = [] →
        splitNumber digits false [] [] = some (d.whole, d.fraction) := fun hform =>
      splitNumber_iff.mpr ⟨d.whole, d.digitsWhole, d.digitsFraction, rfl, hform⟩
    rcases h with rfl | ⟨rfl, hnil, hne⟩
    · refine ⟨_, rfl, by simp, hsplit (.inl rfl), fun hhead => ?_⟩
      cases hw : d.whole with
      | nil =>
        rw [hw] at hhead
        cases hhead
      | cons c rest =>
        have hdigit := d.digitsWhole c (by rw [hw]; exact List.mem_cons_self)
        rw [hw] at hhead
        rw [Option.some_inj.mp hhead] at hdigit
        exact absurd hdigit (by decide)
    · refine ⟨_, rfl, hne, hsplit (.inr ⟨rfl, hnil⟩), fun hhead => ?_⟩
      exact absurd (d.digitsWhole _ (List.mem_of_head? hhead)) (by decide)
  rw [parseNumber]
  cases hnegative : d.negative with
  | true =>
    have hsign : d.sign = ['-'] := by rw [Decimal.sign, hnegative]; rfl
    have hsigned : d.signed = fun n : Nat => -(n : Int) := by
      funext n
      rw [Decimal.signed, hnegative]
      rfl
    rw [hsign, hsigned]
    simp only [List.cons_append, List.nil_append, List.head?_cons, decide_true, if_true,
      List.tail_cons, if_neg hne, hsplit, Option.bind_eq_bind, Option.bind_some]
    cases scaledNumber d.whole d.fraction precision scale <;> rfl
  | false =>
    have hsign : d.sign = [] := by rw [Decimal.sign, hnegative]; rfl
    have hsigned : d.signed = fun n : Nat => (n : Int) := by
      funext n
      rw [Decimal.signed, hnegative]
      rfl
    rw [hsign, hsigned]
    simp only [List.nil_append, decide_eq_false hhead, Bool.false_eq_true, if_false, if_neg hne,
      hsplit, Option.bind_eq_bind, Option.bind_some]
    cases scaledNumber d.whole d.fraction precision scale <;> rfl

/-- Only decimals are read. -/
theorem spells_of_parseNumber {text : List Char} {precision scale : Nat} {v : Int}
    (h : parseNumber text precision scale = some v) : ∃ d : Decimal, d.Spells text := by
  by_cases hne : (if decide (text.head? = some '-') = true then text.tail else text) = []
  · rw [parseNumber, if_pos hne] at h
    cases h
  · rw [parseNumber, if_neg hne] at h
    obtain ⟨⟨whole, fraction⟩, hsplit, -⟩ := Option.bind_eq_some_iff.mp h
    obtain ⟨front, hfront, hfraction, rfl, hform⟩ := splitNumber_iff.mp hsplit
    refine ⟨⟨decide (text.head? = some '-'), _, fraction, hfront, hfraction⟩, ?_⟩
    have htext : text = (if decide (text.head? = some '-') = true then ['-'] else []) ++
        (if decide (text.head? = some '-') = true then text.tail else text) := by
      by_cases hhead : text.head? = some '-'
      · rw [if_pos (decide_eq_true hhead), if_pos (decide_eq_true hhead)]
        cases text with
        | nil => cases hhead
        | cons c rest =>
          cases hhead
          rfl
      · rw [if_neg (by simp [hhead]), if_neg (by simp [hhead]), List.nil_append]
    rcases hform with hform | ⟨hform, hnil⟩
    · left
      rw [hform] at htext
      exact htext
    · right
      rw [hform] at htext hne
      exact ⟨htext, hnil, hne⟩

/-! ## Printing -/

/-- What `format_number` prints. -/
def printed (n : Int) (scale : Nat) : Decimal where
  negative := decide (n < 0)
  whole := decimal (n.natAbs / 10 ^ scale)
  fraction := if scale > 0 then padded scale (n.natAbs % 10 ^ scale) else []
  digitsWhole := isDigit_of_mem_decimal
  digitsFraction := by
    intro c hc
    split at hc
    · exact isDigit_of_mem_padded hc
    · cases hc

theorem spells_printed (n : Int) (scale : Nat) : (printed n scale).Spells (formatNumber n scale) := by
  have hsign : (printed n scale).sign = if n < 0 then ['-'] else [] := by
    simp only [Decimal.sign, printed, decide_eq_true_eq]
  rw [Decimal.Spells, hsign, formatNumber]
  by_cases hscale : scale = 0
  · subst hscale
    right
    simp [printed, decimal_ne_nil]
  · left
    simp [printed, hscale, Nat.pos_of_ne_zero hscale]

theorem fraction_printed (n : Int) (scale : Nat) : (printed n scale).fraction =
    if scale > 0 then padded scale (n.natAbs % 10 ^ scale) else [] := rfl

theorem length_fraction_printed (n : Int) (scale : Nat) :
    (printed n scale).fraction.length = scale := by
  rw [fraction_printed]
  split
  · rename_i hpos
    exact length_padded hpos (Nat.mod_lt _ (Nat.pow_pos (by decide)))
  · rw [List.length_nil]
    omega

theorem ofDigitChars_printed (n : Int) (scale : Nat) :
    Nat.ofDigitChars 10 (printed n scale).whole 0 = n.natAbs / 10 ^ scale ∧
      Nat.ofDigitChars 10 (printed n scale).fraction 0 = n.natAbs % 10 ^ scale := by
  refine ⟨Nat.ofDigitChars_ten_toDigits, ?_⟩
  rw [fraction_printed]
  split
  · exact ofDigitChars_padded scale _
  · have hzero : scale = 0 := by omega
    rw [hzero, pow_zero, Nat.mod_one]
    rfl

/-- How the text of a NUMBER is read by a column of another precision and scale. -/
theorem parseNumber_formatNumber_eq (n : Int) (printedScale : Nat) {precision scale : Nat}
    (hscale : scale ≤ precision) :
    parseNumber (formatNumber n printedScale) precision scale =
      if printedScale ≤ scale ∧ n.natAbs / 10 ^ printedScale < 10 ^ (precision - scale) then
        some (n * 10 ^ (scale - printedScale))
      else none := by
  obtain ⟨hwhole, hfraction⟩ := ofDigitChars_printed n printedScale
  rw [parseNumber_of_spells (spells_printed n printedScale), scaledNumber_eq _ hscale,
    length_fraction_printed, hwhole]
  split
  · rename_i hfits
    have hscaled : (printed n printedScale).scaled scale = n.natAbs * 10 ^ (scale - printedScale) := by
      have hpow : (10 : Nat) ^ scale = 10 ^ printedScale * 10 ^ (scale - printedScale) := by
        rw [← pow_add, Nat.add_sub_cancel' hfits.1]
      rw [Decimal.scaled, hwhole, hfraction, length_fraction_printed, hpow, ← Nat.mul_assoc,
        ← Nat.add_mul, Nat.mul_comm (n.natAbs / 10 ^ printedScale), Nat.div_add_mod]
    have hsigned : (printed n printedScale).signed (n.natAbs * 10 ^ (scale - printedScale)) =
        n * 10 ^ (scale - printedScale) := by
      simp only [Decimal.signed, printed, decide_eq_true_eq, Nat.cast_mul, Nat.cast_pow,
        Nat.cast_ofNat]
      split
      · rw [← neg_mul, show -((n.natAbs : Nat) : Int) = n by omega]
      · rw [show ((n.natAbs : Nat) : Int) = n by omega]
    rw [Option.map_some, hscaled, hsigned]
  · rfl

/-- How the text of a NUMBER column is read by a column of scale 6. -/
theorem parseNumber_formatNumber (n : Int) (scale : Nat) :
    parseNumber (formatNumber n scale) 18 6 =
      if scale ≤ 6 ∧ n.natAbs / 10 ^ scale < 10 ^ 12 then some (n * 10 ^ (6 - scale))
      else none := parseNumber_formatNumber_eq n scale (by decide)

end ValueParser

end ScratchDb
