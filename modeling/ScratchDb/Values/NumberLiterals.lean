import Mathlib.Data.Rat.Cast.Order
import Mathlib.Tactic.FieldSimp
import Mathlib.Tactic.Positivity
import ScratchDb.Values.NumberTexts

/-!
# NUMBER literals are exact

A literal is accepted exactly if it spells a decimal with few enough digits
behind the point that the column can hold, and the value is that decimal. The
arithmetic of the loop stays within `int64_t`.
-/

namespace ScratchDb

namespace ValueParser

open PaddedDecimal

/-! ## The loop in machine arithmetic -/

def FitsInt64 (n : Int) : Prop := -2 ^ 63 ≤ n ∧ n < 2 ^ 63

instance (n : Int) : Decidable (FitsInt64 n) := inferInstanceAs (Decidable (_ ∧ _))

/-- `scaled * 10 + (ch - '0')`; `none` where the product or the sum does not fit. -/
def addDigit (scaled : Int) (ch : Char) : Option Int :=
  if FitsInt64 (scaled * 10) ∧ FitsInt64 (scaled * 10 + digitOf ch) then
    some (scaled * 10 + digitOf ch)
  else none

/-- `whole + fraction` behind the checks of `parse_number`. -/
def literalDigits (whole fraction : List Char) (precision scale : Nat) : Option (List Char) :=
  let whole := if stripZeros whole = [] then ['0'] else stripZeros whole
  let wholeDigits := if whole = ['0'] then 0 else whole.length
  if fraction.length > scale then none
  else if wholeDigits + fraction.length > precision ∨ wholeDigits > precision - scale then none
  else some (whole ++ (fraction ++ List.replicate (scale - fraction.length) '0'))

/-- `parse_number` with the overflow of `int64_t` as an outcome of its own, the outer `none`. -/
def parseNumberInt64 (text : List Char) (precision scale : Nat) : Option (Option Int) :=
  let negative : Bool := text.head? = some '-'
  let digits := if negative then text.tail else text
  if digits = [] then some none
  else
    match (splitNumber digits false [] []).bind fun parts =>
        literalDigits parts.1 parts.2 precision scale with
    | none => some none
    | some digits =>
      (digits.foldlM addDigit 0).bind fun scaled =>
        if negative then if FitsInt64 (-scaled) then some (some (-scaled)) else none
        else some (some scaled)

theorem scaledNumber_eq_map (whole fraction : List Char) (precision scale : Nat) :
    scaledNumber whole fraction precision scale =
      (literalDigits whole fraction precision scale).map (Nat.ofDigitChars 10 · 0) := by
  rw [scaledNumber, literalDigits, apply_ite (Option.map _), apply_ite (Option.map _)]
  rfl

/-- No intermediate value of the loop exceeds its last one. -/
theorem foldlM_addDigit {digits : List Char} {start : Nat}
    (h : Nat.ofDigitChars 10 digits start < 2 ^ 63) :
    digits.foldlM addDigit (start : Int) = some ((Nat.ofDigitChars 10 digits start : Nat) : Int) := by
  induction digits generalizing start with
  | nil => rfl
  | cons c digits ih =>
    rw [Nat.ofDigitChars_cons] at h ⊢
    have hnext : 10 * start + digitOf c ≤ Nat.ofDigitChars 10 digits (10 * start + digitOf c) := by
      rw [Nat.ofDigitChars_eq_ofDigitChars_zero]
      have hpow : 1 * (10 * start + digitOf c) ≤ 10 ^ digits.length * (10 * start + digitOf c) :=
        Nat.mul_le_mul_right _ (Nat.pow_pos (by decide))
      omega
    have hbound : 10 * start + digitOf c < 2 ^ 63 := lt_of_le_of_lt hnext h
    have hfits : FitsInt64 ((start : Int) * 10) ∧ FitsInt64 ((start : Int) * 10 + digitOf c) := by
      rw [FitsInt64, FitsInt64]
      omega
    have hcast : (start : Int) * 10 + digitOf c = ((10 * start + digitOf c : Nat) : Int) := by
      push_cast
      ring
    rw [List.foldlM_cons, addDigit, if_pos hfits, hcast]
    exact ih h

/-! ## Decimals and their values -/

namespace Decimal

variable (d : Decimal)

def value : ℚ :=
  (if d.negative then -1 else 1) *
    (Nat.ofDigitChars 10 d.whole 0 + Nat.ofDigitChars 10 d.fraction 0 / 10 ^ d.fraction.length)

variable {d} {precision scale : Nat}

theorem value_mul (h : d.fraction.length ≤ scale) :
    d.value * 10 ^ scale = (d.signed (d.scaled scale) : ℚ) := by
  have hpow : (10 : ℚ) ^ scale = 10 ^ d.fraction.length * 10 ^ (scale - d.fraction.length) := by
    rw [← pow_add, Nat.add_sub_cancel' h]
  have hne : (10 : ℚ) ^ d.fraction.length ≠ 0 := by positivity
  have hscaled : ((d.scaled scale : Nat) : ℚ) = (Nat.ofDigitChars 10 d.whole 0 +
      Nat.ofDigitChars 10 d.fraction 0 / 10 ^ d.fraction.length) * 10 ^ scale := by
    rw [scaled]
    push_cast
    rw [hpow]
    field_simp
  rw [value, signed, mul_assoc, ← hscaled]
  split
  · push_cast
    ring
  · push_cast
    ring

theorem scaled_lt_iff (hfraction : d.fraction.length ≤ scale) (hscale : scale ≤ precision) :
    d.scaled scale < 10 ^ precision ↔
      Nat.ofDigitChars 10 d.whole 0 < 10 ^ (precision - scale) := by
  have hrest : Nat.ofDigitChars 10 d.fraction 0 * 10 ^ (scale - d.fraction.length) <
      10 ^ scale := by
    have hpow : (10 : Nat) ^ scale = 10 ^ d.fraction.length * 10 ^ (scale - d.fraction.length) := by
      rw [← pow_add, Nat.add_sub_cancel' hfraction]
    rw [hpow]
    exact Nat.mul_lt_mul_of_pos_right (ofDigitChars_lt d.digitsFraction) (Nat.pow_pos (by decide))
  have hlead := @lead_lt_iff (10 ^ scale) (Nat.ofDigitChars 10 d.whole 0)
    (10 ^ (precision - scale)) _ 0 hrest (Nat.pow_pos (by decide))
  have hpow : (10 : Nat) ^ precision = 10 ^ scale * 10 ^ (precision - scale) := by
    rw [← pow_add, Nat.add_sub_cancel' hscale]
  rw [Nat.add_zero] at hlead
  rw [scaled, Nat.mul_comm _ (10 ^ scale), hpow, hlead]
  omega

end Decimal

/-- The decimals that a NUMBER column of this precision and scale can hold. -/
def Representable (precision scale : Nat) (q : ℚ) : Prop :=
  ∃ n : Int, q * 10 ^ scale = n ∧ |n| < 10 ^ precision

theorem Decimal.abs_signed (d : Decimal) (n : Nat) : |d.signed n| = n := by
  rw [Decimal.signed]
  split
  · rw [abs_neg, Nat.abs_cast]
  · rw [Nat.abs_cast]

theorem Decimal.representable_iff {d : Decimal} {precision scale : Nat}
    (hfraction : d.fraction.length ≤ scale) :
    Representable precision scale d.value ↔ d.scaled scale < 10 ^ precision := by
  have hvalue := Decimal.value_mul hfraction
  constructor
  · rintro ⟨n, hn, hlt⟩
    rw [hvalue, Int.cast_inj] at hn
    rw [← hn, Decimal.abs_signed] at hlt
    exact_mod_cast hlt
  · intro hlt
    refine ⟨_, hvalue, ?_⟩
    rw [Decimal.abs_signed]
    exact_mod_cast hlt

/-! ## Literals -/

section Literals

variable {text : List Char} {d : Decimal} {precision scale : Nat} {v : Int}

/-- How a decimal is read. -/
theorem parseNumber_eq (h : d.Spells text) (hscale : scale ≤ precision) :
    parseNumber text precision scale =
      if d.fraction.length ≤ scale ∧ d.scaled scale < 10 ^ precision then
        some (d.signed (d.scaled scale))
      else none := by
  rw [parseNumber_of_spells h, scaledNumber_eq d hscale]
  by_cases hfraction : d.fraction.length ≤ scale
  · have hlt := Decimal.scaled_lt_iff hfraction hscale
    by_cases hfits : d.scaled scale < 10 ^ precision
    · rw [if_pos ⟨hfraction, hlt.mp hfits⟩, if_pos ⟨hfraction, hfits⟩]
      rfl
    · rw [if_neg fun h => hfits (hlt.mpr h.2), if_neg fun h => hfits h.2]
      rfl
  · rw [if_neg fun h => hfraction h.1, if_neg fun h => hfraction h.1]
    rfl

theorem parseNumber_eq_none_iff (h : d.Spells text) (hscale : scale ≤ precision) :
    parseNumber text precision scale = none ↔
      scale < d.fraction.length ∨ ¬ Representable precision scale d.value := by
  rw [parseNumber_eq h hscale]
  by_cases hfraction : d.fraction.length ≤ scale
  · rw [Decimal.representable_iff hfraction]
    simp [hfraction, not_lt.mpr hfraction]
  · rw [if_neg fun h => hfraction h.1]
    exact iff_of_true rfl (.inl (not_le.mp hfraction))

theorem value_of_parseNumber (hscale : scale ≤ precision)
    (hparse : parseNumber text precision scale = some v) :
    (∃ d : Decimal, d.Spells text) ∧
      (∀ d : Decimal, d.Spells text → d.value * 10 ^ scale = v) ∧ |v| < 10 ^ precision := by
  have hread : ∀ d : Decimal, d.Spells text →
      d.value * 10 ^ scale = v ∧ |v| < 10 ^ precision := by
    intro d hspells
    rw [parseNumber_eq hspells hscale] at hparse
    split at hparse
    · rename_i hfits
      cases hparse
      refine ⟨Decimal.value_mul hfits.1, ?_⟩
      rw [Decimal.abs_signed]
      exact_mod_cast hfits.2
    · cases hparse
  obtain ⟨d, hspells⟩ := spells_of_parseNumber hparse
  exact ⟨⟨d, hspells⟩, fun d hd => (hread d hd).1, (hread d hspells).2⟩

theorem digitCount_le_iff {n : Nat} (hpos : 0 < precision) :
    Value.digitCount n ≤ precision ↔ n < 10 ^ precision :=
  Nat.length_toDigits_le_iff (by decide) hpos

theorem matchesColumn_of_abs_lt {column : Column} (hpos : 0 < precision)
    (h : |v| < 10 ^ precision) (htype : column.type = .number)
    (hprecision : column.precision = precision) :
    (Value.number v).matchesColumn column = true := by
  have hnat : v.natAbs < 10 ^ precision := by
    rw [Int.abs_eq_natAbs] at h
    exact_mod_cast h
  have hdigits := (digitCount_le_iff hpos).mpr hnat
  simp [Value.matchesColumn, Value.type, htype, hprecision, hdigits]

/-- What is printed is read back. -/
theorem parseNumber_formatNumber_self (hpos : 0 < precision) (hscale : scale ≤ precision)
    (h : Value.digitCount v.natAbs ≤ precision) :
    parseNumber (formatNumber v scale) precision scale = some v := by
  have hnat := (digitCount_le_iff hpos).mp h
  have hwhole : v.natAbs / 10 ^ scale < 10 ^ (precision - scale) := by
    rw [Nat.div_lt_iff_lt_mul (Nat.pow_pos (by decide)), ← pow_add, Nat.sub_add_cancel hscale]
    exact hnat
  rw [parseNumber_formatNumber_eq v scale hscale, if_pos ⟨le_rfl, hwhole⟩, Nat.sub_self, pow_zero,
    mul_one]

/-- The loop does not overflow. -/
theorem parseNumberInt64_eq (hprecision : precision ≤ 18) (hscale : scale ≤ precision)
    (text : List Char) :
    parseNumberInt64 text precision scale = some (parseNumber text precision scale) := by
  rw [parseNumberInt64, parseNumber]
  by_cases hne : (if decide (text.head? = some '-') = true then text.tail else text) = []
  · rw [if_pos hne, if_pos hne]
  · rw [if_neg hne, if_neg hne]
    cases hsplit : splitNumber (if decide (text.head? = some '-') = true then text.tail else text)
        false [] [] with
    | none => rfl
    | some parts =>
      simp only [Option.bind_some, Option.bind_eq_bind, scaledNumber_eq_map]
      cases hdigits : literalDigits parts.1 parts.2 precision scale with
      | none => rfl
      | some digits =>
        have hscaled := scaledNumber_eq_map parts.1 parts.2 precision scale
        rw [hdigits, Option.map_some] at hscaled
        obtain ⟨front, hfront, hfraction, hwhole, -⟩ := splitNumber_iff.mp hsplit
        have hbound : Nat.ofDigitChars 10 digits 0 < 10 ^ 18 := by
          have hsmall : (10 : Nat) ^ precision ≤ 10 ^ 18 := Nat.pow_le_pow_right (by decide) hprecision
          have hcheck := scaledNumber_eq ⟨false, parts.1, parts.2, by rw [hwhole]; exact hfront,
            hfraction⟩ hscale
          rw [hscaled] at hcheck
          split at hcheck
          · rename_i hfits
            have hlt := (Decimal.scaled_lt_iff hfits.1 hscale).mpr hfits.2
            rw [Option.some_inj.mp hcheck]
            exact lt_of_lt_of_le hlt hsmall
          · cases hcheck
        have hloop := @foldlM_addDigit digits 0 (by omega)
        have hneg : FitsInt64 (-((Nat.ofDigitChars 10 digits 0 : Nat) : Int)) := by
          rw [FitsInt64]
          omega
        simp only [Nat.cast_zero] at hloop
        simp only [hloop, Option.bind_some, Option.map_some, if_pos hneg]
        split
        · rfl
        · rfl

/-- NUMBER literals are exact at every precision and scale. -/
theorem number_literals_exact (hpos : 1 ≤ precision) (hprecision : precision ≤ 18)
    (hscale : scale ≤ precision) :
    (∀ text, parseNumberInt64 text precision scale = some (parseNumber text precision scale)) ∧
      (∀ text v, parseNumber text precision scale = some v →
        ((∃ d : Decimal, d.Spells text) ∧
          ∀ d : Decimal, d.Spells text → d.value * 10 ^ scale = v) ∧ |v| < 10 ^ precision ∧
        ∀ column : Column, column.type = .number → column.precision = precision →
          (Value.number v).matchesColumn column = true) ∧
      (∀ text (d : Decimal), d.Spells text → (parseNumber text precision scale = none ↔
        scale < d.fraction.length ∨ ¬ Representable precision scale d.value)) ∧
      ∀ v : Int, Value.digitCount v.natAbs ≤ precision →
        parseNumber (formatNumber v scale) precision scale = some v := by
  refine ⟨parseNumberInt64_eq hprecision hscale, fun text v hparse => ?_,
    fun text d h => parseNumber_eq_none_iff h hscale,
    fun v => parseNumber_formatNumber_self hpos hscale⟩
  obtain ⟨hspells, hvalue, hlt⟩ := value_of_parseNumber hscale hparse
  exact ⟨⟨hspells, hvalue⟩, hlt, fun column => matchesColumn_of_abs_lt hpos hlt⟩

/-- A price with a zero in front, and five hundredths below zero. -/
theorem number_literals_prices :
    parseNumberInt64 "-012.5".toList 6 2 = some (some (-1250)) ∧
      parseNumber (formatNumber (-5) 2) 6 2 = some (-5) := by
  obtain ⟨hmachine, -, -, hback⟩ := @number_literals_exact 6 2 (by decide) (by decide) (by decide)
  refine ⟨?_, hback (-5) (by decide)⟩
  rw [hmachine]
  decide

end Literals

end ValueParser

end ScratchDb
