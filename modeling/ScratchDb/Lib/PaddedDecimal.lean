import Mathlib.Tactic.Ring
import ScratchDb.Lib.DelimitedText

/-!
# Decimal numbers of a fixed width

A number with zeros in front of it, as `std::setw` and `std::setfill('0')`
print it.
-/

namespace PaddedDecimal

open DelimitedText

def padded (width n : Nat) : List Char := (Nat.toDigits 10 n).leftpad width '0'

theorem padded_eq (width n : Nat) :
    padded width n =
      List.replicate (width - (Nat.toDigits 10 n).length) '0' ++ Nat.toDigits 10 n := rfl

theorem length_toDigits_le {width n : Nat} (hpos : 0 < width) (h : n < 10 ^ width) :
    (Nat.toDigits 10 n).length ≤ width :=
  (Nat.length_toDigits_le_iff (by decide) hpos).mpr h

theorem length_padded {width n : Nat} (hpos : 0 < width) (h : n < 10 ^ width) :
    (padded width n).length = width := by
  have hlength := length_toDigits_le hpos h
  rw [padded_eq, List.length_append, List.length_replicate]
  omega

/-- Zeros fill up the width, and a longer number is not cut. -/
theorem lt_length_padded {width n : Nat} (hpos : 0 < width) (h : 10 ^ width ≤ n) :
    width < (padded width n).length := by
  have hlength : ¬ (Nat.toDigits 10 n).length ≤ width := by
    rw [Nat.length_toDigits_le_iff (by decide) hpos]
    omega
  rw [padded_eq, List.length_append]
  omega

theorem isDigit_of_mem_padded {width n : Nat} {c : Char} (h : c ∈ padded width n) :
    c.isDigit = true := by
  rw [padded_eq] at h
  rcases List.mem_append.mp h with hzero | hdigit
  · rw [List.eq_of_mem_replicate hzero]
    decide
  · exact isDigit_of_mem_toDigits hdigit

/-- The zeros in front do not count. -/
theorem ofDigitChars_padded (width n : Nat) : Nat.ofDigitChars 10 (padded width n) 0 = n := by
  rw [padded_eq, Nat.ofDigitChars_append, Nat.ofDigitChars_replicate_zero, Nat.mul_zero,
    Nat.ofDigitChars_ten_toDigits]

/-! ## Order -/

/-- Lists are ordered by their fronts of one length, then by what follows. -/
theorem append_lt_append_iff {α : Type} [LT α] {as bs : List α} (xs ys : List α)
    (hlen : as.length = bs.length) : as ++ xs < bs ++ ys ↔ as < bs ∨ as = bs ∧ xs < ys := by
  induction as generalizing bs with
  | nil =>
    cases bs with
    | nil => simp
    | cons b bs => cases hlen
  | cons a as ih =>
    cases bs with
    | nil => cases hlen
    | cons b bs =>
      rw [List.cons_append, List.cons_append, List.cons_lt_cons_iff, List.cons_lt_cons_iff,
        ih (Nat.succ.inj hlen), List.cons_eq_cons]
      tauto

def digitOf (c : Char) : Nat := c.toNat - '0'.toNat

theorem digitOf_spec {c : Char} (h : c.isDigit = true) :
    digitOf c < 10 ∧ c.toNat = 48 + digitOf c := by
  have hrange := Char.isDigit_iff_toNat.mp h
  have hends : '0'.toNat = 48 ∧ '9'.toNat = 57 := by decide
  rw [digitOf]
  omega

theorem lt_iff_digitOf_lt {c d : Char} (hc : c.isDigit = true) (hd : d.isDigit = true) :
    c < d ↔ digitOf c < digitOf d := by
  have hvalue : c < d ↔ c.toNat < d.toNat := Iff.rfl
  obtain ⟨-, hc⟩ := digitOf_spec hc
  obtain ⟨-, hd⟩ := digitOf_spec hd
  rw [hvalue]
  omega

theorem eq_iff_digitOf_eq {c d : Char} (hc : c.isDigit = true) (hd : d.isDigit = true) :
    c = d ↔ digitOf c = digitOf d := by
  obtain ⟨-, hc⟩ := digitOf_spec hc
  obtain ⟨-, hd⟩ := digitOf_spec hd
  rw [← Char.toNat_inj]
  omega

theorem ofDigitChars_cons_eq (c : Char) (cs : List Char) :
    Nat.ofDigitChars 10 (c :: cs) 0 = 10 ^ cs.length * digitOf c + Nat.ofDigitChars 10 cs 0 := by
  rw [Nat.ofDigitChars_cons, Nat.ofDigitChars_eq_ofDigitChars_zero, Nat.mul_zero, Nat.zero_add]
  rfl

theorem ofDigitChars_lt {cs : List Char} (h : ∀ c ∈ cs, c.isDigit = true) :
    Nat.ofDigitChars 10 cs 0 < 10 ^ cs.length := by
  induction cs with
  | nil => decide
  | cons c cs ih =>
    have hrest := ih fun d hd => h d (List.mem_cons_of_mem _ hd)
    have hdigit := (digitOf_spec (h c List.mem_cons_self)).1
    have hfirst : 10 ^ cs.length * digitOf c ≤ 10 ^ cs.length * 9 :=
      Nat.mul_le_mul_left _ (by omega)
    rw [ofDigitChars_cons_eq, List.length_cons, pow_succ]
    omega

/-- A digit in front weighs more than all that follow. -/
theorem lead_lt_iff {p a b r s : Nat} (hr : r < p) (hs : s < p) :
    p * a + r < p * b + s ↔ a < b ∨ a = b ∧ r < s := by
  rcases Nat.lt_trichotomy a b with hab | rfl | hab
  · have hstep : p * a + p ≤ p * b := by
      rw [← Nat.mul_succ]
      exact Nat.mul_le_mul_left _ hab
    exact iff_of_true (by omega) (.inl hab)
  · omega
  · have hstep : p * b + p ≤ p * a := by
      rw [← Nat.mul_succ]
      exact Nat.mul_le_mul_left _ hab
    exact iff_of_false (by omega) (by omega)

theorem lead_eq_iff {p a b r s : Nat} (hr : r < p) (hs : s < p) :
    p * a + r = p * b + s ↔ a = b ∧ r = s := by
  have hlt := @lead_lt_iff p a b r s hr hs
  have hgt := @lead_lt_iff p b a s r hs hr
  omega

/-- Texts of as many digits are ordered as their numbers. -/
theorem digits_lt_iff {cs ds : List Char} (hc : ∀ c ∈ cs, c.isDigit = true)
    (hd : ∀ d ∈ ds, d.isDigit = true) (hlen : cs.length = ds.length) :
    (cs < ds ↔ Nat.ofDigitChars 10 cs 0 < Nat.ofDigitChars 10 ds 0) ∧
      (cs = ds ↔ Nat.ofDigitChars 10 cs 0 = Nat.ofDigitChars 10 ds 0) := by
  induction cs generalizing ds with
  | nil =>
    cases ds with
    | nil => simp
    | cons d ds => cases hlen
  | cons c cs ih =>
    cases ds with
    | nil => cases hlen
    | cons d ds =>
      have hlength : cs.length = ds.length := Nat.succ.inj hlen
      have hcs : ∀ c ∈ cs, c.isDigit = true := fun c hmem => hc c (List.mem_cons_of_mem _ hmem)
      have hds : ∀ d ∈ ds, d.isDigit = true := fun d hmem => hd d (List.mem_cons_of_mem _ hmem)
      obtain ⟨hlt, heq⟩ := ih hcs hds hlength
      have hc := hc c List.mem_cons_self
      have hd := hd d List.mem_cons_self
      have hboundD := ofDigitChars_lt hds
      rw [← hlength] at hboundD
      rw [List.cons_lt_cons_iff, List.cons_eq_cons, ofDigitChars_cons_eq, ofDigitChars_cons_eq,
        ← hlength, lead_lt_iff (ofDigitChars_lt hcs) hboundD,
        lead_eq_iff (ofDigitChars_lt hcs) hboundD, lt_iff_digitOf_lt hc hd,
        eq_iff_digitOf_eq hc hd, hlt, heq]
      exact ⟨Iff.rfl, Iff.rfl⟩

theorem padded_lt_iff {width n m : Nat} (hpos : 0 < width) (hn : n < 10 ^ width)
    (hm : m < 10 ^ width) : padded width n < padded width m ↔ n < m := by
  have hlt := (@digits_lt_iff (padded width n) (padded width m) (fun c => isDigit_of_mem_padded)
    (fun d => isDigit_of_mem_padded) (by rw [length_padded hpos hn, length_padded hpos hm])).1
  rwa [ofDigitChars_padded, ofDigitChars_padded] at hlt

theorem padded_inj {width n m : Nat} : padded width n = padded width m ↔ n = m := by
  constructor
  · intro h
    rw [← ofDigitChars_padded width n, h, ofDigitChars_padded]
  · intro h
    rw [h]

/-- Digits are the padded text of their number. -/
theorem padded_ofDigitChars {cs : List Char} (h : ∀ c ∈ cs, c.isDigit = true) (hne : cs ≠ []) :
    padded cs.length (Nat.ofDigitChars 10 cs 0) = cs := by
  have hpos : 0 < cs.length := List.length_pos_of_ne_nil hne
  refine (digits_lt_iff (fun c => isDigit_of_mem_padded) h
    (length_padded hpos (ofDigitChars_lt h))).2.mpr ?_
  exact ofDigitChars_padded _ _

end PaddedDecimal
