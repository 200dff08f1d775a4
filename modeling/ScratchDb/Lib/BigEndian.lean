import Mathlib.Data.List.Basic
import ScratchDb.Lib.LittleEndian

/-!
# Numbers with their highest byte first

The reversed little-endian encoding, and its order: strings of one width
compare byte by byte as the numbers they encode.
-/

namespace BigEndian

open LittleEndian

/-- The `n` low bytes of `v`, most significant byte first. -/
def encode (n v : Nat) : List UInt8 := (LittleEndian.encode n v).reverse

theorem encode_succ (n v : Nat) :
    encode (n + 1) v = encode n (v / 256) ++ [UInt8.ofNat (v % 256)] :=
  List.reverse_cons

@[simp] theorem length_encode (n v : Nat) : (encode n v).length = n := by
  rw [encode, List.length_reverse, LittleEndian.length_encode]

theorem encode_inj {n v w : Nat} (hv : v < 256 ^ n) (hw : w < 256 ^ n) :
    encode n v = encode n w ↔ v = w := by
  constructor
  · intro h
    have hdecode := congrArg decode (List.reverse_injective h)
    rwa [decode_encode hv, decode_encode hw] at hdecode
  · intro h
    rw [h]

/-- Strings of one length are ordered by what stands before the last byte, then by that byte. -/
theorem concat_lt_concat_iff {as bs : List UInt8} (x y : UInt8) (hlen : as.length = bs.length) :
    as ++ [x] < bs ++ [y] ↔ as < bs ∨ as = bs ∧ x < y := by
  induction as generalizing bs with
  | nil =>
      cases bs with
      | nil => simp [List.cons_lt_cons_iff]
      | cons b bs => cases hlen
  | cons a as ih =>
      cases bs with
      | nil => cases hlen
      | cons b bs =>
          rw [List.cons_append, List.cons_append, List.cons_lt_cons_iff, List.cons_lt_cons_iff,
            ih (Nat.succ.inj hlen), List.cons_eq_cons]
          tauto

/-- The encodings of one width are ordered as the numbers. -/
theorem encode_lt_iff {n v w : Nat} (hv : v < 256 ^ n) (hw : w < 256 ^ n) :
    encode n v < encode n w ↔ v < w := by
  induction n generalizing v w with
  | zero =>
      rw [Nat.pow_zero] at hv hw
      simp [Nat.lt_one_iff.mp hv, Nat.lt_one_iff.mp hw]
  | succ n ih =>
      rw [Nat.pow_succ] at hv hw
      have hhighv : v / 256 < 256 ^ n := by omega
      have hhighw : w / 256 < 256 ^ n := by omega
      have hbyte : UInt8.ofNat (v % 256) < UInt8.ofNat (w % 256) ↔ v % 256 < w % 256 := by
        simp [UInt8.lt_iff_toNat_lt]
      rw [encode_succ, encode_succ, concat_lt_concat_iff _ _ (by simp), ih hhighv hhighw,
        encode_inj hhighv hhighw, hbyte]
      omega

end BigEndian
