import Mathlib.Data.List.Basic
import Mathlib.Tactic.Ring

/-!
# Little-endian numbers

Fixed-width little-endian encoding of natural numbers as byte lists: the
round trips in both directions and the bounds a binary format needs.
-/

namespace LittleEndian

/-- The `n` low bytes of `v`, least significant byte first. -/
def encode : Nat → Nat → List UInt8
  | 0, _ => []
  | n + 1, v => UInt8.ofNat (v % 256) :: encode n (v / 256)

/-- The number whose little-endian bytes are `bs`. -/
def decode : List UInt8 → Nat
  | [] => 0
  | b :: bs => b.toNat + 256 * decode bs

@[simp] theorem length_encode (n v : Nat) : (encode n v).length = n := by
  induction n generalizing v with
  | zero => rfl
  | succ n ih => simp [encode, ih]

theorem decode_lt (bs : List UInt8) : decode bs < 256 ^ bs.length := by
  induction bs with
  | nil => simp [decode]
  | cons b bs ih =>
      have hb : b.toNat < 256 := b.toNat_lt
      simp only [decode, List.length_cons, Nat.pow_succ]
      omega

/-- Decoding an encoding keeps the low `n` bytes. -/
theorem decode_encode_mod (n v : Nat) : decode (encode n v) = v % 256 ^ n := by
  induction n generalizing v with
  | zero => simp [encode, decode, Nat.mod_one]
  | succ n ih =>
      have hb : (UInt8.ofNat (v % 256)).toNat = v % 256 := by
        simp
      simp only [encode, decode, hb, ih]
      rw [Nat.pow_succ, Nat.mul_comm (256 ^ n) 256, Nat.mod_mul]

/-- A number that fits in `n` bytes is read back unchanged. -/
theorem decode_encode {n v : Nat} (h : v < 256 ^ n) : decode (encode n v) = v := by
  rw [decode_encode_mod, Nat.mod_eq_of_lt h]

/-- The bytes are determined by the number they decode to. -/
theorem encode_decode (bs : List UInt8) : encode bs.length (decode bs) = bs := by
  induction bs with
  | nil => rfl
  | cons b bs ih =>
      have hb : b.toNat < 256 := b.toNat_lt
      have hlow : (b.toNat + 256 * decode bs) % 256 = b.toNat := by omega
      have hhigh : (b.toNat + 256 * decode bs) / 256 = decode bs := by omega
      simp only [List.length_cons, encode, decode, hlow, hhigh, ih, UInt8.ofNat_toNat]

/-- Two byte lists of one length that decode alike are equal. -/
theorem decode_injective {as bs : List UInt8} (hlen : as.length = bs.length)
    (h : decode as = decode bs) : as = bs := by
  rw [← encode_decode as, ← encode_decode bs, hlen, h]

/-- Only the low bytes are written. -/
theorem encode_mod (n v : Nat) : encode n (v % 256 ^ n) = encode n v :=
  decode_injective (by rw [length_encode, length_encode]) (by
    rw [decode_encode_mod, decode_encode_mod, Nat.mod_mod])

end LittleEndian
