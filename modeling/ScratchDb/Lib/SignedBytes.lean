import ScratchDb.Lib.LittleEndian

/-!
# Signed numbers as bytes

Two's complement in a fixed number of little-endian bytes.
-/

namespace LittleEndian

/-- The `n` bytes of `v` in two's complement. -/
def encodeInt (n : Nat) (v : Int) : List UInt8 := encode n (v % (256 ^ n : Nat)).toNat

def decodeInt (bs : List UInt8) : Int :=
  if 2 * decode bs < 256 ^ bs.length then decode bs else decode bs - (256 ^ bs.length : Nat)

@[simp] theorem length_encodeInt (n : Nat) (v : Int) : (encodeInt n v).length = n :=
  length_encode n _

/-- A number that fits in `n` bytes with its sign is read back unchanged. -/
theorem decodeInt_encodeInt {n : Nat} {v : Int} (hlow : -(256 ^ n : Nat) ≤ 2 * v)
    (hhigh : 2 * v < (256 ^ n : Nat)) : decodeInt (encodeInt n v) = v := by
  have hpos : 0 < 256 ^ n := Nat.pow_pos (by decide)
  have hmod : decode (encodeInt n v) = (v % (256 ^ n : Nat)).toNat :=
    decode_encode (by omega)
  rw [decodeInt, length_encodeInt, hmod]
  generalize 256 ^ n = m at *
  rcases lt_or_ge v 0 with hneg | hnonneg
  · have hv : v % (m : Int) = v + m := by
      rw [← Int.add_emod_right, Int.emod_eq_of_lt (by omega) (by omega)]
    rw [hv]
    split <;> omega
  · rw [Int.emod_eq_of_lt hnonneg (by omega)]
    split <;> omega

theorem decodeInt_bounds (bs : List UInt8) :
    -(256 ^ bs.length : Nat) ≤ 2 * decodeInt bs ∧ 2 * decodeInt bs < (256 ^ bs.length : Nat) := by
  have hlt := decode_lt bs
  rw [decodeInt]
  generalize 256 ^ bs.length = m at *
  split <;> omega

/-- The bytes are determined by the signed number they decode to. -/
theorem encodeInt_decodeInt (bs : List UInt8) : encodeInt bs.length (decodeInt bs) = bs := by
  have hlt := decode_lt bs
  have hmod : (decodeInt bs % (256 ^ bs.length : Nat)).toNat = decode bs := by
    rw [decodeInt]
    generalize 256 ^ bs.length = m at *
    split
    · rw [Int.emod_eq_of_lt (by omega) (by omega), Int.toNat_natCast]
    · rw [Int.sub_emod_right, Int.emod_eq_of_lt (by omega) (by omega), Int.toNat_natCast]
  rw [encodeInt, hmod, encode_decode]

end LittleEndian
