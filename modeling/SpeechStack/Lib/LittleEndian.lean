import Mathlib.Tactic

set_option autoImplicit false

/-! # Numbers in bytes

A number in memory or in a file, the least byte first. `encode width n` keeps what fits in `width`
bytes, as a store to an unsigned type of that width does, and `decode` reads it back
(`decode_encode`).
-/

namespace LittleEndian

def encode : Nat → Nat → List UInt8
  | 0, _ => []
  | width + 1, n => UInt8.ofNat n :: encode width (n / 256)

def decode : List UInt8 → Nat
  | [] => 0
  | b :: bs => b.toNat + 256 * decode bs

@[simp] theorem length_encode (width n : Nat) : (encode width n).length = width := by
  induction width generalizing n with
  | zero => rfl
  | succ width ih => simp [encode, ih]

theorem decode_encode (width n : Nat) : decode (encode width n) = n % 256 ^ width := by
  induction width generalizing n with
  | zero => simp [encode, decode, Nat.mod_one]
  | succ width ih =>
      have hpow : 256 ^ (width + 1) = 256 * 256 ^ width := pow_succ' 256 width
      rw [encode, decode, ih, UInt8.toNat_ofNat', hpow, Nat.mod_mul]

theorem decode_encode_of_lt {width n : Nat} (h : n < 256 ^ width) :
    decode (encode width n) = n := by
  rw [decode_encode, Nat.mod_eq_of_lt h]

end LittleEndian
