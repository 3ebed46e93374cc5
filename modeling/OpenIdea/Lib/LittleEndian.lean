import Mathlib.Tactic.Ring

/-!
# Little-endian numbers

Fixed-width unsigned numbers as byte strings, least significant byte first, with both round trips
(`decode_encode`, `encode_decode`).
-/

set_option autoImplicit false

namespace OpenIdea.Lib.LittleEndian

/-- The number a byte string writes. -/
def decode : List UInt8 → Nat
  | [] => 0
  | b :: bs => b.toNat + 256 * decode bs

/-- The `w` bytes of a number, taken modulo `256 ^ w`. -/
def encode : Nat → Nat → List UInt8
  | 0, _ => []
  | w + 1, n => UInt8.ofNat n :: encode w (n / 256)

@[simp] theorem encode_length (w n : Nat) : (encode w n).length = w := by
  induction w generalizing n with
  | zero => rfl
  | succ w ih => simp [encode, ih]

theorem decode_lt (bs : List UInt8) : decode bs < 256 ^ bs.length := by
  induction bs with
  | nil => simp [decode]
  | cons b bs ih =>
    have hb : b.toNat < 256 := b.toNat_lt
    simp only [decode, List.length_cons, pow_succ]
    omega

theorem decode_encode {w n : Nat} (h : n < 256 ^ w) : decode (encode w n) = n := by
  induction w generalizing n with
  | zero =>
    simp only [pow_zero] at h
    simp only [encode, decode]
    omega
  | succ w ih =>
    rw [pow_succ] at h
    simp only [encode, decode, ih (show n / 256 < 256 ^ w by omega), UInt8.toNat_ofNat']
    omega

theorem encode_decode (bs : List UInt8) : encode bs.length (decode bs) = bs := by
  induction bs with
  | nil => rfl
  | cons b bs ih =>
    have hb : b.toNat < 256 := b.toNat_lt
    have hdiv : (b.toNat + 256 * decode bs) / 256 = decode bs := by omega
    have hhead : UInt8.ofNat (b.toNat + 256 * decode bs) = b := by
      apply UInt8.toNat_inj.1
      rw [UInt8.toNat_ofNat']
      omega
    simp only [List.length_cons, encode, decode, hdiv, ih, hhead]

end OpenIdea.Lib.LittleEndian
