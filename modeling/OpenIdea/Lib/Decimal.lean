import Mathlib.Data.Nat.Digits.Lemmas

/-!
# Decimal numbers as text

The decimal digits of a number in ASCII, as `printf` writes them, and what a text of digits says. A
number is read back from its text; a signed number may have a minus sign in front
(`parseSigned_signedText`).
-/

set_option autoImplicit false

namespace OpenIdea.Lib.Decimal

/-- The digits `0` to `9`. -/
def IsDigit (b : UInt8) : Prop := 48 ≤ b.toNat ∧ b.toNat ≤ 57

instance (b : UInt8) : Decidable (IsDigit b) := inferInstanceAs (Decidable (_ ∧ _))

/-- A text of at least one digit. -/
def IsNumeral (text : List UInt8) : Prop := text ≠ [] ∧ ∀ b ∈ text, IsDigit b

instance (text : List UInt8) : Decidable (IsNumeral text) := inferInstanceAs (Decidable (_ ∧ _))

/-- The number that a text of digits says. -/
def value (text : List UInt8) : Nat := text.foldl (fun n b => n * 10 + (b.toNat - 48)) 0

/-- The text of a number, with no leading zero. -/
def text (n : Nat) : List UInt8 :=
  if n = 0 then [48] else (Nat.digits 10 n).reverse.map fun d => UInt8.ofNat (48 + d)

/-- The text of a number with a sign. -/
def signedText (n : Int) : List UInt8 := if n < 0 then 45 :: text n.natAbs else text n.natAbs

/-- Reads a text of digits. -/
def parse (text : List UInt8) : Option Nat := if IsNumeral text then some (value text) else none

/-- Reads a text of digits that may have a minus sign in front. -/
def parseSigned : List UInt8 → Option Int
  | 45 :: text => (parse text).map fun n : Nat => -(n : Int)
  | text => (parse text).map fun n : Nat => (n : Int)

theorem toNat_digit {d : Nat} (hd : d < 10) : (UInt8.ofNat (48 + d)).toNat = 48 + d := by
  rw [UInt8.toNat_ofNat']
  omega

theorem isDigit_digit {d : Nat} (hd : d < 10) : IsDigit (UInt8.ofNat (48 + d)) := by
  rw [IsDigit, toNat_digit hd]
  omega

theorem isNumeral_text (n : Nat) : IsNumeral (text n) := by
  rw [text]
  split
  · decide +kernel
  · rename_i hn
    constructor
    · rw [Ne, List.map_eq_nil_iff, List.reverse_eq_nil_iff]
      exact Nat.digits_ne_nil_iff_ne_zero.2 hn
    · intro b hb
      obtain ⟨d, hd, rfl⟩ := List.mem_map.1 hb
      exact isDigit_digit (Nat.digits_lt_base (by decide) (List.mem_reverse.1 hd))

/-- Digits, most significant first, are read back. -/
theorem value_digits {ds : List Nat} (h : ∀ d ∈ ds, d < 10) :
    value (ds.reverse.map fun d => UInt8.ofNat (48 + d)) = Nat.ofDigits 10 ds := by
  induction ds with
  | nil => rfl
  | cons d ds ih =>
    obtain ⟨hd, hds⟩ := List.forall_mem_cons.1 h
    have hlow := toNat_digit hd
    rw [List.reverse_cons, List.map_append, value, List.foldl_append, ← value, ih hds,
      Nat.ofDigits_cons]
    simp only [List.map_cons, List.map_nil, List.foldl_cons, List.foldl_nil, hlow]
    omega

theorem value_text (n : Nat) : value (text n) = n := by
  rw [text]
  split
  · rename_i hn
    rw [hn]
    rfl
  · rw [value_digits fun d hd => Nat.digits_lt_base (by decide) hd, Nat.ofDigits_digits]

/-- **A number is read back from its text.** -/
theorem parse_text (n : Nat) : parse (text n) = some n := by
  rw [parse, if_pos (isNumeral_text n), value_text]

/-- The text of a number does not begin with a minus sign. -/
theorem text_ne_minus (n : Nat) (rest : List UInt8) : text n ≠ 45 :: rest := by
  intro h
  have hdigit := (isNumeral_text n).2 45 (h ▸ List.mem_cons_self)
  exact absurd hdigit (by decide)

theorem parseSigned_text (n : Nat) : parseSigned (text n) = some (n : Int) := by
  rw [parseSigned]
  · rw [parse_text, Option.map_some]
  · intro rest h
    exact text_ne_minus n rest h

/-- **A signed number is read back from its text.** -/
theorem parseSigned_signedText (n : Int) : parseSigned (signedText n) = some n := by
  rw [signedText]
  split
  · rename_i hn
    rw [parseSigned, parse_text, Option.map_some]
    congr 1
    omega
  · rename_i hn
    rw [parseSigned_text]
    congr 1
    omega

/-- The text has no zero in front of another digit. -/
def IsPlain (text : List UInt8) : Prop := text.head? ≠ some 48 ∨ text = [48]

instance (text : List UInt8) : Decidable (IsPlain text) := inferInstanceAs (Decidable (_ ∨ _))

theorem isPlain_text (n : Nat) : IsPlain (text n) := by
  rw [text]
  split
  · exact Or.inr rfl
  · rename_i hn
    left
    have hne : Nat.digits 10 n ≠ [] := Nat.digits_ne_nil_iff_ne_zero.2 hn
    have hlast := Nat.getLast_digit_ne_zero 10 hn
    have hlt := Nat.digits_lt_base (by decide) (List.getLast_mem hne)
    rw [List.head?_map, List.head?_reverse, List.getLast?_eq_some_getLast hne, Option.map_some]
    intro h
    -- the first digit is the last one of `Nat.digits`, which is not zero
    have hbyte := congrArg UInt8.toNat (Option.some.inj h)
    rw [toNat_digit hlt] at hbyte
    exact hlast (Nat.add_left_cancel (hbyte.trans (Nat.add_zero 48).symm))

/-- **A text of digits is the text of its number, unless it has a zero in front.** -/
theorem text_value {ds : List UInt8} (h : IsNumeral ds) (hplain : IsPlain ds) :
    text (value ds) = ds := by
  rcases hplain with hfirst | rfl
  · obtain ⟨hne, hdigit⟩ := h
    -- the digits as numbers, the lowest first
    obtain ⟨l, hl⟩ : ∃ l : List Nat, l = ds.reverse.map fun b => b.toNat - 48 := ⟨_, rfl⟩
    have hlow : ∀ d ∈ l, d < 10 := by
      intro d hd
      rw [hl] at hd
      obtain ⟨b, hb, rfl⟩ := List.mem_map.1 hd
      have hrange := hdigit b (List.mem_reverse.1 hb)
      rw [IsDigit] at hrange
      omega
    have hback : (l.reverse.map fun d => UInt8.ofNat (48 + d)) = ds := by
      rw [hl, ← List.map_reverse, List.reverse_reverse, List.map_map]
      conv_rhs => rw [← List.map_id ds]
      apply List.map_congr_left
      intro b hb
      have hrange := hdigit b hb
      rw [IsDigit] at hrange
      show UInt8.ofNat (48 + (b.toNat - 48)) = b
      rw [Nat.add_sub_cancel' hrange.1, UInt8.ofNat_toNat]
    have hvalue : value ds = Nat.ofDigits 10 l := by
      rw [← hback]
      exact value_digits hlow
    have hlne : l ≠ [] := by
      rw [hl, Ne, List.map_eq_nil_iff, List.reverse_eq_nil_iff]
      exact hne
    have hlast : l.getLast hlne ≠ 0 := by
      intro hzero
      apply hfirst
      rw [← hback, List.head?_map, List.head?_reverse, List.getLast?_eq_some_getLast hlne, hzero]
      rfl
    have hdigits : Nat.digits 10 (value ds) = l := by
      rw [hvalue]
      exact Nat.digits_ofDigits 10 (by decide) l hlow fun _ => hlast
    have hpos : value ds ≠ 0 := by
      rw [← Nat.digits_ne_nil_iff_ne_zero, hdigits]
      exact hlne
    rw [text, if_neg hpos, hdigits, hback]
  · rfl

/-- A number is written without a carriage return or a line feed. -/
theorem signedText_line (n : Int) : ∀ b ∈ signedText n, b ≠ 13 ∧ b ≠ 10 := by
  have hdigits : ∀ b ∈ text n.natAbs, b ≠ 13 ∧ b ≠ 10 := by
    intro b hb
    obtain ⟨hlow, -⟩ := (isNumeral_text _).2 b hb
    constructor
    · rintro rfl
      exact absurd hlow (by decide)
    · rintro rfl
      exact absurd hlow (by decide)
  intro b hb
  rw [signedText] at hb
  split at hb
  · rcases List.mem_cons.1 hb with rfl | hb
    · decide
    · exact hdigits b hb
  · exact hdigits b hb

end OpenIdea.Lib.Decimal
