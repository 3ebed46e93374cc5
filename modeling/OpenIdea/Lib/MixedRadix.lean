import Mathlib.Tactic

/-!
# Mixed-radix place values

A counter with radices `r 0, r 1, …` and digits `d 0, d 1, …`. `placeValue r i` is the weight of
digit `i`, the product of the radices below it, and `lowValue r d i` is the number written by the
digits below `i`. A number written with proper digits stays below the next place value
(`lowValue_lt_placeValue`).
-/

set_option autoImplicit false

namespace OpenIdea.Lib.MixedRadix

/-- Weight of digit `i`. -/
def placeValue (r : Nat → Nat) (i : Nat) : Nat := ∏ j ∈ Finset.range i, r j

/-- The number written by the digits below position `i`. -/
def lowValue (r d : Nat → Nat) (i : Nat) : Nat := ∑ j ∈ Finset.range i, d j * placeValue r j

@[simp] theorem placeValue_zero (r : Nat → Nat) : placeValue r 0 = 1 := by
  simp [placeValue]

theorem placeValue_succ (r : Nat → Nat) (i : Nat) :
    placeValue r (i + 1) = placeValue r i * r i := by
  simp [placeValue, Finset.prod_range_succ]

@[simp] theorem lowValue_zero (r d : Nat → Nat) : lowValue r d 0 = 0 := by
  simp [lowValue]

theorem lowValue_succ (r d : Nat → Nat) (i : Nat) :
    lowValue r d (i + 1) = lowValue r d i + d i * placeValue r i := by
  simp [lowValue, Finset.sum_range_succ]

theorem placeValue_pos {r : Nat → Nat} (hr : ∀ j, 0 < r j) (i : Nat) : 0 < placeValue r i :=
  Finset.prod_pos fun j _ => hr j

/-- Digits that agree below `i` write the same low value. -/
theorem lowValue_congr {r d d' : Nat → Nat} {i : Nat} (h : ∀ j < i, d j = d' j) :
    lowValue r d i = lowValue r d' i :=
  Finset.sum_congr rfl fun j hj => by rw [h j (Finset.mem_range.1 hj)]

/-- Proper digits below position `i` write a number below the place value of `i`. -/
theorem lowValue_lt_placeValue {r d : Nat → Nat} {i : Nat} (hd : ∀ j < i, d j < r j) :
    lowValue r d i < placeValue r i := by
  induction i with
  | zero => simp
  | succ i ih =>
    have hlow : lowValue r d i < placeValue r i := ih fun j hj => hd j (by omega)
    have hdig : d i + 1 ≤ r i := hd i (by omega)
    rw [lowValue_succ, placeValue_succ]
    calc lowValue r d i + d i * placeValue r i
        < placeValue r i + d i * placeValue r i := by omega
      _ = placeValue r i * (d i + 1) := by ring
      _ ≤ placeValue r i * r i := Nat.mul_le_mul_left _ hdig

end OpenIdea.Lib.MixedRadix
