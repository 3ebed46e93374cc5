import Mathlib.Data.List.Nodup

/-!
# One element before another

`Before a b l` says that `a` stands before `b` in `l`. It is the ordered pair as a sublist, so it is
kept by every list that only loses other elements and by every list that grows at its end
(`Before.filter`, `Before.append`).
-/

set_option autoImplicit false

namespace OpenIdea.Lib

variable {α : Type}

/-- `a` stands before `b`. -/
def Before (a b : α) (l : List α) : Prop := [a, b].Sublist l

namespace Before

variable {a b c : α} {l l' : List α}

theorem left_mem (h : Before a b l) : a ∈ l := h.subset List.mem_cons_self

theorem right_mem (h : Before a b l) : b ∈ l :=
  h.subset (List.mem_cons_of_mem _ List.mem_cons_self)

theorem append (h : Before a b l) (l' : List α) : Before a b (l ++ l') :=
  h.trans (List.sublist_append_left l l')

/-- A new last element stands after all others. -/
theorem concat (h : a ∈ l) : Before a b (l ++ [b]) :=
  (List.singleton_sublist.2 h).append (List.Sublist.refl [b])

theorem filter (h : Before a b l) {p : α → Bool} (ha : p a = true) (hb : p b = true) :
    Before a b (l.filter p) := by
  have hf := List.Sublist.filter p h
  rwa [List.filter_cons_of_pos ha, List.filter_cons_of_pos hb] at hf

/-- The order is kept when the first element goes, unless it is `a`. -/
theorem tail (h : Before a b (c :: l)) (hne : c ≠ a) : Before a b l := by
  cases h with
  | cons _ h => exact h
  | cons_cons _ h => exact absurd rfl hne

/-- In a list without repetitions nothing stands before the first element. -/
theorem not_head (hnodup : (b :: l).Nodup) : ¬ Before a b (b :: l) := by
  intro h
  have hb := (List.nodup_cons.1 hnodup).1
  cases h with
  | cons _ h => exact hb (right_mem h)
  | cons_cons _ h => exact hb (List.singleton_sublist.1 h)

end Before

end OpenIdea.Lib
