import Mathlib.Data.List.Nodup

/-!
# Records in a family, and the lists they are in

A system keeps its records in a family, one step changes one of them, and a field the step leaves
alone is as before in all. Some records stand in the lists of their owners, in one list at most:
`Filed` says that the record's own entry and the lists agree, and goes on holding while elements are
pushed and popped (`Filed.push`, `Filed.pop`).
-/

set_option autoImplicit false

namespace OpenIdea.Lib.Places

variable {ι κ β γ : Type}

section Family

variable [DecidableEq ι] {a : ι → β} {i : ι} {x : β}

/-- What holds of the new record and of all the others holds of every record. -/
theorem all_update {P : ι → β → Prop} (hself : P i x) (hother : ∀ j, j ≠ i → P j (a j)) (j : ι) :
    P j (Function.update a i x j) :=
  (Function.forall_update_iff a P).2 ⟨hself, hother⟩ j

/-- A field that the changed record keeps is as before in every record. -/
theorem update_field (F : β → γ) (hx : F x = F (a i)) (j : ι) :
    F (Function.update a i x j) = F (a j) := by
  apply all_update (P := fun j y => F y = F (a j))
  · exact hx
  · intro _ _
    rfl

end Family

/-- An element is in one list at most, the one its place names. -/
structure Filed (list : κ → List ι) (place : ι → Option κ) : Prop where
  mem : ∀ k i, i ∈ list k ↔ place i = some k
  nodup : ∀ k, (list k).Nodup

namespace Filed

variable {list list' : κ → List ι} {place place' : ι → Option κ} {k : κ} {i : ι}

theorem congr (h : Filed list place) (hlist : ∀ m, list' m = list m)
    (hplace : ∀ j, place' j = place j) : Filed list' place' where
  mem := by
    intro m j
    rw [hlist, hplace]
    exact h.mem m j
  nodup := by
    intro m
    rw [hlist]
    exact h.nodup m

theorem not_mem (h : Filed list place) (hi : place i = none) (m : κ) : i ∉ list m := by
  intro hm
  have hp := (h.mem m i).1 hm
  rw [hi] at hp
  cases hp

/-- An element without a place gets one in front of a list. -/
theorem push (h : Filed list place) (hi : place i = none) (hk : list' k = i :: list k)
    (hlist : ∀ m, m ≠ k → list' m = list m) (hplace : place' i = some k)
    (hplaces : ∀ j, j ≠ i → place' j = place j) : Filed list' place' where
  mem := by
    intro m j
    by_cases hj : j = i
    · subst hj
      rw [hplace, Option.some.injEq]
      by_cases hm : m = k
      · subst hm
        rw [hk]
        exact iff_of_true List.mem_cons_self rfl
      · rw [hlist m hm]
        exact iff_of_false (h.not_mem hi m) fun he => hm he.symm
    · rw [hplaces j hj, ← h.mem]
      by_cases hm : m = k
      · subst hm
        rw [hk, List.mem_cons, or_iff_right hj]
      · rw [hlist m hm]
  nodup := by
    intro m
    by_cases hm : m = k
    · subst hm
      rw [hk]
      exact List.nodup_cons.2 ⟨h.not_mem hi m, h.nodup m⟩
    · rw [hlist m hm]
      exact h.nodup m

/-- The element in front of a list loses its place. -/
theorem pop (h : Filed list place) (hk : list k = i :: list' k)
    (hlist : ∀ m, m ≠ k → list' m = list m) (hplace : place' i = none)
    (hplaces : ∀ j, j ≠ i → place' j = place j) : Filed list' place' where
  mem := by
    have hnodup := h.nodup k
    rw [hk, List.nodup_cons] at hnodup
    have hi := (h.mem k i).1 (by rw [hk]; exact List.mem_cons_self)
    intro m j
    by_cases hj : j = i
    · subst hj
      rw [hplace]
      refine iff_of_false ?_ nofun
      by_cases hm : m = k
      · subst hm
        exact hnodup.1
      · rw [hlist m hm, h.mem, hi]
        exact fun he => hm (Option.some.inj he).symm
    · rw [hplaces j hj, ← h.mem]
      by_cases hm : m = k
      · subst hm
        rw [hk, List.mem_cons, or_iff_right hj]
      · rw [hlist m hm]
  nodup := by
    intro m
    by_cases hm : m = k
    · subst hm
      have hnodup := h.nodup m
      rw [hk] at hnodup
      exact hnodup.of_cons
    · rw [hlist m hm]
      exact h.nodup m

end Filed

end OpenIdea.Lib.Places
