import Mathlib.Data.List.Nodup

/-!
# Lists whose elements have distinct keys

A list used as a small table: each key occurs at most once, so that the first match of a search is
the only one (`find?_eq`).
-/

set_option autoImplicit false

namespace OpenIdea.Lib.Keyed

variable {α κ : Type} {key : α → κ} {l : List α}

variable {p : α → Bool} {x : α}

/-- Erasing the first match erases the match. -/
theorem mem_eraseP {k : κ} (h : (l.map key).Nodup) (hp : ∀ x, p x = true → key x = k) :
    x ∈ l.eraseP p ↔ x ∈ l ∧ p x = false := by
  induction l with
  | nil => simp
  | cons a l ih =>
    rw [List.map_cons, List.nodup_cons] at h
    by_cases ha : p a = true
    · rw [List.eraseP_cons_of_pos ha, List.mem_cons]
      constructor
      · intro hx
        -- a second match would have the same key
        refine ⟨.inr hx, ?_⟩
        by_contra hpx
        rw [Bool.not_eq_false] at hpx
        exact h.1 (List.mem_map.2 ⟨x, hx, (hp x hpx).trans (hp a ha).symm⟩)
      · rintro ⟨rfl | hx, hpx⟩
        · rw [ha] at hpx
          cases hpx
        · exact hx
    · rw [Bool.not_eq_true] at ha
      rw [List.eraseP_cons_of_neg (by simp [ha]), List.mem_cons, ih h.2, List.mem_cons]
      constructor
      · rintro (rfl | ⟨hx, hpx⟩)
        · exact ⟨.inl rfl, ha⟩
        · exact ⟨.inr hx, hpx⟩
      · rintro ⟨rfl | hx, hpx⟩
        · exact .inl rfl
        · exact .inr ⟨hx, hpx⟩

/-- Where only one element can match, erasing the first match leaves what does not match. -/
theorem eraseP_eq_filter {k : κ} (h : (l.map key).Nodup) (hp : ∀ x, p x = true → key x = k) :
    l.eraseP p = l.filter fun x => !p x := by
  induction l with
  | nil => rfl
  | cons a l ih =>
    rw [List.map_cons, List.nodup_cons] at h
    by_cases ha : p a = true
    · rw [List.eraseP_cons_of_pos ha, List.filter_cons_of_neg (by simp [ha]),
        List.filter_eq_self.2]
      intro x hx
      by_contra hpx
      have hpx' : p x = true := by simpa using hpx
      exact h.1 (List.mem_map.2 ⟨x, hx, (hp x hpx').trans (hp a ha).symm⟩)
    · rw [Bool.not_eq_true] at ha
      rw [List.eraseP_cons_of_neg (by simp [ha]), List.filter_cons_of_pos (by simp [ha]), ih h.2]

theorem nodup_eraseP (h : (l.map key).Nodup) : ((l.eraseP p).map key).Nodup :=
  h.sublist (List.eraseP_sublist.map key)

/-- One more element under a new key. -/
theorem nodup_concat (h : (l.map key).Nodup) (hx : ∀ y ∈ l, key y ≠ key x) :
    ((l ++ [x]).map key).Nodup := by
  rw [List.map_append, List.nodup_append]
  refine ⟨h, List.nodup_singleton _, ?_⟩
  intro a ha c hc hac
  obtain ⟨y, hy, rfl⟩ := List.mem_map.1 ha
  exact hx y hy (hac.trans (List.mem_singleton.1 hc))

theorem eq_of_key {y : α} (h : (l.map key).Nodup) (hx : x ∈ l) (hy : y ∈ l) (hk : key x = key y) :
    x = y :=
  List.inj_on_of_nodup_map h hx hy hk

/-- The search finds the element of a key. -/
theorem find?_eq {k : κ} (h : (l.map key).Nodup) (hp : ∀ x, p x = true ↔ key x = k) (hx : x ∈ l)
    (hk : key x = k) : l.find? p = some x := by
  cases hf : l.find? p with
  | none => exact absurd ((hp x).2 hk) (List.find?_eq_none.1 hf x hx)
  | some y =>
    have hy := List.mem_of_find?_eq_some hf
    have hky := (hp y).1 (List.find?_some hf)
    rw [eq_of_key h hx hy (hk.trans hky.symm)]

end OpenIdea.Lib.Keyed
