import Mathlib.Order.Lattice
import OpenIdea.Lib.Tally

/-!
# Ordered maps as association lists

An ordered map is the list of its entries in iteration order. The operations keep the keys
strictly increasing (`Sorted`); `find` after `put` and `erase` behaves as for any finite map.
-/

set_option autoImplicit false

namespace OpenIdea.Lib.OrdMap

variable {K V : Type} [LinearOrder K]

/-- The entry under `k`. -/
def find : List (K × V) → K → Option V
  | [], _ => none
  | (k', v) :: m, k => if k' = k then some v else find m k

/-- Insert `v` under `k` in key order, replacing the entry if there is one. -/
def put : List (K × V) → K → V → List (K × V)
  | [], k, v => [(k, v)]
  | (k', v') :: m, k, v =>
      if k < k' then (k, v) :: (k', v') :: m
      else if k' < k then (k', v') :: put m k v
      else (k, v) :: m

/-- Erase the entry under `k`. -/
def erase : List (K × V) → K → List (K × V)
  | [], _ => []
  | (k', v) :: m, k => if k' = k then m else (k', v) :: erase m k

/-- The keys are strictly increasing. -/
def Sorted (m : List (K × V)) : Prop := m.Pairwise fun a b => a.1 < b.1

@[simp] theorem find_nil (k : K) : find ([] : List (K × V)) k = none := rfl

variable {k : K} {m pre : List (K × V)} {v : V} {e : K × V}

theorem find_eq_none_of_lt (h : ∀ e ∈ m, k < e.1) : find m k = none := by
  induction m with
  | nil => rfl
  | cons e m ih =>
    have he := h e List.mem_cons_self
    rw [find, if_neg (ne_of_gt he)]
    exact ih fun e' he' => h e' (List.mem_cons_of_mem _ he')

theorem mem_of_find (h : find m k = some v) : (k, v) ∈ m := by
  induction m with
  | nil => cases h
  | cons e m ih =>
    rw [find] at h
    split at h
    · rename_i hk
      obtain rfl := Option.some.inj h
      rw [← hk]
      exact List.mem_cons_self
    · exact List.mem_cons_of_mem _ (ih h)

theorem find_of_mem (hm : Sorted m) (h : (k, v) ∈ m) : find m k = some v := by
  induction m with
  | nil => cases h
  | cons e m ih =>
    obtain ⟨hlt, hm⟩ := List.pairwise_cons.1 hm
    rcases List.mem_cons.1 h with rfl | h
    · rw [find, if_pos rfl]
    · rw [find, if_neg (ne_of_lt (hlt _ h))]
      exact ih hm h

theorem find_put (m : List (K × V)) (k k' : K) (v : V) :
    find (put m k v) k' = if k' = k then some v else find m k' := by
  induction m with
  | nil =>
    by_cases hk : k' = k
    · simp [put, find, hk]
    · simp [put, find, hk, Ne.symm hk]
  | cons e m ih =>
    obtain ⟨j, u⟩ := e
    rw [put]
    split
    · simp only [find]
      by_cases hk : k' = k
      · rw [if_pos hk.symm, if_pos hk]
      · rw [if_neg (Ne.symm hk), if_neg hk]
    · split
      · rename_i _ hlt
        simp only [find, ih]
        by_cases hk : k' = k
        · rw [if_neg (by rw [hk]; exact ne_of_lt hlt), if_pos hk, if_pos hk]
        · rw [if_neg hk, if_neg hk]
      · rename_i h₁ h₂
        have hj : j = k := le_antisymm (not_lt.1 h₁) (not_lt.1 h₂)
        subst hj
        simp only [find]
        by_cases hk : k' = j
        · rw [if_pos hk.symm, if_pos hk]
        · rw [if_neg (Ne.symm hk), if_neg hk, if_neg (Ne.symm hk)]

theorem mem_put (h : e ∈ put m k v) : e = (k, v) ∨ e ∈ m := by
  induction m with
  | nil => exact Or.inl (List.mem_singleton.1 h)
  | cons e' m ih =>
    rw [put] at h
    split at h
    · exact List.mem_cons.1 h
    · split at h
      · rcases List.mem_cons.1 h with rfl | h
        · exact Or.inr List.mem_cons_self
        · exact (ih h).imp_right (List.mem_cons_of_mem _)
      · exact (List.mem_cons.1 h).imp_right (List.mem_cons_of_mem _)

theorem Sorted.put (hm : Sorted m) (k : K) (v : V) : Sorted (put m k v) := by
  induction m with
  | nil => exact List.pairwise_singleton _ _
  | cons e m ih =>
    obtain ⟨hlt, hm'⟩ := List.pairwise_cons.1 hm
    rw [OrdMap.put]
    split
    · rename_i hk
      refine List.pairwise_cons.2 ⟨fun e' he' => ?_, hm⟩
      rcases List.mem_cons.1 he' with rfl | he'
      · exact hk
      · exact hk.trans (hlt e' he')
    · split
      · rename_i hk
        refine List.pairwise_cons.2 ⟨fun e' he' => ?_, ih hm'⟩
        rcases mem_put he' with rfl | he'
        · exact hk
        · exact hlt e' he'
      · rename_i h₁ h₂
        have hj : e.1 = k := le_antisymm (not_lt.1 h₁) (not_lt.1 h₂)
        exact List.pairwise_cons.2 ⟨fun e' he' => hj ▸ hlt e' he', hm'⟩

theorem find_erase (hm : Sorted m) (k k' : K) :
    find (erase m k) k' = if k' = k then none else find m k' := by
  induction m with
  | nil => simp [erase]
  | cons e m ih =>
    obtain ⟨hlt, hm'⟩ := List.pairwise_cons.1 hm
    rw [erase]
    split
    · rename_i hk
      subst hk
      by_cases hk' : k' = e.1
      · subst hk'
        rw [if_pos rfl, find_eq_none_of_lt hlt]
      · rw [if_neg hk', find, if_neg (Ne.symm hk')]
    · rename_i hk
      simp only [find, ih hm']
      by_cases hk' : k' = k
      · subst hk'
        rw [if_neg hk, if_pos rfl, if_pos rfl]
      · rw [if_neg hk', if_neg hk']

theorem mem_of_mem_erase (h : e ∈ erase m k) : e ∈ m := by
  induction m with
  | nil => exact h
  | cons e' m ih =>
    rw [erase] at h
    split at h
    · exact List.mem_cons_of_mem _ h
    · exact (List.mem_cons.1 h).elim (fun h => h ▸ List.mem_cons_self)
        fun h => List.mem_cons_of_mem _ (ih h)

theorem Sorted.erase (hm : Sorted m) (k : K) : Sorted (erase m k) := by
  induction m with
  | nil => exact hm
  | cons e m ih =>
    obtain ⟨hlt, hm'⟩ := List.pairwise_cons.1 hm
    rw [OrdMap.erase]
    split
    · exact hm'
    · exact List.pairwise_cons.2 ⟨fun e' he' => hlt e' (mem_of_mem_erase he'), ih hm'⟩

/-! ## The number of entries -/

/-- Replacing an entry keeps the number of entries. -/
theorem length_put_of_find (hm : Sorted m) {v' : V} (h : find m k = some v') (v : V) :
    (put m k v).length = m.length := by
  induction m with
  | nil => cases h
  | cons e m ih =>
    obtain ⟨hlt, hm'⟩ := List.pairwise_cons.1 hm
    rw [find] at h
    by_cases hk : e.1 = k
    · rw [put, if_neg (by rw [hk]; exact lt_irrefl k), if_neg (by rw [hk]; exact lt_irrefl k)]
      rfl
    · rw [if_neg hk] at h
      have hlt' : e.1 < k := hlt _ (mem_of_find h)
      rw [put, if_neg (not_lt.2 hlt'.le), if_pos hlt', List.length_cons, List.length_cons, ih hm' h]

theorem length_put_le (m : List (K × V)) (k : K) (v : V) : (put m k v).length ≤ m.length + 1 := by
  induction m with
  | nil => exact Nat.le_refl _
  | cons e m ih =>
    rw [put]
    split
    · exact Nat.le_refl _
    · split
      · exact Nat.succ_le_succ ih
      · exact Nat.le_succ _

theorem length_erase_le (m : List (K × V)) (k : K) : (erase m k).length ≤ m.length := by
  induction m with
  | nil => exact Nat.le_refl _
  | cons e m ih =>
    rw [erase]
    split
    · exact Nat.le_succ _
    · exact Nat.succ_le_succ ih

/-! ## Entries in the middle of a map -/

variable {post : List (K × V)}

theorem Sorted.ne_of_mem_sides (h : Sorted (pre ++ e :: post)) :
    ∀ e' ∈ pre ++ post, e'.1 ≠ e.1 := by
  obtain ⟨-, hpost, hcross⟩ := List.pairwise_append.1 h
  intro e' he'
  rcases List.mem_append.1 he' with he' | he'
  · exact ne_of_lt (hcross e' he' e List.mem_cons_self)
  · exact ne_of_gt ((List.pairwise_cons.1 hpost).1 e' he')

/-- Sortedness is about the keys only. -/
theorem sorted_iff : Sorted m ↔ (m.map Prod.fst).Pairwise (· < ·) :=
  List.pairwise_map.symm

theorem Sorted.replace (h : Sorted (pre ++ (k, v) :: post)) (v' : V) :
    Sorted (pre ++ (k, v') :: post) := by
  rw [sorted_iff] at h ⊢
  simpa using h

theorem Sorted.drop_middle (h : Sorted (pre ++ e :: post)) : Sorted (pre ++ post) :=
  List.Pairwise.sublist ((List.Sublist.refl pre).append (List.sublist_cons_self e post)) h

theorem find_middle (h : ∀ e ∈ pre, e.1 ≠ k) (v : V) (post : List (K × V)) (k' : K) :
    find (pre ++ (k, v) :: post) k' = if k' = k then some v else find (pre ++ post) k' := by
  induction pre with
  | nil =>
    by_cases hk : k' = k
    · simp [find, hk]
    · simp [find, hk, Ne.symm hk]
  | cons e pre ih =>
    simp only [List.cons_append, find, ih fun e' he' => h e' (List.mem_cons_of_mem _ he')]
    by_cases hk : k' = k
    · subst hk
      rw [if_neg (h e List.mem_cons_self), if_pos rfl, if_pos rfl]
    · rw [if_neg hk, if_neg hk]

theorem find_eq_none (h : ∀ e ∈ m, e.1 ≠ k) : find m k = none := by
  induction m with
  | nil => rfl
  | cons e m ih =>
    rw [find, if_neg (h e List.mem_cons_self)]
    exact ih fun e' he' => h e' (List.mem_cons_of_mem _ he')

/-! ## A map built from a list of entries -/

/-- The map that inserting the entries one after the other makes. -/
def ofList (entries : List (K × V)) : List (K × V) :=
  entries.foldl (fun m e => put m e.1 e.2) []

theorem put_perm (v : V) (h : ∀ e ∈ m, e.1 ≠ k) : (put m k v).Perm ((k, v) :: m) := by
  induction m with
  | nil => exact List.Perm.refl _
  | cons e m ih =>
    obtain ⟨hne, hm⟩ := List.forall_mem_cons.1 h
    rw [put]
    split
    · exact List.Perm.refl _
    · split
      · exact ((ih hm).cons e).trans (List.Perm.swap _ _ _)
      · rename_i hge hle
        exact absurd (le_antisymm (not_lt.1 hge) (not_lt.1 hle)) hne

theorem sorted_foldl_put {entries : List (K × V)} :
    ∀ {m : List (K × V)}, Sorted m → Sorted (entries.foldl (fun m e => put m e.1 e.2) m) := by
  induction entries with
  | nil => exact fun hm => hm
  | cons e entries ih => exact fun hm => ih (hm.put e.1 e.2)

theorem ofList_sorted (entries : List (K × V)) : Sorted (ofList entries) :=
  sorted_foldl_put List.Pairwise.nil

theorem foldl_put_perm {entries : List (K × V)} :
    ∀ {m : List (K × V)}, ((entries ++ m).map Prod.fst).Nodup →
      (entries.foldl (fun m e => put m e.1 e.2) m).Perm (entries ++ m) := by
  induction entries with
  | nil => exact fun _ => List.Perm.refl _
  | cons e entries ih =>
    intro m hnodup
    rw [List.cons_append, List.map_cons, List.nodup_cons] at hnodup
    obtain ⟨hnew, hrest⟩ := hnodup
    have hm : ∀ e' ∈ m, e'.1 ≠ e.1 := by
      intro e' he' hsame
      exact hnew (hsame ▸ List.mem_map_of_mem (List.mem_append_right _ he'))
    have hput := put_perm e.2 hm
    have hperm : (entries ++ put m e.1 e.2).Perm (e :: (entries ++ m)) :=
      (hput.append_left entries).trans List.perm_middle
    have hnodup' : ((entries ++ put m e.1 e.2).map Prod.fst).Nodup := by
      rw [(hperm.map Prod.fst).nodup_iff, List.map_cons, List.nodup_cons]
      exact ⟨hnew, hrest⟩
    exact (ih hnodup').trans hperm

/-- **Entries with different keys are all in the map.** -/
theorem ofList_perm {entries : List (K × V)} (h : (entries.map Prod.fst).Nodup) :
    (ofList entries).Perm entries := by
  have hperm : (ofList entries).Perm (entries ++ []) := by
    apply foldl_put_perm
    rw [List.append_nil]
    exact h
  rwa [List.append_nil] at hperm

theorem Sorted.nodup (hm : Sorted m) : (m.map Prod.fst).Nodup :=
  (sorted_iff.1 hm).imp fun hlt => ne_of_lt hlt

/-- **A map is built from its entries in any order.** -/
theorem ofList_of_perm {entries : List (K × V)} (hm : Sorted m) (h : entries.Perm m) :
    ofList entries = m := by
  have hnodup : (entries.map Prod.fst).Nodup := (h.map Prod.fst).nodup_iff.2 hm.nodup
  have hperm := (ofList_perm hnodup).trans h
  refine hperm.eq_of_pairwise ?_ (ofList_sorted entries) hm
  intro a b _ _ hab hba
  exact absurd hab (lt_asymm hba)

theorem find_ofList {entries : List (K × V)} (h : (entries.map Prod.fst).Nodup)
    (hmem : (k, v) ∈ entries) : find (ofList entries) k = some v :=
  find_of_mem (ofList_sorted entries) ((ofList_perm h).mem_iff.2 hmem)

theorem find_map {W : Type} (f : V → W) (m : List (K × V)) (k : K) :
    find (m.map fun e => (e.1, f e.2)) k = (find m k).map f := by
  induction m with
  | nil => rfl
  | cons e m ih =>
    rw [List.map_cons, find, find, ih]
    split <;> rfl

/-! ## Accounts -/

section Accounts

open Tally

/-- Putting an entry changes an account of the values by the difference of the two terms. -/
theorem tally_put (hm : Sorted m) (f : V → Nat) (k : K) (v : V) :
    tally (fun e => f e.2) (put m k v) + ((find m k).map f).getD 0 =
      tally (fun e => f e.2) m + f v := by
  induction m with
  | nil => exact Nat.add_comm _ _
  | cons e m ih =>
    obtain ⟨j, u⟩ := e
    obtain ⟨hlt, hm'⟩ := List.pairwise_cons.1 hm
    rw [put]
    split
    · rename_i hk
      have hnone : find ((j, u) :: m) k = none := by
        refine find_eq_none_of_lt fun e he => ?_
        rcases List.mem_cons.1 he with rfl | he
        · exact hk
        · exact hk.trans (hlt e he)
      rw [hnone, tally_cons, Option.map_none, Option.getD_none, Nat.add_zero]
      exact Nat.add_comm _ _
    · split
      · rename_i hk
        rw [find, if_neg (ne_of_lt hk), tally_cons, tally_cons, Nat.add_assoc, ih hm', Nat.add_assoc]
      · rename_i h₁ h₂
        obtain rfl : j = k := le_antisymm (not_lt.1 h₁) (not_lt.1 h₂)
        rw [find, if_pos rfl, tally_cons, tally_cons]
        show f v + tally (fun e => f e.2) m + f u = f u + tally (fun e => f e.2) m + f v
        omega

theorem tally_erase (f : V → Nat) (k : K) :
    tally (fun e => f e.2) (erase m k) + ((find m k).map f).getD 0 = tally (fun e => f e.2) m := by
  induction m with
  | nil => rfl
  | cons e m ih =>
    obtain ⟨j, u⟩ := e
    rw [erase, find]
    by_cases hk : j = k
    · rw [if_pos hk, if_pos hk, tally_cons]
      exact Nat.add_comm _ _
    · rw [if_neg hk, if_neg hk, tally_cons, tally_cons, Nat.add_assoc, ih]

end Accounts

end OpenIdea.Lib.OrdMap
