import Mathlib.Algebra.GroupWithZero.Nat
import Mathlib.Algebra.BigOperators.Group.List.Basic

/-!
# Sums over a list of parties

The parties of a concurrent system stand in a list, and an account of the system is a sum with one
term for each party. One step changes one party, so the sum changes by the difference of its two
terms. The lemmas are stated with additions on both sides, for the account is a natural number. The
rule is `tally_set`.
-/

set_option autoImplicit false

namespace OpenIdea.Lib.Tally

variable {α : Type}

variable {a b : α} {i : Nat} {l : List α}

/-- After a step of the party at `i`, a party is that one or stands as before. -/
theorem getElem?_set_cases {j : Nat} (h : (l.set i a)[j]? = some b) :
    (j = i ∧ b = a) ∨ (j ≠ i ∧ l[j]? = some b) := by
  rw [List.getElem?_set] at h
  by_cases hij : i = j
  · subst hij
    by_cases hl : i < l.length
    · simp only [if_true, if_pos hl, Option.some.injEq] at h
      exact Or.inl ⟨rfl, h.symm⟩
    · simp only [if_true, if_neg hl] at h
      cases h
  · rw [if_neg hij] at h
    exact Or.inr ⟨fun hj => hij hj.symm, h⟩

theorem getElem?_set_iff {k : Nat} {x : α} (h : l[i]? = some x) :
    (l.set i a)[k]? = some b ↔ k = i ∧ b = a ∨ k ≠ i ∧ l[k]? = some b := by
  constructor
  · exact getElem?_set_cases
  · rintro (⟨rfl, rfl⟩ | ⟨hne, hb⟩)
    · exact List.getElem?_set_self (List.getElem?_eq_some_iff.1 h).1
    · rw [List.getElem?_set_ne (fun he => hne he.symm)]
      exact hb

/-- An entry unlike the one at `i` stays when that one is written. -/
theorem getElem?_set_keep {k : Nat} {x : α} (h : l[i]? = some x) (hb : l[k]? = some b) (hne : b ≠ x)
    : (l.set i a)[k]? = some b := by
  refine (getElem?_set_iff h).2 (Or.inr ⟨?_, hb⟩)
  rintro rfl
  exact hne (Option.some.inj (hb.symm.trans h))

/-- An entry unlike the one that was written was there before. -/
theorem getElem?_set_old {k : Nat} (h : (l.set i a)[k]? = some b) (hne : b ≠ a) :
    k ≠ i ∧ l[k]? = some b := by
  rcases getElem?_set_cases h with ⟨-, hb⟩ | hold
  · exact absurd hb hne
  · exact hold

theorem getElem?_concat_iff : (l ++ [a])[i]? = some b ↔ l[i]? = some b ∨ i = l.length ∧ b = a := by
  rw [List.getElem?_append]
  by_cases hi : i < l.length
  · rw [if_pos hi]
    constructor
    · exact Or.inl
    · rintro (h | ⟨rfl, -⟩)
      · exact h
      · exact absurd hi (Nat.lt_irrefl _)
  · rw [if_neg hi, List.getElem?_singleton]
    constructor
    · intro h
      obtain ⟨_, h⟩ := Option.ite_none_right_eq_some.1 h
      exact Or.inr ⟨by omega, (Option.some.inj h).symm⟩
    · rintro (h | ⟨rfl, rfl⟩)
      · exact absurd (List.getElem?_eq_some_iff.1 h).1 hi
      · rw [Nat.sub_self, if_pos rfl]

/-- After a party has joined at the end, a party is that one or stands as before. -/
theorem getElem?_concat_cases (h : (l ++ [a])[i]? = some b) : l[i]? = some b ∨ b = a :=
  (getElem?_concat_iff.1 h).imp_right And.right

/-- One term for each party of the list. -/
def tally (f : α → Nat) (l : List α) : Nat := (l.map f).sum

@[simp] theorem tally_nil (f : α → Nat) : tally f [] = 0 := rfl

@[simp] theorem tally_cons (f : α → Nat) (a : α) (l : List α) :
    tally f (a :: l) = f a + tally f l := by
  simp [tally]

@[simp] theorem tally_append (f : α → Nat) (l₁ l₂ : List α) :
    tally f (l₁ ++ l₂) = tally f l₁ + tally f l₂ := by
  simp [tally]

/-- A step of the party at `i` changes the account by the difference of its terms. -/
theorem tally_set (f : α → Nat) {a b : α} :
    ∀ {l : List α} {i : Nat}, l[i]? = some b → tally f (l.set i a) + f b = tally f l + f a
  | [], i, h => by simp at h
  | c :: l, 0, h => by
      obtain rfl : c = b := by simpa using h
      simp only [List.set_cons_zero, tally_cons]
      omega
  | c :: l, i + 1, h => by
      have ih := @tally_set f a b l i (by simpa using h)
      simp only [List.set_cons_succ, tally_cons]
      omega

/-- A step that keeps the party's term keeps the account. -/
theorem tally_set_eq {f : α → Nat} {a b : α} {l : List α} {i : Nat} (h : l[i]? = some b)
    (hf : f a = f b) : tally f (l.set i a) = tally f l := by
  have := @tally_set _ f a b l i h
  omega

theorem le_tally (f : α → Nat) {a : α} :
    ∀ {l : List α} {i : Nat}, l[i]? = some a → f a ≤ tally f l
  | [], i, h => by simp at h
  | c :: l, 0, h => by
      obtain rfl : c = a := by simpa using h
      simp
  | c :: l, i + 1, h => by
      have ih := @le_tally f a l i (by simpa using h)
      simp only [tally_cons]
      omega

theorem tally_eq_zero {f : α → Nat} (h : ∀ (i : Nat) (a : α), l[i]? = some a → f a = 0) :
    tally f l = 0 := by
  induction l with
  | nil => rfl
  | cons c l ih =>
    rw [tally_cons, h 0 c rfl, ih fun i a ha => h (i + 1) a (by simpa using ha)]

/-- The account of a predicate counts the parties that satisfy it. -/
theorem tally_eq_countP (p : α → Bool) (l : List α) :
    tally (fun a => if p a then 1 else 0) l = l.countP p := by
  induction l with
  | nil => rfl
  | cons c l ih =>
    rw [tally_cons, List.countP_cons, ih]
    omega

end OpenIdea.Lib.Tally
