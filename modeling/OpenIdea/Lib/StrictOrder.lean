import Mathlib.Order.Lattice
import Mathlib.Order.Defs.LinearOrder
import Mathlib.Data.List.Forall2

/-!
# Comparisons that are strict total orders

A comparison answers whether its first argument is below its second. On the values that satisfy `P`
it is a strict total order where `StrictTotalOn P lt` says so. Pairs, options and lists that are
compared part by part have such an order where their parts have one (`pair`, `bottom`, `lex`,
`fields`).
-/

set_option autoImplicit false

namespace OpenIdea.Lib

variable {α β μ : Type} {P : α → Prop} {Q : β → Prop} {lt : α → α → Bool} {lt' : β → β → Bool}

/-- On the values with `P`, `lt` is irreflexive, transitive and total. -/
structure StrictTotalOn (P : α → Prop) (lt : α → α → Bool) : Prop where
  irrefl : ∀ a, P a → lt a a = false
  trans : ∀ a b c, P a → P b → P c → lt a b = true → lt b c = true → lt a c = true
  total : ∀ a b, P a → P b → lt a b = true ∨ a = b ∨ lt b a = true

/-- First by `lt`, asked both ways, then by `lt'`. -/
def pairLess (lt : α → α → Bool) (lt' : β → β → Bool) (p q : α × β) : Bool :=
  if lt p.1 q.1 then true else if lt q.1 p.1 then false else lt' p.2 q.2

/-- Nothing is below something. -/
def optionLess (lt : α → α → Bool) : Option α → Option α → Bool
  | none, some _ => true
  | some a, some b => lt a b
  | _, none => false

/-- Lexicographically: a proper beginning comes first. -/
def lexLess (lt : α → α → Bool) : List α → List α → Bool
  | x :: xs, y :: ys => if lt x y then true else if lt y x then false else lexLess lt xs ys
  | [], _ :: _ => true
  | _, [] => false

/-- Field by field, as far as both have fields. -/
def fieldsLess (lt : α → α → Bool) : List α → List α → Bool
  | x :: xs, y :: ys => if lt x y then true else if lt y x then false else fieldsLess lt xs ys
  | _, _ => false

/-- Both questions in one answer. -/
def ordering (lt : α → α → Bool) (a b : α) : Ordering :=
  if lt a b then .lt else if lt b a then .gt else .eq

theorem ordering_lt {γ : Type} [LinearOrder γ] (x y : γ) :
    Ord.compare x y = ordering (fun a b => decide (a < b)) x y := by
  rcases lt_trichotomy x y with hlt | rfl | hgt
  · simp [ordering, compare_lt_iff_lt.2 hlt, hlt]
  · simp only [ordering, lt_irrefl, decide_false, Bool.false_eq_true, if_false, compare_eq_iff_eq]
  · simp [ordering, compare_gt_iff_gt.2 hgt, hgt, lt_asymm hgt]

theorem ordering_pair (p q : α × β) :
    ordering (pairLess lt lt') p q = (ordering lt p.1 q.1).then (ordering lt' p.2 q.2) := by
  simp only [ordering, pairLess]
  by_cases hlt : lt p.1 q.1 = true
  · simp [hlt]
  · by_cases hgt : lt q.1 p.1 = true
    · simp [hlt, hgt]
    · simp [hlt, hgt]

theorem ordering_lex (x y : α) (xs ys : List α) : ordering (lexLess lt) (x :: xs) (y :: ys) =
    (ordering lt x y).then (ordering (lexLess lt) xs ys) :=
  @ordering_pair α _ lt (lexLess lt) (x, xs) (y, ys)

theorem ordering_fields (x y : α) (xs ys : List α) :
    ordering (fieldsLess lt) (x :: xs) (y :: ys) =
      (ordering lt x y).then (ordering (fieldsLess lt) xs ys) :=
  @ordering_pair α _ lt (fieldsLess lt) (x, xs) (y, ys)

namespace StrictTotalOn

theorem asymm (h : StrictTotalOn P lt) {a b : α} (ha : P a) (hb : P b) (hab : lt a b = true) :
    lt b a = false := by
  cases hba : lt b a with
  | false => rfl
  | true => exact absurd (h.trans a b a ha hb ha hab hba) (by simp [h.irrefl a ha])

/-- Neither is below the other exactly where they are equal. -/
theorem neither_iff (h : StrictTotalOn P lt) {a b : α} (ha : P a) (hb : P b) :
    lt a b = false ∧ lt b a = false ↔ a = b := by
  constructor
  · rintro ⟨hab, hba⟩
    rcases h.total a b ha hb with hlt | heq | hgt
    · exact absurd hlt (by simp [hab])
    · exact heq
    · exact absurd hgt (by simp [hba])
  · rintro rfl
    exact ⟨h.irrefl a ha, h.irrefl a ha⟩

theorem of_single {x : α} (hP : ∀ a, P a → a = x) (hx : lt x x = false) : StrictTotalOn P lt where
  irrefl a ha := by rw [hP a ha, hx]
  trans a b c ha hb _ hab _ := by
    rw [hP a ha, hP b hb, hx] at hab
    cases hab
  total a b ha hb := Or.inr (Or.inl ((hP a ha).trans (hP b hb).symm))

/-- A comparison of what tells the values apart. -/
theorem of_key {γ : Type} [LinearOrder γ] {f : α → γ} (hf : ∀ a b, P a → P b → f a = f b → a = b) :
    StrictTotalOn P fun a b => decide (f a < f b) where
  irrefl a _ := decide_eq_false (lt_irrefl (f a))
  trans a b c _ _ _ hab hbc :=
    decide_eq_true (lt_trans (of_decide_eq_true hab) (of_decide_eq_true hbc))
  total a b ha hb := by
    rcases lt_trichotomy (f a) (f b) with hlt | heq | hgt
    · exact Or.inl (decide_eq_true hlt)
    · exact Or.inr (Or.inl (hf a b ha hb heq))
    · exact Or.inr (Or.inr (decide_eq_true hgt))

/-- Values that are made from others, and are compared as those are. -/
theorem image (h : StrictTotalOn P lt) {g : α → β} (hg : ∀ b, Q b → ∃ a, P a ∧ g a = b)
    (hlt : ∀ a a', P a → P a' → lt' (g a) (g a') = lt a a') : StrictTotalOn Q lt' where
  irrefl b hb := by
    obtain ⟨a, ha, rfl⟩ := hg b hb
    rw [hlt a a ha ha]
    exact h.irrefl a ha
  trans b b' b'' hb hb' hb'' := by
    obtain ⟨a, ha, rfl⟩ := hg b hb
    obtain ⟨a', ha', rfl⟩ := hg b' hb'
    obtain ⟨a'', ha'', rfl⟩ := hg b'' hb''
    rw [hlt a a' ha ha', hlt a' a'' ha' ha'', hlt a a'' ha ha'']
    exact h.trans a a' a'' ha ha' ha''
  total b b' hb hb' := by
    obtain ⟨a, ha, rfl⟩ := hg b hb
    obtain ⟨a', ha', rfl⟩ := hg b' hb'
    rw [hlt a a' ha ha', hlt a' a ha' ha]
    exact (h.total a a' ha ha').imp_right (Or.imp_left (congrArg g))

theorem pairLess_iff (h : StrictTotalOn P lt) {p q : α × β} (hp : P p.1) (hq : P q.1) :
    pairLess lt lt' p q = true ↔ lt p.1 q.1 = true ∨ p.1 = q.1 ∧ lt' p.2 q.2 = true := by
  unfold pairLess
  rcases h.total p.1 q.1 hp hq with hlt | heq | hgt
  · simp only [hlt, if_true, true_or]
  · have hirrefl := h.irrefl q.1 hq
    simp [heq, hirrefl]
  · have hlt := h.asymm hq hp hgt
    have hne : p.1 ≠ q.1 := by
      intro heq
      rw [heq, h.irrefl q.1 hq] at hgt
      cases hgt
    simp [hlt, hgt, hne]

/-- Pairs, by their first parts and then by their second ones. -/
theorem pair (h : StrictTotalOn P lt) (h' : StrictTotalOn Q lt') :
    StrictTotalOn (fun p : α × β => P p.1 ∧ Q p.2) (pairLess lt lt') where
  irrefl p hp := by
    apply Bool.eq_false_iff.2
    intro hlt
    rcases (h.pairLess_iff hp.1 hp.1).1 hlt with hfirst | ⟨-, hsecond⟩
    · exact absurd hfirst (by simp [h.irrefl p.1 hp.1])
    · exact absurd hsecond (by simp [h'.irrefl p.2 hp.2])
  trans p q r hp hq hr hpq hqr := by
    rw [h.pairLess_iff hp.1 hr.1]
    rcases (h.pairLess_iff hp.1 hq.1).1 hpq with hlt | ⟨heq, hlt⟩
    · left
      rcases (h.pairLess_iff hq.1 hr.1).1 hqr with hlt' | ⟨heq', -⟩
      · exact h.trans p.1 q.1 r.1 hp.1 hq.1 hr.1 hlt hlt'
      · exact heq' ▸ hlt
    · rcases (h.pairLess_iff hq.1 hr.1).1 hqr with hlt' | ⟨heq', hlt'⟩
      · exact Or.inl (heq ▸ hlt')
      · exact Or.inr ⟨heq.trans heq', h'.trans p.2 q.2 r.2 hp.2 hq.2 hr.2 hlt hlt'⟩
  total p q hp hq := by
    rw [h.pairLess_iff hp.1 hq.1, h.pairLess_iff hq.1 hp.1, Prod.ext_iff]
    rcases h.total p.1 q.1 hp.1 hq.1 with hlt | heq | hgt
    · exact Or.inl (Or.inl hlt)
    · rcases h'.total p.2 q.2 hp.2 hq.2 with hlt | heq' | hgt
      · exact Or.inl (Or.inr ⟨heq, hlt⟩)
      · exact Or.inr (Or.inl ⟨heq, heq'⟩)
      · exact Or.inr (Or.inr (Or.inr ⟨heq.symm, hgt⟩))
    · exact Or.inr (Or.inr (Or.inl hgt))

/-- One value more, below all others. -/
theorem bottom (h : StrictTotalOn P lt) :
    StrictTotalOn (fun o : Option α => ∀ a ∈ o, P a) (optionLess lt) where
  irrefl o ho := by
    cases o with
    | none => rfl
    | some a => exact h.irrefl a (ho a rfl)
  trans o o' o'' ho ho' ho'' hlt hlt' := by
    cases o'' with
    | none => cases o' <;> cases hlt'
    | some c =>
      cases o with
      | none => rfl
      | some a =>
        cases o' with
        | none => cases hlt
        | some b => exact h.trans a b c (ho a rfl) (ho' b rfl) (ho'' c rfl) hlt hlt'
  total o o' ho ho' := by
    cases o with
    | none =>
      cases o' with
      | none => exact Or.inr (Or.inl rfl)
      | some b => exact Or.inl rfl
    | some a =>
      cases o' with
      | none => exact Or.inr (Or.inr rfl)
      | some b => exact (h.total a b (ho a rfl) (ho' b rfl)).imp_right (Or.imp_left (congrArg some))

/-- Lists of at most `n` elements: none, or a first one and at most `n - 1` others. -/
theorem lex_upTo (h : StrictTotalOn P lt) (n : ℕ) :
    StrictTotalOn (fun l : List α => l.length ≤ n ∧ ∀ x ∈ l, P x) (lexLess lt) := by
  induction n with
  | zero => exact of_single (fun l hl => List.length_eq_zero_iff.1 (Nat.le_zero.1 hl.1)) rfl
  | succ n ih =>
    apply (h.pair ih).bottom.image (g := fun o => o.elim [] fun p => p.1 :: p.2)
    · rintro (_ | ⟨x, xs⟩) ⟨hlength, hall⟩
      · exact ⟨none, by simp, rfl⟩
      · rw [List.forall_mem_cons] at hall
        refine ⟨some (x, xs), ?_, rfl⟩
        rintro _ ⟨⟩
        exact ⟨hall.1, Nat.le_of_succ_le_succ hlength, hall.2⟩
    · rintro (_ | p) (_ | q) _ _
      all_goals rfl

/-- Lists, lexicographically. -/
theorem lex (h : StrictTotalOn P lt) :
    StrictTotalOn (fun l : List α => ∀ x ∈ l, P x) (lexLess lt) where
  irrefl a ha := (h.lex_upTo a.length).irrefl a ⟨Nat.le_refl _, ha⟩
  trans a b c ha hb hc :=
    (h.lex_upTo (max a.length (max b.length c.length))).trans a b c ⟨by omega, ha⟩
      ⟨by omega, hb⟩ ⟨by omega, hc⟩
  total a b ha hb :=
    (h.lex_upTo (max a.length b.length)).total a b ⟨by omega, ha⟩ ⟨by omega, hb⟩

/-- Fields, each with an order on the values that it may have. -/
theorem fields {R : μ → α → Prop} {ms : List μ} (h : ∀ m ∈ ms, StrictTotalOn (R m) lt) :
    StrictTotalOn (List.Forall₂ R ms) (fieldsLess lt) := by
  induction ms with
  | nil => exact of_single (fun l hl => List.forall₂_nil_left_iff.1 hl) rfl
  | cons m ms ih =>
    have hhead := h m List.mem_cons_self
    have htail := ih fun m' hm' => h m' (List.mem_cons_of_mem m hm')
    apply (hhead.pair htail).image (g := fun p => p.1 :: p.2)
    · rintro _ (_ | ⟨hx, hxs⟩)
      exact ⟨(_, _), ⟨hx, hxs⟩, rfl⟩
    · intro p q _ _
      rfl

end StrictTotalOn

end OpenIdea.Lib
