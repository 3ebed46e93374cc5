import Mathlib.Data.List.Infix

/-!
# The first occurrence of a pattern

`find` is the search of a byte string for another one, `findFrom` the search from a position on.
What was found stays where it is when more is appended, and what is found only then reaches into the
new part (`find_append`, `find_append_new`, and `findFrom_append` from a position on).
-/

set_option autoImplicit false

namespace OpenIdea.Lib.Search

variable {α : Type} [DecidableEq α]

/-- The place of the first occurrence of `pat`. -/
def find (pat : List α) : List α → Option Nat
  | [] => if pat.isPrefixOf [] then some 0 else none
  | x :: xs => if pat.isPrefixOf (x :: xs) then some 0 else (find pat xs).map (· + 1)

/-- The place of the first occurrence of `pat` at `pos` or after it. -/
def findFrom (pat xs : List α) (pos : Nat) : Option Nat := (find pat (xs.drop pos)).map (· + pos)

variable {pat xs : List α} {i pos : Nat}

/-- What is found is the pattern, for the first time. -/
theorem find_eq_some :
    ∀ {xs : List α} {i : Nat}, find pat xs = some i ↔
      pat <+: xs.drop i ∧ i ≤ xs.length ∧ ∀ j < i, ¬ pat <+: xs.drop j := by
  intro xs
  induction xs with
  | nil =>
    intro i
    rw [find]
    constructor
    · intro h
      split at h
      case isTrue hp =>
        obtain rfl := Option.some.inj h
        exact ⟨List.isPrefixOf_iff_prefix.1 hp, Nat.le_refl 0, fun j hj => absurd hj (by omega)⟩
      case isFalse => cases h
    · rintro ⟨hp, hle, _⟩
      obtain rfl := Nat.le_zero.1 hle
      have hp : pat <+: [] := hp
      rw [if_pos (List.isPrefixOf_iff_prefix.2 hp)]
  | cons x xs ih =>
    intro i
    rw [find]
    by_cases hp : pat <+: x :: xs
    · rw [if_pos (List.isPrefixOf_iff_prefix.2 hp)]
      constructor
      · intro h
        obtain rfl := Option.some.inj h
        exact ⟨hp, Nat.zero_le _, fun j hj => absurd hj (by omega)⟩
      · rintro ⟨_, _, hfirst⟩
        cases i with
        | zero => rfl
        | succ i => exact absurd hp (hfirst 0 (by omega))
    · rw [if_neg fun hb => hp (List.isPrefixOf_iff_prefix.1 hb)]
      constructor
      · intro h
        obtain ⟨k, hk, rfl⟩ := Option.map_eq_some_iff.1 h
        obtain ⟨hpre, hle, hfirst⟩ := ih.1 hk
        refine ⟨hpre, Nat.succ_le_succ hle, ?_⟩
        intro j hj
        cases j with
        | zero => exact hp
        | succ j => exact hfirst j (by omega)
      · rintro ⟨hpre, hle, hfirst⟩
        cases i with
        | zero => exact absurd hpre hp
        | succ i =>
          have hk : find pat xs = some i :=
            ih.2 ⟨hpre, Nat.le_of_succ_le_succ hle, fun j hj => hfirst (j + 1) (by omega)⟩
          rw [hk]
          rfl

theorem find_eq_none :
    ∀ {xs : List α}, find pat xs = none → ∀ j, j ≤ xs.length → ¬ pat <+: xs.drop j := by
  intro xs
  induction xs with
  | nil =>
    intro h j hj hp
    obtain rfl := Nat.le_zero.1 hj
    have hp : pat <+: [] := hp
    rw [find, if_pos (List.isPrefixOf_iff_prefix.2 hp)] at h
    cases h
  | cons x xs ih =>
    intro h j hj hp
    rw [find] at h
    split at h
    case isTrue => cases h
    case isFalse hnot =>
      cases j with
      | zero => exact hnot (List.isPrefixOf_iff_prefix.2 hp)
      | succ j => exact ih (Option.map_eq_none_iff.1 h) j (Nat.le_of_succ_le_succ hj) hp

theorem find_le (h : find pat xs = some i) : i + pat.length ≤ xs.length := by
  obtain ⟨hpre, hle, _⟩ := find_eq_some.1 h
  have hlen := hpre.length_le
  rw [List.length_drop] at hlen
  omega

variable {ys : List α} {a b : α}

omit [DecidableEq α] in
/-- A pattern inside of the old part is there before more is appended. -/
theorem prefix_of_append {j : Nat} (h : pat <+: (xs ++ ys).drop j) (hj : j + pat.length ≤ xs.length)
    : pat <+: xs.drop j := by
  rw [List.drop_append_of_le_length (by omega)] at h
  apply List.prefix_of_prefix_length_le h (List.prefix_append _ _)
  rw [List.length_drop]
  omega

theorem find_append (h : find pat xs = some i) (ys : List α) : find pat (xs ++ ys) = some i := by
  have hlen := find_le h
  obtain ⟨hpre, hle, hfirst⟩ := find_eq_some.1 h
  apply find_eq_some.2
  refine ⟨?_, ?_, ?_⟩
  · rw [List.drop_append_of_le_length hle]
    exact hpre.trans (List.prefix_append _ _)
  · rw [List.length_append]
    omega
  · intro j hj hp
    exact hfirst j hj (prefix_of_append hp (by omega))

/-- What is found is found in the part up to its end. -/
theorem find_take (h : find pat xs = some i) : find pat (xs.take (i + pat.length)) = some i := by
  have hlen := find_le h
  obtain ⟨hpre, -, hfirst⟩ := find_eq_some.1 h
  refine find_eq_some.2 ⟨?_, ?_, fun j hj hp => ?_⟩
  · rw [List.drop_take, Nat.add_sub_cancel_left]
    exact List.prefix_take_iff.2 ⟨hpre, Nat.le_refl _⟩
  · rw [List.length_take]
    omega
  · rw [List.drop_take] at hp
    exact hfirst j hj (hp.trans (List.take_prefix _ _))

/-- What is found only with the new part reaches into it. -/
theorem find_append_new (hnone : find pat xs = none) (h : find pat (xs ++ ys) = some i) :
    xs.length < i + pat.length := by
  by_contra hle
  have hle : i + pat.length ≤ xs.length := Nat.not_lt.1 hle
  obtain ⟨hpre, _, _⟩ := find_eq_some.1 h
  exact find_eq_none hnone i (by omega) (prefix_of_append hpre hle)

/-- Up to `k` there is no pattern. -/
theorem find_skip : ∀ {k : Nat} {xs : List α}, k ≤ xs.length →
    (∀ j < k, ¬ pat <+: xs.drop j) → find pat xs = (find pat (xs.drop k)).map (· + k) := by
  intro k
  induction k with
  | zero =>
    intro xs _ _
    rw [List.drop_zero]
    exact Option.map_id'.symm
  | succ k ih =>
    intro xs hk h
    cases xs with
    | nil => exact absurd hk (Nat.not_succ_le_zero k)
    | cons x xs =>
      have hnot : ¬ pat <+: x :: xs := h 0 (Nat.succ_pos k)
      have hrest : find pat xs = (find pat (xs.drop k)).map (· + k) :=
        ih (Nat.le_of_succ_le_succ hk) fun j hj => h (j + 1) (Nat.succ_lt_succ hj)
      rw [find, if_neg fun hb => hnot (List.isPrefixOf_iff_prefix.1 hb), hrest, Option.map_map]
      rfl

omit [DecidableEq α] in
/-- A line that ends with a mark of two has none of them before. -/
theorem not_prefix_before (hab : a ≠ b) {line : List α} (h : ¬ [a, b] <:+: line) (rest : List α)
    {j : Nat} (hj : j < line.length) : ¬ [a, b] <+: (line ++ a :: rest).drop j := by
  intro hp
  rw [List.drop_append_of_le_length (Nat.le_of_lt hj)] at hp
  have hin : line.drop j <:+: line := (List.drop_suffix j line).isInfix
  match hd : line.drop j, hp, hin with
  | [], _, _ =>
    have hlen := congrArg List.length hd
    rw [List.length_drop, List.length_nil] at hlen
    omega
  | [c], hp, _ =>
    -- the mark would reach into the one at the end
    obtain ⟨-, hp⟩ := List.cons_prefix_cons.1 hp
    exact hab (List.cons_prefix_cons.1 hp).1.symm
  | c :: d :: tail, hp, hin =>
    obtain ⟨hc, hrest⟩ := List.cons_prefix_cons.1 hp
    obtain ⟨hd', -⟩ := List.cons_prefix_cons.1 hrest
    rw [← hc, ← hd'] at hin
    exact h (List.IsInfix.trans ⟨[], tail, rfl⟩ hin)

/-- The mark at the end of a line is found there. -/
theorem find_pair (hab : a ≠ b) {line : List α} (h : ¬ [a, b] <:+: line) (rest : List α) :
    find [a, b] (line ++ a :: b :: rest) = some line.length := by
  refine find_eq_some.2 ⟨?_, ?_, fun j hj => not_prefix_before hab h _ hj⟩
  · rw [List.drop_left]
    exact ⟨rest, rfl⟩
  · rw [List.length_append]
    exact Nat.le_add_right _ _

/-! ## From a position on -/

theorem findFrom_eq_some (h : findFrom pat xs pos = some i) :
    pos ≤ i ∧ find pat (xs.drop pos) = some (i - pos) := by
  obtain ⟨k, hk, rfl⟩ := Option.map_eq_some_iff.1 h
  refine ⟨Nat.le_add_left pos k, ?_⟩
  rw [Nat.add_sub_cancel]
  exact hk

/-- A found pattern that is not empty ends inside of the text. -/
theorem findFrom_le (hpat : pat ≠ []) (h : findFrom pat xs pos = some i) :
    pos ≤ i ∧ i + pat.length ≤ xs.length := by
  obtain ⟨hle, hfind⟩ := findFrom_eq_some h
  have hlen := find_le hfind
  have hpos : 0 < pat.length := List.length_pos_of_ne_nil hpat
  rw [List.length_drop] at hlen
  omega

theorem findFrom_append (hpat : pat ≠ []) (h : findFrom pat xs pos = some i) (ys : List α) :
    findFrom pat (xs ++ ys) pos = some i := by
  have hlen := findFrom_le hpat h
  have hpos : 0 < pat.length := List.length_pos_of_ne_nil hpat
  obtain ⟨hle, hfind⟩ := findFrom_eq_some h
  rw [findFrom, List.drop_append_of_le_length (by omega), find_append hfind]
  show some (i - pos + pos) = some i
  congr 1
  omega

theorem findFrom_append_new (hpos : pos ≤ xs.length) (hnone : findFrom pat xs pos = none)
    (h : findFrom pat (xs ++ ys) pos = some i) : xs.length < i + pat.length := by
  obtain ⟨hle, hfind⟩ := findFrom_eq_some h
  rw [List.drop_append_of_le_length hpos] at hfind
  have hnew := find_append_new (Option.map_eq_none_iff.1 hnone) hfind
  rw [List.length_drop] at hnew
  omega

/-- A pattern that occurs is found, not later than there. -/
theorem findFrom_of_prefix {k : Nat} (hpos : pos ≤ k) (hk : k ≤ xs.length) (h : pat <+: xs.drop k) :
    ∃ i, findFrom pat xs pos = some i ∧ i ≤ k := by
  have hmem : pat <+: (xs.drop pos).drop (k - pos) := by
    rw [List.drop_drop]
    have he : pos + (k - pos) = k := by omega
    rw [he]
    exact h
  have hlen : k - pos ≤ (xs.drop pos).length := by
    rw [List.length_drop]
    omega
  cases hfind : find pat (xs.drop pos) with
  | none => exact absurd hmem (find_eq_none hfind _ hlen)
  | some i =>
    refine ⟨i + pos, ?_, ?_⟩
    · rw [findFrom, hfind]
      rfl
    · by_contra hlt
      exact (find_eq_some.1 hfind).2.2 (k - pos) (by omega) hmem

theorem findFrom_pair (hab : a ≠ b) {line : List α} (h : ¬ [a, b] <:+: line) (before rest : List α)
    :
    findFrom [a, b] (before ++ (line ++ a :: b :: rest)) before.length =
      some (before.length + line.length) := by
  rw [findFrom, List.drop_left, find_pair hab h, Option.map_some, Nat.add_comm]

end OpenIdea.Lib.Search
