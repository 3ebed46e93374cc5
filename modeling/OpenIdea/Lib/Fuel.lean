import Mathlib.Tactic.Common

/-!
# Recursions that are given fuel

A function of the fuel that answers `none` while it is not finished. It ends where it has one answer
from some amount of fuel on, and so do the functions that are made of such ones. They compose by
`Ends.bind` and `Ends.call`.
-/

set_option autoImplicit false

namespace OpenIdea.Lib

variable {α β : Type}

/-- There is an answer, and more fuel does not change it. -/
def Ends (f : ℕ → Option α) : Prop := ∃ n a, ∀ m, n ≤ m → f m = some a

/-- Do all have the property? The first one that has not decides. -/
def allOf (f : α → Option Bool) : List α → Option Bool
  | [] => some true
  | a :: as => (f a).bind fun b => if b then allOf f as else some false

theorem allOf_iff {f : α → Option Bool} {as : List α} :
    allOf f as = some true ↔ ∀ a ∈ as, f a = some true := by
  induction as with
  | nil => simp [allOf]
  | cons a as ih =>
    rw [List.forall_mem_cons, ← ih, allOf]
    cases f a with
    | none => simp
    | some b => cases b <;> simp

/-- An answer other than the one of a refusal. -/
theorem guard_some {p : Option Bool} {f : Option α} {a b : α} (hne : a ≠ b)
    (h : (p.bind fun c => if c then f else some b) = some a) : p = some true ∧ f = some a := by
  rcases p with _ | _ | _
  · cases h
  · exact absurd (Option.some.inj h).symm hne
  · exact ⟨rfl, h⟩

namespace Ends

variable {f : ℕ → Option α} {g : ℕ → α → Option β}

theorem const (a : α) : Ends fun _ => some a := ⟨0, a, fun _ _ => rfl⟩

theorem bind (hf : Ends f) (hg : ∀ a, Ends fun n => g n a) : Ends fun n => (f n).bind (g n) := by
  obtain ⟨n, a, hn⟩ := hf
  obtain ⟨k, b, hk⟩ := hg a
  refine ⟨max n k, b, fun m hm => ?_⟩
  show (f m).bind (g m) = some b
  rw [hn m (by omega), Option.bind_some]
  exact hk m (by omega)

/-- A call that costs one unit of fuel. -/
theorem call {f' : ℕ → Option α} (h : Ends f) (hcall : ∀ n, f' (n + 1) = f n) : Ends f' := by
  obtain ⟨n, a, hn⟩ := h
  refine ⟨n + 1, a, fun m hm => ?_⟩
  obtain ⟨k, rfl⟩ : ∃ k, m = k + 1 := ⟨m - 1, by omega⟩
  rw [hcall, hn k (by omega)]

/-- If the first answers yes, the second is asked. -/
theorem guard {p : ℕ → Option Bool} {b : α} (hp : Ends p) (hf : Ends f) :
    Ends fun n => (p n).bind fun a => if a then f n else some b := by
  apply hp.bind
  rintro (_ | _)
  · exact const b
  · exact hf

theorem allOf {p : ℕ → α → Option Bool} {as : List α} (h : ∀ a ∈ as, Ends fun n => p n a) :
    Ends fun n => allOf (p n) as := by
  induction as with
  | nil => exact const true
  | cons a as ih =>
    rw [List.forall_mem_cons] at h
    exact h.1.guard (ih h.2)

end Ends

end OpenIdea.Lib
