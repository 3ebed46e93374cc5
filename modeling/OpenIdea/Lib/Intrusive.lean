import Mathlib.Data.List.Basic

/-!
# Intrusive lists

The nodes of an intrusive list live in other objects and point to each other: `next` gives the node
after a node. `Chain next head l` says that the walk from `head` meets the nodes of `l`, in this
order, and then ends. A pointer of a node outside of the list is free to change (`Chain.update`; a
new head is `Chain.push`).
-/

set_option autoImplicit false

namespace OpenIdea.Lib.Intrusive

variable {ν : Type}

/-- The walk from `head` over `next` meets the nodes of the list and ends. -/
def Chain (next : ν → Option ν) : Option ν → List ν → Prop
  | head, [] => head = none
  | head, n :: l => head = some n ∧ Chain next (next n) l

variable {next : ν → Option ν} {head : Option ν} {n : ν} {l : List ν}

@[simp] theorem chain_nil : Chain next head [] ↔ head = none := Iff.rfl

@[simp] theorem chain_cons : Chain next head (n :: l) ↔ head = some n ∧ Chain next (next n) l :=
  Iff.rfl

/-- A walk that starts nowhere meets no node. -/
theorem Chain.eq_nil (h : Chain next none l) : l = [] := by
  cases l with
  | nil => rfl
  | cons m l => cases h.1

/-- A walk that starts at a node meets it, and goes on from the node it points to. -/
theorem Chain.uncons (h : Chain next (some n) l) : ∃ r, l = n :: r ∧ Chain next (next n) r := by
  cases l with
  | nil => cases h
  | cons m l =>
    obtain rfl : n = m := Option.some.inj h.1
    exact ⟨l, rfl, h.2⟩

variable [DecidableEq ν]

/-- The pointer of a node outside of the list does not matter. -/
theorem Chain.update (h : Chain next head l) (hn : n ∉ l) (x : Option ν) :
    Chain (Function.update next n x) head l := by
  induction l generalizing head with
  | nil => exact h
  | cons m l ih =>
    obtain ⟨hne, hnl⟩ : n ≠ m ∧ n ∉ l := by
      constructor
      · intro heq
        apply hn
        rw [heq]
        exact List.mem_cons_self
      · intro hmem
        exact hn (List.mem_cons_of_mem _ hmem)
    refine ⟨h.1, ?_⟩
    rw [Function.update_of_ne hne.symm]
    exact ih h.2 hnl

/-- A node in front of the list. -/
theorem Chain.push (h : Chain next head l) (hn : n ∉ l) :
    Chain (Function.update next n head) (some n) (n :: l) := by
  refine ⟨rfl, ?_⟩
  rw [Function.update_self]
  exact h.update hn head

end OpenIdea.Lib.Intrusive
