import Mathlib.Data.Option.Basic

/-!
# Maps with expiring cells

A map whose cells carry the time at which they are gone, and the clock they are read against.
Reading never changes the map: a cell that has expired is still there and is no longer seen. A cell
that is seen later was there before (`get_of_advance`).
-/

set_option autoImplicit false

namespace OpenIdea.Lib

/-- Cells with a value and an expiry time, and the current time. -/
structure Expiring (K V : Type) where
  now : Nat := 0
  cells : K → Option (V × Nat) := fun _ => none

namespace Expiring

variable {K V : Type}

/-- The value of a cell that has not expired. -/
def get (m : Expiring K V) (k : K) : Option V :=
  ((m.cells k).filter fun c => m.now < c.2).map Prod.fst

/-- Time passes. -/
def advance (m : Expiring K V) (d : Nat) : Expiring K V := { m with now := m.now + d }

variable [DecidableEq K]

/-- Write a value that lives for `ttl`. -/
def set (m : Expiring K V) (k : K) (v : V) (ttl : Nat) : Expiring K V :=
  { m with cells := Function.update m.cells k (some (v, m.now + ttl)) }

/-- Give a cell that is there a new lifetime. -/
def expire (m : Expiring K V) (k : K) (ttl : Nat) : Expiring K V :=
  match m.get k with
  | some v => m.set k v ttl
  | none => m

def del (m : Expiring K V) (k : K) : Expiring K V :=
  { m with cells := Function.update m.cells k none }

theorem get_set_self (m : Expiring K V) (k : K) (v : V) {ttl : Nat} (h : 0 < ttl) :
    (m.set k v ttl).get k = some v := by
  have hlive : m.now < m.now + ttl := by omega
  simp [get, set, hlive]

theorem get_set_ne (m : Expiring K V) {k k' : K} (h : k' ≠ k) (v : V) (ttl : Nat) :
    (m.set k v ttl).get k' = m.get k' := by
  simp only [get, set, Function.update_of_ne h]
  rfl

theorem get_expire (m : Expiring K V) (k k' : K) {ttl : Nat} (h : 0 < ttl) :
    (m.expire k ttl).get k' = m.get k' := by
  cases hk : m.get k with
  | none => simp only [expire, hk]
  | some v =>
    simp only [expire, hk]
    by_cases hk' : k' = k
    · rw [hk', get_set_self m k v h, hk]
    · exact get_set_ne m hk' v ttl

theorem get_del_self (m : Expiring K V) (k : K) : (m.del k).get k = none := by
  simp [get, del]

theorem get_del_ne (m : Expiring K V) {k k' : K} (h : k' ≠ k) : (m.del k).get k' = m.get k' := by
  simp only [get, del, Function.update_of_ne h]
  rfl

omit [DecidableEq K] in
/-- Time only takes values away. -/
theorem get_of_advance {m : Expiring K V} {d : Nat} {k : K} {v : V}
    (h : (m.advance d).get k = some v) : m.get k = some v := by
  simp only [get, advance, Option.map_eq_some_iff, Option.filter_eq_some_iff] at h ⊢
  obtain ⟨c, ⟨hc, hlive⟩, rfl⟩ := h
  have hlive : m.now + d < c.2 := of_decide_eq_true hlive
  exact ⟨c, ⟨hc, decide_eq_true (by omega)⟩, rfl⟩

end Expiring

end OpenIdea.Lib
