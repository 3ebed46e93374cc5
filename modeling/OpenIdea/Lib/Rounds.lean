import Mathlib.Data.List.Basic

/-!
# Machines that are fed in pieces

A machine works on what it has received, in rounds, until it is done or needs more; then it is given
the next piece and goes on. If its rounds do not change when more input is there already, it does
not matter how the input is cut: `feed_eq`. A machine may have states in which it gives up too
early; these are set apart by `sure`.
-/

set_option autoImplicit false

namespace OpenIdea.Lib.Rounds

/-- The end of a round. -/
inductive Round (σ ρ : Type)
  | go (s : σ)
  | more (s : σ)
  | done (r : ρ)
  deriving DecidableEq

variable {σ ρ ω α : Type}

/-- Rounds until the machine needs more or is done, at most `n` of them. -/
def settle (advance : σ → Round σ ρ) : Nat → σ → Round σ ρ
  | 0, s => .go s
  | n + 1, s =>
      match advance s with
      | .go t => settle advance n t
      | .more t => .more t
      | .done r => .done r

/-- The state in which the machine needs more or is done is a sure one. -/
def SettlesSure (advance : σ → Round σ ρ) (sure : σ → Bool) : Nat → σ → Bool
  | 0, _ => true
  | n + 1, s =>
      match advance s with
      | .go t => SettlesSure advance sure n t
      | .more _ => true
      | .done _ => sure s

-- one round that needs more, and no other
example {advance : σ → Round σ ρ} {sure : σ → Bool} {s t : σ} (h : advance s = .more t) :
    settle advance 1 s = .more t ∧ SettlesSure advance sure 1 s = true := by
  rw [settle, SettlesSure, h]
  exact ⟨rfl, rfl⟩

/-- A machine whose rounds do not depend on what comes later. -/
structure Machine (σ ρ ω α : Type) where
  advance : σ → Round σ ρ
  add : σ → List α → σ
  size : σ → Nat
  /-- What of the result is independent of the pieces. -/
  out : ρ → ω
  /-- Where the machine does not give up too early. -/
  sure : σ → Bool
  add_nil : ∀ s, add s [] = s
  add_add : ∀ s xs ys, add (add s xs) ys = add s (xs ++ ys)
  go_size : ∀ {s t}, advance s = .go t → size t < size s
  go_add : ∀ {s t}, advance s = .go t → ∀ xs, advance (add s xs) = .go (add t xs)
  more_add : ∀ {s t}, advance s = .more t → ∀ xs, advance (add t xs) = advance (add s xs)
  done_add : ∀ {s r}, advance s = .done r → sure s = true → ∀ xs,
    ∃ r', advance (add s xs) = .done r' ∧ out r' = out r

namespace Machine

variable (M : Machine σ ρ ω α)

/-- All rounds on what is there. -/
def work (s : σ) : Round σ ρ := settle M.advance (M.size s + 1) s

def WorksSure (s : σ) : Bool := SettlesSure M.advance M.sure (M.size s + 1) s

/-- The pieces one after the other. -/
def feed : σ → List (List α) → Round σ ρ
  | s, [] => .more s
  | s, xs :: rest =>
      match M.work (M.add s xs) with
      | .go t => .go t
      | .more t => feed t rest
      | .done r => .done r

/-- All pieces are worked on in sure states. -/
def FeedsSure : σ → List (List α) → Bool
  | _, [] => true
  | s, xs :: rest =>
      M.WorksSure (M.add s xs) &&
        match M.work (M.add s xs) with
        | .more t => FeedsSure t rest
        | _ => true

/-- Two ends that agree in all that is independent of the pieces. -/
def Agree : Round σ ρ → Round σ ρ → Prop
  | .more s, .more t => s = t
  | .done r, .done r' => M.out r = M.out r'
  | _, _ => False

variable {M}

/-- More rounds than needed change nothing. -/
theorem settle_eq : ∀ {n m : Nat} {s : σ}, M.size s < n → M.size s < m →
    settle M.advance n s = settle M.advance m s := by
  intro n
  induction n with
  | zero =>
    intro m s hn
    exact absurd hn (Nat.not_lt_zero _)
  | succ n ih =>
    intro m s hn hm
    cases m with
    | zero => exact absurd hm (Nat.not_lt_zero _)
    | succ m =>
      simp only [settle]
      cases ha : M.advance s with
      | go t =>
        have hlt := M.go_size ha
        exact ih (by omega) (by omega)
      | more t => rfl
      | done r => rfl

theorem settlesSure_eq : ∀ {n m : Nat} {s : σ}, M.size s < n → M.size s < m →
    SettlesSure M.advance M.sure n s = SettlesSure M.advance M.sure m s := by
  intro n
  induction n with
  | zero =>
    intro m s hn
    exact absurd hn (Nat.not_lt_zero _)
  | succ n ih =>
    intro m s hn hm
    cases m with
    | zero => exact absurd hm (Nat.not_lt_zero _)
    | succ m =>
      simp only [SettlesSure]
      cases ha : M.advance s with
      | go t =>
        have hlt := M.go_size ha
        exact ih (by omega) (by omega)
      | more t => rfl
      | done r => rfl

variable {s t : σ} {r : ρ}

theorem work_go (h : M.advance s = .go t) : M.work s = M.work t := by
  have hlt := M.go_size h
  rw [work, settle, h]
  exact settle_eq (by omega) (by omega)

theorem work_more (h : M.advance s = .more t) : M.work s = .more t := by
  rw [work, settle, h]

theorem work_done (h : M.advance s = .done r) : M.work s = .done r := by
  rw [work, settle, h]

theorem worksSure_go (h : M.advance s = .go t) : M.WorksSure s = M.WorksSure t := by
  have hlt := M.go_size h
  rw [WorksSure, SettlesSure, h]
  exact settlesSure_eq (by omega) (by omega)

theorem worksSure_done (h : M.advance s = .done r) : M.WorksSure s = M.sure s := by
  rw [WorksSure, SettlesSure, h]

/-- The work ends, and with what; the induction follows the rounds. -/
theorem work_induct {motive : σ → Prop}
    (hgo : ∀ s t, M.advance s = .go t → motive t → motive s)
    (hmore : ∀ s t, M.advance s = .more t → motive s)
    (hdone : ∀ s r, M.advance s = .done r → motive s) : ∀ s, motive s := by
  have hall : ∀ n s, M.size s < n → motive s := by
    intro n
    induction n with
    | zero =>
      intro s hn
      exact absurd hn (Nat.not_lt_zero _)
    | succ n ih =>
      intro s hn
      cases ha : M.advance s with
      | go t =>
        have hlt := M.go_size ha
        exact hgo s t ha (ih t (by omega))
      | more t => exact hmore s t ha
      | done r => exact hdone s r ha
  exact fun s => hall _ s (Nat.lt_succ_self _)

theorem work_ne_go (s t : σ) : M.work s ≠ .go t := by
  induction s using (work_induct (M := M)) with
  | hgo s u ha ih =>
    rw [work_go ha]
    exact ih
  | hmore s u ha =>
    rw [work_more ha]
    exact fun he => by cases he
  | hdone s r ha =>
    rw [work_done ha]
    exact fun he => by cases he

/-- A machine that needs more has done nothing that more input would not have made it do. -/
theorem work_of_more (h : M.work s = .more t) (xs : List α) :
    M.work (M.add t xs) = M.work (M.add s xs) := by
  induction s using (work_induct (M := M)) with
  | hgo s u ha ih =>
    rw [work_go ha] at h
    rw [work_go (M.go_add ha xs)]
    exact ih h
  | hmore s u ha =>
    rw [work_more ha] at h
    injection h with he
    subst he
    have hsame := M.more_add ha xs
    cases hb : M.advance (M.add s xs) with
    | go v => rw [work_go hb, work_go (hsame.trans hb)]
    | more v => rw [work_more hb, work_more (hsame.trans hb)]
    | done r => rw [work_done hb, work_done (hsame.trans hb)]
  | hdone s r ha =>
    rw [work_done ha] at h
    cases h

/-- A machine that is done, and sure, is done as well when more input is there. -/
theorem work_of_done (h : M.work s = .done r) (hsure : M.WorksSure s = true) (xs : List α) :
    ∃ r', M.work (M.add s xs) = .done r' ∧ M.out r' = M.out r := by
  induction s using (work_induct (M := M)) with
  | hgo s u ha ih =>
    rw [work_go ha] at h
    rw [worksSure_go ha] at hsure
    rw [work_go (M.go_add ha xs)]
    exact ih h hsure
  | hmore s u ha =>
    rw [work_more ha] at h
    cases h
  | hdone s r' ha =>
    rw [work_done ha] at h
    injection h with he
    subst he
    rw [worksSure_done ha] at hsure
    obtain ⟨r'', hr, hout⟩ := M.done_add ha hsure xs
    exact ⟨r'', work_done hr, hout⟩

/-- **The pieces do not matter.** A machine that needs more, is fed in pieces and is sure in all of
them ends as it would with all of the input at once. -/
theorem feed_eq {pieces : List (List α)} : ∀ {s : σ}, M.work s = .more s →
    M.FeedsSure s pieces = true → M.Agree (M.feed s pieces) (M.work (M.add s pieces.flatten)) := by
  induction pieces with
  | nil =>
    intro s hs _
    rw [List.flatten_nil, M.add_nil, hs]
    rfl
  | cons xs rest ih =>
    intro s hs hsure
    rw [FeedsSure, Bool.and_eq_true] at hsure
    obtain ⟨hnow, hlater⟩ := hsure
    rw [List.flatten_cons, ← M.add_add, feed]
    cases hw : M.work (M.add s xs) with
    | go t => exact absurd hw (work_ne_go _ t)
    | more t =>
      rw [hw] at hlater
      -- the machine is left in a state in which it needs more
      have hsettled : M.work t = .more t := by
        have hsame := work_of_more hw []
        rw [M.add_nil, M.add_nil, hw] at hsame
        exact hsame
      rw [← work_of_more hw rest.flatten]
      exact ih hsettled hlater
    | done r =>
      obtain ⟨r', hr, hout⟩ := work_of_done hw hnow rest.flatten
      rw [hr]
      exact hout.symm

end Machine

end OpenIdea.Lib.Rounds
