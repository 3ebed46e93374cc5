import Mathlib.Data.List.Basic

/-!
# Scanners of a stream of items

A scanner looks for the end of the first item of its input.  What it answers once it has seen
enough, a size or a refusal, does not change when more input comes.  From this alone it follows that
it does not matter how a stream is cut into pieces: who has taken the items `items` from the part of
the stream that it has seen, and is left with `rest`, has taken the first items of the stream as a
whole.  The items are the first items of the whole (`Splits.cut`), also when more comes
(`Splits.append`), and a refusal is final (`Splits.rejects`).
-/

set_option autoImplicit false

namespace OpenIdea.Lib

/-- The answer of a scanner: there is no whole item yet, there can be none, or its size. -/
inductive Cut
  | more
  | bad
  | item (size : Nat)
  deriving DecidableEq, Repr

/-- A scanner for items over units `α`. -/
structure Scanner (α : Type) where
  scan : List α → Cut
  item_pos : ∀ {xs n}, scan xs = .item n → 0 < n
  item_le : ∀ {xs n}, scan xs = .item n → n ≤ xs.length
  item_append : ∀ {xs n}, scan xs = .item n → ∀ ys, scan (xs ++ ys) = .item n
  bad_append : ∀ {xs}, scan xs = .bad → ∀ ys, scan (xs ++ ys) = .bad

namespace Scanner

variable {α : Type} (S : Scanner α)

/-! ## The items of a whole stream -/

/-- At most `n` items from the start of the stream, and the rest. -/
def cutAtMost : Nat → List α → List (List α) × List α
  | 0, xs => ([], xs)
  | n + 1, xs =>
      match S.scan xs with
      | .item k =>
          let r := cutAtMost n (xs.drop k)
          (xs.take k :: r.1, r.2)
      | _ => ([], xs)

/-- The items of a stream, and what is left when no more can be found. -/
def cut (xs : List α) : List (List α) × List α := S.cutAtMost xs.length xs

/-- The stream is not one of items: what is left cannot start one. -/
def Rejects (xs : List α) : Prop := S.scan (S.cut xs).2 = .bad

/-- It does not matter how many items are allowed, if there are enough of them. -/
theorem cutAtMost_eq (n : Nat) :
    ∀ {m : Nat} {xs : List α}, xs.length ≤ n → xs.length ≤ m → S.cutAtMost n xs = S.cutAtMost m xs := by
  have hnil : ∀ m, S.cutAtMost m [] = ([], []) := by
    intro m
    cases m with
    | zero => rfl
    | succ m =>
      unfold cutAtMost
      cases hs : S.scan [] with
      | more => rfl
      | bad => rfl
      | item k =>
        have hpos := S.item_pos hs
        have hle := S.item_le hs
        rw [List.length_nil] at hle
        omega
  induction n with
  | zero =>
    intro m xs hn _
    rw [List.length_eq_zero_iff.1 (Nat.le_zero.1 hn), hnil, hnil]
  | succ n ih =>
    intro m xs hn hm
    cases m with
    | zero => rw [List.length_eq_zero_iff.1 (Nat.le_zero.1 hm), hnil, hnil]
    | succ m =>
      unfold cutAtMost
      cases hs : S.scan xs with
      | more => rfl
      | bad => rfl
      | item k =>
        have hpos := S.item_pos hs
        have hlen : (xs.drop k).length = xs.length - k := List.length_drop
        dsimp only
        rw [@ih m (xs.drop k) (by omega) (by omega)]

theorem cut_item {xs : List α} {k : Nat} (h : S.scan xs = .item k) :
    S.cut xs = (xs.take k :: (S.cut (xs.drop k)).1, (S.cut (xs.drop k)).2) := by
  have hpos := S.item_pos h
  have hle := S.item_le h
  have hlen : (xs.drop k).length = xs.length - k := List.length_drop
  obtain ⟨n, hn⟩ : ∃ n, xs.length = n + 1 := ⟨xs.length - 1, by omega⟩
  have hcut : S.cutAtMost n (xs.drop k) = S.cut (xs.drop k) :=
    S.cutAtMost_eq n (by omega) (Nat.le_refl _)
  unfold cut
  rw [hn]
  conv_lhs => unfold cutAtMost
  rw [h]
  dsimp only
  rw [hcut]
  rfl

theorem cut_of_not_item {xs : List α} (h : ∀ k, S.scan xs ≠ .item k) : S.cut xs = ([], xs) := by
  unfold cut
  cases xs.length with
  | zero => rfl
  | succ n =>
    unfold cutAtMost
    cases hs : S.scan xs with
    | more => rfl
    | bad => rfl
    | item k => exact absurd hs (h k)

/-! ## The items taken so far -/

/-- `items` are the first items of the stream, and `rest` follows them. -/
inductive Splits : List α → List (List α) → List α → Prop
  | nil (xs : List α) : Splits xs [] xs
  | cons {xs rest : List α} {items : List (List α)} {k : Nat} (h : S.scan xs = .item k)
      (htail : Splits (xs.drop k) items rest) : Splits xs (xs.take k :: items) rest

namespace Splits

variable {S} {xs rest : List α} {items : List (List α)}

/-- Another item is taken. -/
theorem snoc (h : S.Splits xs items rest) {k : Nat} (hk : S.scan rest = .item k) :
    S.Splits xs (items ++ [rest.take k]) (rest.drop k) := by
  induction h with
  | nil xs => exact .cons hk (.nil _)
  | cons hscan _ ih => exact .cons hscan (ih hk)

/-- More of the stream comes in. -/
theorem append (h : S.Splits xs items rest) (ys : List α) : S.Splits (xs ++ ys) items (rest ++ ys) := by
  induction h with
  | nil xs => exact .nil _
  | @cons xs rest items k hscan _ ih =>
    have hle := S.item_le hscan
    have hcons := Splits.cons (S.item_append hscan ys)
      (by rw [List.drop_append_of_le_length hle]; exact ih)
    rw [List.take_append_of_le_length hle] at hcons
    exact hcons

/-- The stream is the items and the rest. -/
theorem flatten (h : S.Splits xs items rest) : xs = items.flatten ++ rest := by
  induction h with
  | nil xs => rfl
  | cons hscan _ ih =>
    rw [List.flatten_cons, List.append_assoc, ← ih, List.take_append_drop]

/-- **The items taken are the first ones of the stream.**  Whoever goes on goes on at `rest`. -/
theorem cut (h : S.Splits xs items rest) :
    S.cut xs = (items ++ (S.cut rest).1, (S.cut rest).2) := by
  induction h with
  | nil xs => rfl
  | cons hscan _ ih =>
    rw [S.cut_item hscan, ih]
    rfl

/-- A refusal of the rest is one of the stream, whatever follows. -/
theorem rejects (h : S.Splits xs items rest) (hbad : S.scan rest = .bad) (ys : List α) :
    S.Rejects (xs ++ ys) := by
  unfold Rejects
  have hstill := S.bad_append hbad ys
  rw [(h.append ys).cut, S.cut_of_not_item fun k hk => by rw [hstill] at hk; cases hk]
  exact hstill

end Splits

end Scanner

end OpenIdea.Lib
