import Mathlib.Data.List.Basic

/-!
# Parsers of a stream of messages

A parser that is given the bytes read so far and answers with the first message and the rest, asks
for more, or gives up.  The laws say what is needed of it on a stream of encoded messages: a
complete message is recognised whatever follows it, and a part of one asks for more.
`next_of_stream` is then what a reader meets, however the stream was cut.
-/

set_option autoImplicit false

namespace OpenIdea.Lib

/-- The answer of a parser. -/
inductive Parsed (α ρ : Type)
  | message (x : ρ) (rest : List α)
  | more
  | error
  deriving DecidableEq

/-- A parser of messages `ρ` over units `α`, with the encoding it inverts. -/
structure StreamParser (α ρ : Type) where
  parse : List α → Parsed α ρ
  encode : ρ → List α
  parse_nil : parse [] = .more
  parse_encode : ∀ x rest, parse (encode x ++ rest) = .message x rest
  parse_part : ∀ x pre suf, encode x = pre ++ suf → suf ≠ [] → parse pre = .more

namespace StreamParser

variable {α ρ : Type} (P : StreamParser α ρ)

/-- The messages one after the other. -/
def stream (xs : List ρ) : List α := xs.flatMap P.encode

@[simp] theorem stream_nil : P.stream [] = [] := rfl

@[simp] theorem stream_cons (x : ρ) (xs : List ρ) : P.stream (x :: xs) = P.encode x ++ P.stream xs :=
  List.flatMap_cons

theorem stream_concat (xs : List ρ) (x : ρ) : P.stream (xs ++ [x]) = P.stream xs ++ P.encode x := by
  simp [stream]

/-- A reader that holds the front part of a stream finds its first message or needs more. -/
theorem next_of_stream {held wire : List α} {xs : List ρ} (h : held ++ wire = P.stream xs) :
    P.parse held = .more ∨
    ∃ x xs' rest, xs = x :: xs' ∧ P.parse held = .message x rest ∧ rest ++ wire = P.stream xs' := by
  cases xs with
  | nil =>
    have hnil : held = [] := (List.append_eq_nil_iff.1 h).1
    rw [hnil]
    exact Or.inl P.parse_nil
  | cons x xs =>
    rw [stream_cons] at h
    -- the first message ends in the wire, or in what is held
    obtain ⟨suf, henc, hwire⟩ | ⟨rest, hheld, hrest⟩ := List.append_eq_append_iff.1 h
    · cases suf with
      | nil =>
        refine Or.inr ⟨x, xs, [], rfl, ?_, hwire⟩
        rw [List.append_nil] at henc
        rw [← henc]
        simpa using P.parse_encode x []
      | cons a suf => exact Or.inl (P.parse_part x held (a :: suf) henc (List.cons_ne_nil a suf))
    · refine Or.inr ⟨x, xs, rest, rfl, ?_, hrest.symm⟩
      rw [hheld]
      exact P.parse_encode x rest

end StreamParser

end OpenIdea.Lib
