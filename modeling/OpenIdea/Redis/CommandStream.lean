import OpenIdea.Lib.Scanner
import OpenIdea.Redis.Command

/-!
# `ScanCommand` on a stream

`ScanCommand` starts again at the first byte of a command whenever more input has come.  It is a
scanner: once it has found a command, or that there is none, more input does not change the answer.
And it finds every command of the protocol that is within the limits.

Main results: `scanCommand_bad_append`, `scanCommand_encode`, `commands`.
-/

set_option autoImplicit false

namespace OpenIdea.Redis

open OpenIdea.Lib

/-! ## A refusal is final -/

variable {maxBytes : Nat}

/-- **More input does not mend a malformed command.** -/
theorem scanCommand_bad_append {bytes : List UInt8} (h : scanCommand maxBytes bytes = .bad)
    (more : List UInt8) : scanCommand maxBytes (bytes ++ more) = .bad := by
  rw [scanCommand_settled (by simp [h]), h]

/-! ## Every command of the protocol is found -/

/-- A command: the text of the number of its arguments, and the arguments. -/
structure Command where
  text : List UInt8
  arguments : List Argument
  count : Numeral text arguments.length
  nonempty : arguments ≠ []

/-- The bytes of a command. -/
def Command.encode (c : Command) : List UInt8 :=
  42 :: c.text ++ 13 :: 10 :: c.arguments.flatMap Argument.encode

theorem scanArguments_encode (rest : List UInt8) :
    ∀ (arguments : List Argument) {pos : Nat},
      pos + (arguments.flatMap Argument.encode).length ≤ maxBytes →
      scanArguments maxBytes arguments.length pos (arguments.flatMap Argument.encode ++ rest) =
        .value (pos + (arguments.flatMap Argument.encode).length) rest := by
  intro arguments
  induction arguments with
  | nil =>
    intro pos _
    rfl
  | cons a others ih =>
    intro pos hmax
    have hlen : (a :: others).flatMap Argument.encode =
        36 :: (a.text ++ 13 :: 10 :: (a.data ++ 13 :: 10 :: others.flatMap Argument.encode)) := by
      simp [Argument.encode]
    rw [hlen] at hmax ⊢
    simp only [List.length_cons, List.length_append] at hmax
    rw [List.length_cons]
    unfold scanArguments
    rw [List.cons_append]
    dsimp only
    have hline := readLine_numeral a.length
      (a.data ++ 13 :: 10 :: others.flatMap Argument.encode ++ rest)
    rw [if_neg (by simp), show a.text ++ 13 :: 10 :: (a.data ++ 13 :: 10 ::
      others.flatMap Argument.encode) ++ rest = a.text ++ 13 :: 10 :: (a.data ++ 13 :: 10 ::
      others.flatMap Argument.encode ++ rest) by simp, hline]
    dsimp only
    have hbefore : (a.text ++ 13 :: 10 :: (a.data ++ 13 :: 10 :: others.flatMap Argument.encode ++
        rest)).length - (a.data ++ 13 :: 10 :: others.flatMap Argument.encode ++ rest).length =
        a.text.length + 2 := by
      simp only [List.length_append, List.length_cons]
      omega
    have hshort := a.short
    rw [hbefore, Int.toNat_natCast, if_neg (by omega), if_neg (by omega), if_neg (by
      simp only [List.length_append, List.length_cons]; omega)]
    have hend : ((a.data ++ 13 :: 10 :: others.flatMap Argument.encode ++ rest).drop
        a.data.length).take 2 = [13, 10] := by
      rw [List.append_assoc, List.drop_left]
      rfl
    have hdrop : (a.data ++ 13 :: 10 :: others.flatMap Argument.encode ++ rest).drop
        (a.data.length + 2) = others.flatMap Argument.encode ++ rest := by
      rw [List.append_assoc, ← List.drop_drop, List.drop_left]
      rfl
    rw [hend, if_neg (by simp), hdrop, ih (by omega)]
    congr 1
    simp only [List.length_cons, List.length_append]
    omega

/-- **`ScanCommand` finds every command** that has at most `maxBytes` bytes, whatever follows it. -/
theorem scanCommand_encode (c : Command) (h : c.encode.length ≤ maxBytes) (rest : List UInt8) :
    scanCommand maxBytes (c.encode ++ rest) = .command c.encode.length c.arguments.length := by
  have hlen : c.encode.length =
      1 + (c.text.length + 2) + (c.arguments.flatMap Argument.encode).length := by
    simp only [Command.encode, List.length_cons, List.length_append]
    omega
  have hpos : 0 < c.arguments.length := List.length_pos_of_ne_nil c.nonempty
  have hcut : c.encode ++ rest =
      42 :: (c.text ++ 13 :: 10 :: (c.arguments.flatMap Argument.encode ++ rest)) := by
    simp [Command.encode]
  rw [hcut]
  unfold scanCommand
  dsimp only
  rw [if_neg (by simp), readLine_numeral c.count]
  dsimp only
  have hbefore : (c.text ++ 13 :: 10 :: (c.arguments.flatMap Argument.encode ++ rest)).length -
      (c.arguments.flatMap Argument.encode ++ rest).length = c.text.length + 2 := by
    simp only [List.length_append, List.length_cons]
    omega
  rw [if_neg (by omega), hbefore, Int.toNat_natCast,
    scanArguments_encode rest c.arguments (by omega), ← hlen]

/-! ## The scanner -/

/-- What a scanner says, for an answer of `ScanCommand`. -/
def Scan.cut : Scan → Cut
  | .more => .more
  | .bad => .bad
  | .command size _ => .item size

theorem Scan.cut_item {r : Scan} {n : Nat} (h : r.cut = .item n) : ∃ count, r = .command n count := by
  cases r with
  | more => cases h
  | bad => cases h
  | command size count =>
    obtain rfl := Cut.item.inj h
    exact ⟨count, rfl⟩

theorem Scan.cut_bad {r : Scan} (h : r.cut = .bad) : r = .bad := by
  cases r with
  | more => cases h
  | bad => rfl
  | command size count => cases h

/-- `ScanCommand` with the limit `maxBytes`. -/
def commands (maxBytes : Nat) : Scanner UInt8 where
  scan bytes := (scanCommand maxBytes bytes).cut
  item_pos := by
    intro bytes n h
    obtain ⟨count, hscan⟩ := Scan.cut_item h
    exact (scanCommand_size hscan).1
  item_le := by
    intro bytes n h
    obtain ⟨count, hscan⟩ := Scan.cut_item h
    exact (scanCommand_size hscan).2
  item_append := by
    intro bytes n h more
    obtain ⟨count, hscan⟩ := Scan.cut_item h
    rw [scanCommand_append hscan]
    rfl
  bad_append := by
    intro bytes h more
    rw [scanCommand_bad_append (Scan.cut_bad h)]
    rfl

end OpenIdea.Redis
