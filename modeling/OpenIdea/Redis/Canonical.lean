import OpenIdea.Lib.Decimal
import OpenIdea.Redis.CommandStream

/-!
# The spelling of forwarded commands (redis_server_session.cpp)

The proxy forwards a command byte for byte, so the numbers in it reach Redis as the client has
spelled them: the count behind `*` and a length behind each `$`. Redis takes plain decimal only, and
answers anything else by closing the connection, which all clients share.

`ReadLine` knows more spellings of a number: zeros in front, and a minus sign in front of zero.
Apart from these a command that `ScanCommand` accepts is the canonical encoding of its arguments.
The main result is `scanCommand_canonical_iff`; `forwarded_zero_in_front` is a command that is
spelled otherwise.
-/

set_option autoImplicit false

namespace OpenIdea.Redis

open OpenIdea.Lib

/-! ## Canonical commands -/

/-- An argument with its length in plain decimal. -/
def respArgument (argument : List UInt8) : List UInt8 :=
  36 :: Decimal.text argument.length ++ 13 :: 10 :: argument ++ [13, 10]

/-- The canonical encoding of a command with these arguments. -/
def respCommand (arguments : List (List UInt8)) : List UInt8 :=
  42 :: Decimal.text arguments.length ++ 13 :: 10 :: arguments.flatMap respArgument

/-- The bytes are a command as Redis accepts it. -/
def IsCanonical (bytes : List UInt8) : Prop :=
  ∃ arguments : List (List UInt8), arguments ≠ [] ∧ bytes = respCommand arguments

/-! ## Spellings of a number -/

/-- The text of a number up to its end of line. -/
def numberText (bytes : List UInt8) : List UInt8 := bytes.takeWhile (· ≠ 13)

/-- No minus sign, and no zero in front of another digit. -/
def IsPlain (text : List UInt8) : Prop := text.head? ≠ some 45 ∧ Decimal.IsPlain text

instance (text : List UInt8) : Decidable (IsPlain text) := inferInstanceAs (Decidable (_ ∧ _))

/-- The lengths of so many arguments are plain. -/
def plainLengths : Nat → List UInt8 → Bool
  | 0, _ => true
  | left + 1, bytes =>
      match readLine (bytes.drop 1) with
      | .value length rest =>
          decide (IsPlain (numberText (bytes.drop 1))) &&
            plainLengths left (rest.drop (length.toNat + 2))
      | _ => false

/-- All numbers of a command are plain. -/
def plainNumbers (bytes : List UInt8) : Bool :=
  match readLine (bytes.drop 1) with
  | .value count rest =>
      decide (IsPlain (numberText (bytes.drop 1))) && plainLengths count.toNat rest
  | _ => false

theorem numberText_line {text : List UInt8} (h : ∀ b ∈ text, b ≠ 13) (rest : List UInt8) :
    numberText (text ++ 13 :: 10 :: rest) = text := by
  have hall : ∀ b ∈ text, decide (b ≠ 13) = true := fun b hb => decide_eq_true (h b hb)
  rw [numberText, List.takeWhile_append_of_pos hall, List.takeWhile_cons_of_neg (by decide),
    List.append_nil]

theorem numeral_line {text : List UInt8} {v : Int} (h : Numeral text v) : ∀ b ∈ text, b ≠ 13 := by
  have hdigits : ∀ {ds : List UInt8}, Digits ds → ∀ b ∈ ds, b ≠ 13 := by
    rintro ds hds b hb rfl
    exact absurd (hds.digit 13 hb).1 (by decide)
  cases h with
  | plus hds => exact hdigits hds
  | minus hds =>
    intro b hb
    rcases List.mem_cons.1 hb with rfl | hb
    · decide
    · exact hdigits hds b hb

theorem text_line (n : Nat) : ∀ b ∈ Decimal.text n, b ≠ 13 := by
  rintro b hb rfl
  exact absurd ((Decimal.isNumeral_text n).2 13 hb).1 (by decide)

theorem Digits.isNumeral {ds : List UInt8} (h : Digits ds) : Decimal.IsNumeral ds := by
  refine ⟨List.ne_nil_of_length_pos h.pos, fun b hb => ?_⟩
  obtain ⟨hlow, hhigh⟩ := h.digit b hb
  exact ⟨UInt8.le_iff_toNat_le.1 hlow, UInt8.le_iff_toNat_le.1 hhigh⟩

/-- **A plain numeral is the number in plain decimal**, and no other is. -/
theorem numeral_plain_iff {text : List UInt8} {n : Nat} (h : Numeral text n) :
    IsPlain text ↔ text = Decimal.text n := by
  constructor
  · rintro ⟨hsign, hplain⟩
    generalize hv : (n : Int) = v at h
    cases h with
    | plus hds =>
      have hvalue : n = Decimal.value text := Int.ofNat.inj hv
      rw [hvalue, Decimal.text_value hds.isNumeral hplain]
    | minus hds => exact absurd rfl hsign
  · intro htext
    refine ⟨fun hsign => ?_, htext ▸ Decimal.isPlain_text n⟩
    obtain ⟨rest, hrest⟩ := List.head?_eq_some_iff.1 hsign
    exact Decimal.text_ne_minus n rest (htext.symm.trans hrest)

/-- A number in plain decimal is no other number. -/
theorem numeral_text {m n : Nat} (h : Numeral (Decimal.text m) n) : n = m := by
  have hvalue := Decimal.value_text m
  have hsign := Decimal.text_ne_minus m
  generalize Decimal.text m = text at h hvalue hsign
  generalize hv : (n : Int) = v at h
  cases h with
  | plus hds => exact (Int.ofNat.inj hv).trans hvalue
  | minus hds => exact absurd rfl (hsign _)

/-! ## Commands -/

/-- A line of a number, and what follows, cut apart in two ways. -/
theorem line_inj {text text' rest rest' : List UInt8} (h : ∀ b ∈ text, b ≠ 13)
    (h' : ∀ b ∈ text', b ≠ 13) (heq : text ++ 13 :: 10 :: rest = text' ++ 13 :: 10 :: rest') :
    text = text' ∧ rest = rest' := by
  have htext : text = text' := by
    rw [← numberText_line h rest, heq, numberText_line h' rest']
  subst htext
  exact ⟨rfl, (List.cons.inj (List.cons.inj (List.append_cancel_left heq)).2).2⟩

theorem plainLengths_iff (arguments : List Argument) (rest : List UInt8) :
    plainLengths arguments.length (arguments.flatMap Argument.encode ++ rest) = true ↔
      ∀ a ∈ arguments, IsPlain a.text := by
  induction arguments with
  | nil => exact ⟨fun _ => nofun, fun _ => rfl⟩
  | cons a others ih =>
    have hcut : ((a :: others).flatMap Argument.encode ++ rest).drop 1 =
        a.text ++ 13 :: 10 :: (a.data ++ ([13, 10] ++ (others.flatMap Argument.encode ++ rest))) := by
      simp [Argument.encode]
    have hnext : (a.data ++ ([13, 10] ++ (others.flatMap Argument.encode ++ rest))).drop
        (a.data.length + 2) = others.flatMap Argument.encode ++ rest := by
      rw [← List.drop_drop, List.drop_left]
      rfl
    rw [List.length_cons, plainLengths, hcut, readLine_numeral a.length,
      numberText_line (numeral_line a.length)]
    dsimp only
    rw [Int.toNat_natCast, hnext, Bool.and_eq_true, ih, decide_eq_true_iff, List.forall_mem_cons]

theorem plainNumbers_iff (c : Command) :
    plainNumbers c.encode = true ↔ IsPlain c.text ∧ ∀ a ∈ c.arguments, IsPlain a.text := by
  have hcut : c.encode.drop 1 =
      c.text ++ 13 :: 10 :: (c.arguments.flatMap Argument.encode ++ []) := by
    simp [Command.encode]
  rw [plainNumbers, hcut, readLine_numeral c.count, numberText_line (numeral_line c.count)]
  dsimp only
  rw [Int.toNat_natCast, Bool.and_eq_true, plainLengths_iff, decide_eq_true_iff]

/-- Arguments that are encoded canonically have plain lengths. -/
theorem arguments_plain {arguments : List Argument} :
    ∀ {plain : List (List UInt8)}, plain.length = arguments.length →
      arguments.flatMap Argument.encode = plain.flatMap respArgument →
      ∀ a ∈ arguments, IsPlain a.text := by
  induction arguments with
  | nil =>
    intro plain _ _
    exact nofun
  | cons a others ih =>
    intro plain hlength heq
    cases plain with
    | nil => cases hlength
    | cons b plain =>
      have hleft : (a :: others).flatMap Argument.encode =
          36 :: (a.text ++ 13 :: 10 :: (a.data ++ ([13, 10] ++
            others.flatMap Argument.encode))) := by
        simp [Argument.encode]
      have hright : (b :: plain).flatMap respArgument =
          36 :: (Decimal.text b.length ++ 13 :: 10 :: (b ++ ([13, 10] ++
            plain.flatMap respArgument))) := by
        simp [respArgument]
      rw [hleft, hright] at heq
      obtain ⟨htext, hrest⟩ :=
        line_inj (numeral_line a.length) (text_line b.length) (List.cons.inj heq).2
      -- the lengths are the same number, so the arguments end at the same byte
      have hlen : a.data.length = b.length := numeral_text (htext ▸ a.length)
      obtain ⟨-, htail⟩ := List.append_inj hrest hlen
      intro x hx
      rcases List.mem_cons.1 hx with rfl | hx
      · rw [numeral_plain_iff x.length, htext, hlen]
      · exact ih (Nat.succ.inj hlength) (List.append_cancel_left htail) x hx

/-- The command that `ScanCommand` has cut out. -/
theorem scanCommand_command {maxBytes size count : Nat} {bytes : List UInt8}
    (h : scanCommand maxBytes bytes = .command size count) :
    ∃ c : Command, bytes.take size = c.encode ∧ c.arguments.length = count := by
  obtain ⟨text, first, others, rest, hn, hcount, hbytes, hsize⟩ := scanCommand_shape h
  have hcount' : Numeral text (first :: others).length := by
    rw [List.length_cons, hcount]
    exact hn
  refine ⟨⟨text, first :: others, hcount', List.cons_ne_nil _ _⟩, ?_, hcount⟩
  rw [hbytes, hsize, List.take_left]
  simp [Command.encode]

/-- A command in its canonical encoding has plain numbers. -/
theorem plainNumbers_of_canonical {maxBytes size count : Nat} {bytes : List UInt8}
    (h : scanCommand maxBytes bytes = .command size count) (hc : IsCanonical (bytes.take size)) :
    plainNumbers (bytes.take size) = true := by
  obtain ⟨c, hcommand, -⟩ := scanCommand_command h
  obtain ⟨arguments, -, harguments⟩ := hc
  have heq : c.encode = respCommand arguments := hcommand.symm.trans harguments
  have hleft : c.encode = 42 :: (c.text ++ 13 :: 10 :: c.arguments.flatMap Argument.encode) := by
    simp [Command.encode]
  have hright : respCommand arguments =
      42 :: (Decimal.text arguments.length ++ 13 :: 10 :: arguments.flatMap respArgument) := by
    simp [respCommand]
  rw [hleft, hright] at heq
  obtain ⟨htext, hrest⟩ :=
    line_inj (numeral_line c.count) (text_line arguments.length) (List.cons.inj heq).2
  have hlen : c.arguments.length = arguments.length := numeral_text (htext ▸ c.count)
  rw [hcommand, plainNumbers_iff]
  refine ⟨?_, arguments_plain hlen.symm hrest⟩
  rw [numeral_plain_iff c.count, htext, hlen]

/-- **What `ScanCommand` accepts is canonical, up to the spelling of its numbers.** -/
theorem scanCommand_canonical_iff {maxBytes size count : Nat} {bytes : List UInt8}
    (h : scanCommand maxBytes bytes = .command size count) :
    IsCanonical (bytes.take size) ↔ plainNumbers (bytes.take size) = true := by
  refine ⟨plainNumbers_of_canonical h, fun hplain => ?_⟩
  obtain ⟨c, hcommand, -⟩ := scanCommand_command h
  rw [hcommand, plainNumbers_iff] at hplain
  obtain ⟨htext, harguments⟩ := hplain
  refine ⟨c.arguments.map Argument.data, ?_, ?_⟩
  · rw [Ne, List.map_eq_nil_iff]
    exact c.nonempty
  · have hencode : ∀ a ∈ c.arguments, a.encode = respArgument a.data := by
      intro a ha
      rw [Argument.encode, respArgument, (numeral_plain_iff a.length).1 (harguments a ha)]
    have hbody : c.arguments.flatMap Argument.encode =
        (c.arguments.map Argument.data).flatMap respArgument := by
      rw [List.flatMap_map]
      exact List.flatMap_congr hencode
    rw [hcommand, Command.encode, respCommand, List.length_map, ← hbody,
      (numeral_plain_iff c.count).1 htext]

/-- `GET k`. -/
theorem scanCommand_canonical_iff_get :
    IsCanonical ((ascii "*2\r\n$3\r\nGET\r\n$1\r\nk\r\n*1").take 20) := by
  have hscan : scanCommand 64 (ascii "*2\r\n$3\r\nGET\r\n$1\r\nk\r\n*1") = .command 20 2 := by
    decide +kernel
  exact (scanCommand_canonical_iff hscan).2 (by decide +kernel)

/-- `PING` with its length as `04`: it is cut out, the filter lets it through, and it is not what
Redis accepts. -/
theorem forwarded_zero_in_front :
    scanCommand 64 (ascii "*1\r\n$04\r\nPING\r\n") = .command 15 1 ∧
    changesConnection (ascii "*1\r\n$04\r\nPING\r\n") = false ∧
    ¬ IsCanonical (ascii "*1\r\n$04\r\nPING\r\n") := by
  have hscan : scanCommand 64 (ascii "*1\r\n$04\r\nPING\r\n") = .command 15 1 := by
    decide +kernel
  refine ⟨hscan, by decide +kernel, fun hc => ?_⟩
  have hplain := plainNumbers_of_canonical hscan hc
  exact absurd hplain (by decide +kernel)

end OpenIdea.Redis
