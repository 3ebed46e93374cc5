import Mathlib.Data.List.Basic
import Mathlib.Algebra.Order.Ring.Int

/-!
# Commands of the Redis proxy's clients

The proxy cuts the commands of a downstream session out of its receive buffer without taking them
apart: `ScanCommand` finds where a command ends, `ChangesConnection` looks at its name.  The numbers
of the protocol are read by `ReadLine`.

`readLine_iff` and `scanCommand_shape` say what is accepted; `scanCommand_append` that more input
does not change a command that is complete.
-/

set_option autoImplicit false

namespace OpenIdea.Redis

/-- The bytes of an ASCII text. -/
def ascii (s : String) : List UInt8 := s.toList.map fun c => UInt8.ofNat c.toNat

/-! ## Numbers -/

/-- The result of `ReadLine`: no end of line yet, a malformed number, or the number and what
follows. -/
inductive ReadLine (α : Type)
  | more
  | bad
  | value (v : α) (rest : List UInt8)
  deriving DecidableEq

/-- The loop of `ReadLine`, with `iValue` and `iDigits`. -/
def readDigits (value digits : Nat) : List UInt8 → ReadLine Nat
  | [] => .more
  | b :: rest =>
      if b = 13 then
        match rest with
        | [] => .more
        | c :: rest => if c ≠ 10 ∨ digits = 0 then .bad else .value value rest
      else if b < 48 ∨ 57 < b ∨ 18 ≤ digits then .bad
      else readDigits (value * 10 + (b.toNat - 48)) (digits + 1) rest

/-- `ReadLine`. -/
def readLine (bytes : List UInt8) : ReadLine Int :=
  match bytes with
  | 45 :: rest =>
      match readDigits 0 0 rest with
      | .more => .more
      | .bad => .bad
      | .value v rest => .value (-(v : Int)) rest
  | _ =>
      match readDigits 0 0 bytes with
      | .more => .more
      | .bad => .bad
      | .value v rest => .value v rest

/-- The value of decimal digits after `value`. -/
def decimal (value : Nat) (ds : List UInt8) : Nat :=
  ds.foldl (fun n d => n * 10 + (d.toNat - 48)) value

/-- At least one and at most eighteen decimal digits. -/
structure Digits (ds : List UInt8) : Prop where
  digit : ∀ d ∈ ds, 48 ≤ d ∧ d ≤ 57
  pos : 0 < ds.length
  length : ds.length ≤ 18

/-- The text of a number. -/
inductive Numeral : List UInt8 → Int → Prop
  | plus {ds : List UInt8} (h : Digits ds) : Numeral ds (decimal 0 ds)
  | minus {ds : List UInt8} (h : Digits ds) : Numeral (45 :: ds) (-(decimal 0 ds : Int))

theorem readDigits_iff {value digits v : Nat} {bytes rest : List UInt8} :
    readDigits value digits bytes = .value v rest ↔
    ∃ ds, bytes = ds ++ 13 :: 10 :: rest ∧ (∀ d ∈ ds, 48 ≤ d ∧ d ≤ 57) ∧
      0 < digits + ds.length ∧ (ds ≠ [] → digits + ds.length ≤ 18) ∧ v = decimal value ds := by
  induction bytes generalizing value digits with
  | nil =>
    refine ⟨fun h => (by cases h), ?_⟩
    rintro ⟨ds, hds, -⟩
    exact absurd hds.symm (by simp)
  | cons b bytes ih =>
    unfold readDigits
    split
    · rename_i hb
      subst hb
      -- the line ends here
      have hnil : ∀ {ds : List UInt8}, 13 :: bytes = ds ++ 13 :: 10 :: rest →
          (∀ d ∈ ds, 48 ≤ d ∧ d ≤ 57) → ds = [] := by
        intro ds hds hdigit
        cases ds with
        | nil => rfl
        | cons d ds =>
          have hd := hdigit d List.mem_cons_self
          rw [← (List.cons.inj hds).1] at hd
          exact absurd hd.1 (by decide)
      cases bytes with
      | nil =>
        refine ⟨fun h => (by cases h), ?_⟩
        rintro ⟨ds, hds, hdigit, -⟩
        obtain rfl := hnil hds hdigit
        cases hds
      | cons c bytes =>
        dsimp only
        split
        · rename_i hbad
          refine ⟨fun h => (by cases h), ?_⟩
          rintro ⟨ds, hds, hdigit, hpos, -⟩
          obtain rfl := hnil hds hdigit
          obtain ⟨rfl, -⟩ := List.cons.inj (List.cons.inj hds).2
          rcases hbad with hbad | hbad
          · exact absurd rfl hbad
          · rw [hbad] at hpos
            exact absurd hpos (Nat.lt_irrefl 0)
        · rename_i hgood
          obtain ⟨hc, hdig⟩ := not_or.1 hgood
          obtain rfl := not_not.1 hc
          constructor
          · intro h
            obtain ⟨rfl, rfl⟩ := ReadLine.value.inj h
            refine ⟨[], rfl, fun d hd => (by cases hd), ?_, fun h => absurd rfl h, rfl⟩
            rw [List.length_nil]
            omega
          · rintro ⟨ds, hds, hdigit, -, -, hv⟩
            obtain rfl := hnil hds hdigit
            obtain ⟨-, hrest⟩ := List.cons.inj (List.cons.inj hds).2
            rw [hv, hrest]
            rfl
    · rename_i hb
      split
      · rename_i hbad
        refine ⟨fun h => (by cases h), ?_⟩
        rintro ⟨ds, hds, hdigit, -, hlen, -⟩
        cases ds with
        | nil => exact absurd (List.cons.inj hds).1 hb
        | cons d ds =>
          obtain ⟨rfl, -⟩ := List.cons.inj hds
          have hd := hdigit b List.mem_cons_self
          have hle := hlen (List.cons_ne_nil b ds)
          rw [List.length_cons] at hle
          rcases hbad with hlow | hhigh | hmany
          · exact absurd hd.1 (UInt8.not_le.2 hlow)
          · exact absurd hd.2 (UInt8.not_le.2 hhigh)
          · omega
      · rename_i hgood
        have hlow : 48 ≤ b := UInt8.not_lt.1 fun h => hgood (Or.inl h)
        have hhigh : b ≤ 57 := UInt8.not_lt.1 fun h => hgood (Or.inr (Or.inl h))
        have hmany : digits < 18 := Nat.lt_of_not_le fun h => hgood (Or.inr (Or.inr h))
        rw [ih]
        constructor
        · rintro ⟨ds, rfl, hdigit, -, hlen, rfl⟩
          refine ⟨b :: ds, rfl, ?_, ?_, ?_, rfl⟩
          · intro d hd
            rcases List.mem_cons.1 hd with rfl | hd
            · exact ⟨hlow, hhigh⟩
            · exact hdigit d hd
          · rw [List.length_cons]
            omega
          · intro _
            rw [List.length_cons]
            cases ds with
            | nil =>
              rw [List.length_nil]
              omega
            | cons d ds =>
              have := hlen (List.cons_ne_nil d ds)
              omega
        · rintro ⟨ds, hds, hdigit, -, hlen, rfl⟩
          cases ds with
          | nil => exact absurd (List.cons.inj hds).1 hb
          | cons d ds =>
            obtain ⟨rfl, rfl⟩ := List.cons.inj hds
            have hle := hlen (List.cons_ne_nil b ds)
            rw [List.length_cons] at hle
            refine ⟨ds, rfl, fun d hd => hdigit d (List.mem_cons_of_mem b hd), ?_, ?_, rfl⟩
            · omega
            · intro _
              omega

theorem readDigits_zero_iff {v : Nat} {bytes rest : List UInt8} :
    readDigits 0 0 bytes = .value v rest ↔
    ∃ ds, Digits ds ∧ bytes = ds ++ 13 :: 10 :: rest ∧ v = decimal 0 ds := by
  rw [readDigits_iff]
  constructor
  · rintro ⟨ds, hbytes, hdigit, hpos, hlen, hv⟩
    rw [Nat.zero_add] at hpos hlen
    exact ⟨ds, ⟨hdigit, hpos, hlen (List.ne_nil_of_length_pos hpos)⟩, hbytes, hv⟩
  · rintro ⟨ds, hds, hbytes, hv⟩
    refine ⟨ds, hbytes, hds.digit, ?_, ?_, hv⟩
    · rw [Nat.zero_add]
      exact hds.pos
    · intro _
      rw [Nat.zero_add]
      exact hds.length

variable {v : Int} {count maxBytes : Nat}

/-- `ReadLine` reads exactly the numerals. -/
theorem readLine_iff {bytes rest : List UInt8} :
    readLine bytes = .value v rest ↔ ∃ text, Numeral text v ∧ bytes = text ++ 13 :: 10 :: rest := by
  unfold readLine
  split
  · rename_i tail
    constructor
    · intro h
      cases hr : readDigits 0 0 tail with
      | more | bad =>
        rw [hr] at h
        cases h
      | value n rest' =>
        rw [hr] at h
        obtain ⟨rfl, rfl⟩ := ReadLine.value.inj h
        obtain ⟨ds, hds, htail, hv⟩ := readDigits_zero_iff.1 hr
        rw [hv]
        exact ⟨45 :: ds, .minus hds, by rw [htail]; rfl⟩
    · rintro ⟨text, hn, hbytes⟩
      cases hn with
      | plus hds =>
        cases text with
        | nil => exact absurd hds.pos (Nat.lt_irrefl 0)
        | cons d ds =>
          have hd := hds.digit d List.mem_cons_self
          rw [← (List.cons.inj hbytes).1] at hd
          exact absurd hd.1 (by decide)
      | minus hds =>
        rw [readDigits_zero_iff.2 ⟨_, hds, (List.cons.inj hbytes).2, rfl⟩]
  · rename_i hminus
    constructor
    · intro h
      cases hr : readDigits 0 0 bytes with
      | more | bad =>
        rw [hr] at h
        cases h
      | value n rest' =>
        rw [hr] at h
        obtain ⟨rfl, rfl⟩ := ReadLine.value.inj h
        obtain ⟨ds, hds, hbytes, hv⟩ := readDigits_zero_iff.1 hr
        rw [hv]
        exact ⟨ds, .plus hds, hbytes⟩
    · rintro ⟨text, hn, hbytes⟩
      cases hn with
      | plus hds => rw [readDigits_zero_iff.2 ⟨_, hds, hbytes, rfl⟩]
      | minus hds => exact absurd hbytes (hminus _)

/-- What a reader gives when more input stands behind: only the rest is longer. -/
def ReadLine.extend {α : Type} (more : List UInt8) : ReadLine α → ReadLine α
  | .value v rest => .value v (rest ++ more)
  | r => r

variable {more : List UInt8}

theorem readDigits_settled {value digits : Nat} {bytes : List UInt8}
    (h : readDigits value digits bytes ≠ .more) :
    readDigits value digits (bytes ++ more) = (readDigits value digits bytes).extend more := by
  induction bytes generalizing value digits with
  | nil => exact absurd rfl h
  | cons b rest ih =>
    rw [List.cons_append]
    unfold readDigits at h ⊢
    by_cases hb : b = 13
    · simp only [if_pos hb] at h ⊢
      cases rest with
      | nil => exact absurd rfl h
      | cons c rest =>
        dsimp only [List.cons_append]
        split
        · rfl
        · rfl
    · simp only [if_neg hb] at h ⊢
      split at h
      · rename_i hd
        simp only [if_pos hd]
        rfl
      · rename_i hd
        simp only [if_neg hd]
        exact ih h

theorem readLine_minus (tail : List UInt8) :
    readLine (45 :: tail) =
      match readDigits 0 0 tail with
      | .more => .more
      | .bad => .bad
      | .value v rest => .value (-(v : Int)) rest := rfl

theorem readLine_plus {b : UInt8} (hb : b ≠ 45) (tail : List UInt8) :
    readLine (b :: tail) =
      match readDigits 0 0 (b :: tail) with
      | .more => .more
      | .bad => .bad
      | .value v rest => .value (v : Int) rest := by
  unfold readLine
  split
  · rename_i heq
    exact absurd (List.cons.inj heq).1 hb
  · rfl

/-- More input does not change a line that has an end. -/
theorem readLine_settled {bytes : List UInt8} (h : readLine bytes ≠ .more) :
    readLine (bytes ++ more) = (readLine bytes).extend more := by
  cases bytes with
  | nil => exact absurd rfl h
  | cons b tail =>
    by_cases hb : b = 45
    · subst hb
      rw [List.cons_append]
      rw [readLine_minus] at h ⊢
      rw [readLine_minus, readDigits_settled fun hm => h (by rw [hm])]
      cases readDigits 0 0 tail <;> rfl
    · rw [readLine_plus hb] at h
      rw [List.cons_append, readLine_plus hb, readLine_plus hb, ← List.cons_append,
        readDigits_settled fun hm => h (by rw [hm])]
      cases readDigits 0 0 (b :: tail) <;> rfl

/-! ## Commands -/

/-- `kMaxBulk` -/
def maxBulk : Nat := 512 * 1024 * 1024

/-- The result of `ScanCommand`: an incomplete command, a malformed one, or its size and
`iArgumentCount`. -/
inductive Scan
  | more
  | bad
  | command (size count : Nat)
  deriving DecidableEq, Repr

/-- The loop of `ScanCommand` with `left` arguments to go, at `pos` bytes from the start.  It gives
the size of the command. -/
def scanArguments (maxBytes : Nat) : Nat → Nat → List UInt8 → ReadLine Nat
  | 0, pos, rest => .value pos rest
  | left + 1, pos, bytes =>
      match bytes with
      | [] => .more
      | b :: bytes =>
          if b ≠ 36 then .bad
          else
            match readLine bytes with
            | .more => .more
            | .bad => .bad
            | .value length rest =>
                if length < 0 ∨ (maxBulk : Int) < length then .bad
                else
                  let n := length.toNat
                  let before := pos + 1 + (bytes.length - rest.length)
                  if maxBytes < before ∨ maxBytes - before < n + 2 then .bad
                  else if rest.length < n + 2 then .more
                  else if (rest.drop n).take 2 ≠ [13, 10] then .bad
                  else scanArguments maxBytes left (before + n + 2) (rest.drop (n + 2))

/-- `ScanCommand`. -/
def scanCommand (maxBytes : Nat) (bytes : List UInt8) : Scan :=
  match bytes with
  | [] => .more
  | b :: tail =>
      if b ≠ 42 then .bad
      else
        match readLine tail with
        | .more => .more
        | .bad => .bad
        | .value count rest =>
            if count ≤ 0 then .bad
            else
              match scanArguments maxBytes count.toNat (1 + (tail.length - rest.length)) rest with
              | .more => .more
              | .bad => .bad
              | .value size _ => .command size count.toNat

/-- An argument as it stands in a command: the text of its length, and the bytes. -/
structure Argument where
  text : List UInt8
  data : List UInt8
  length : Numeral text data.length
  short : data.length ≤ maxBulk

/-- The bytes of an argument. -/
def Argument.encode (a : Argument) : List UInt8 := 36 :: a.text ++ 13 :: 10 :: a.data ++ [13, 10]

/-- What was read is as long as before. -/
theorem length_read_append (bytes rest more : List UInt8) :
    (bytes ++ more).length - (rest ++ more).length = bytes.length - rest.length := by
  rw [List.length_append, List.length_append, Nat.add_sub_add_right]

theorem scanArguments_settled {left pos : Nat} {bytes : List UInt8}
    (h : scanArguments maxBytes left pos bytes ≠ .more) :
    scanArguments maxBytes left pos (bytes ++ more) =
      (scanArguments maxBytes left pos bytes).extend more := by
  induction left generalizing pos bytes with
  | zero => rfl
  | succ left ih =>
    cases bytes with
    | nil => exact absurd rfl h
    | cons b bytes =>
      unfold scanArguments at h ⊢
      rw [List.cons_append]
      dsimp only at h ⊢
      by_cases hb : b ≠ 36
      · simp only [if_pos hb]
        rfl
      simp only [if_neg hb] at h ⊢
      have hline := @readLine_settled more bytes
      cases hr : readLine bytes with
      | more => exact absurd (by rw [hr]) h
      | bad =>
        rw [hr] at hline
        rw [hline (by simp)]
        rfl
      | value length tail =>
        rw [hr] at hline h
        rw [hline (by simp)]
        dsimp only [ReadLine.extend] at h ⊢
        rw [length_read_append]
        split at h
        · rename_i hlen
          simp only [if_pos hlen]
        rename_i hlen
        simp only [if_neg hlen]
        split at h
        · rename_i hmax
          simp only [if_pos hmax]
        rename_i hmax
        simp only [if_neg hmax]
        split at h
        · exact absurd rfl h
        rename_i hfull
        -- the bytes of the argument are all there
        have hfull' : ¬ (tail ++ more).length < length.toNat + 2 := by
          rw [List.length_append]
          omega
        have hend :
            ((tail ++ more).drop length.toNat).take 2 = (tail.drop length.toNat).take 2 := by
          rw [List.drop_append_of_le_length (by omega),
            List.take_append_of_le_length (by rw [List.length_drop]; omega)]
        simp only [if_neg hfull, if_neg hfull', hend]
        split at h
        · rename_i hbad
          simp only [if_pos hbad]
        rename_i hok
        simp only [if_neg hok]
        rw [List.drop_append_of_le_length (by omega)]
        exact ih h

/-- **More input does not change an answer of `ScanCommand`.** -/
theorem scanCommand_settled {bytes : List UInt8} (h : scanCommand maxBytes bytes ≠ .more) :
    scanCommand maxBytes (bytes ++ more) = scanCommand maxBytes bytes := by
  cases bytes with
  | nil => exact absurd rfl h
  | cons b tail =>
    unfold scanCommand at h ⊢
    rw [List.cons_append]
    dsimp only at h ⊢
    by_cases hb : b ≠ 42
    · simp only [if_pos hb]
    simp only [if_neg hb] at h ⊢
    have hline := @readLine_settled more tail
    cases hr : readLine tail with
    | more => exact absurd (by rw [hr]) h
    | bad =>
      rw [hr] at hline
      rw [hline (by simp)]
      rfl
    | value n rest =>
      rw [hr] at hline h
      rw [hline (by simp)]
      dsimp only [ReadLine.extend] at h ⊢
      rw [length_read_append]
      split at h
      · rename_i hpos
        simp only [if_pos hpos]
      rename_i hpos
      simp only [if_neg hpos] at h ⊢
      have hargs := @scanArguments_settled maxBytes more n.toNat
        (1 + (tail.length - rest.length)) rest
      cases hs : scanArguments maxBytes n.toNat (1 + (tail.length - rest.length)) rest with
      | more => exact absurd (by rw [hs]) h
      | bad | value size rest' =>
        rw [hs] at hargs
        rw [hargs (by simp)]
        rfl

theorem scanCommand_append {size : Nat} {bytes : List UInt8}
    (h : scanCommand maxBytes bytes = .command size count) (more : List UInt8) :
    scanCommand maxBytes (bytes ++ more) = .command size count := by
  rw [scanCommand_settled (by simp [h]), h]

/-- What the loop of `ScanCommand` has passed over. -/
theorem scanArguments_shape (left : Nat) :
    ∀ {pos size : Nat} {bytes rest : List UInt8},
      scanArguments maxBytes left pos bytes = .value size rest →
      ∃ arguments : List Argument, arguments.length = left ∧
        bytes = arguments.flatMap Argument.encode ++ rest ∧
        size = pos + (arguments.flatMap Argument.encode).length := by
  induction left with
  | zero =>
    intro pos size bytes rest h
    obtain ⟨rfl, rfl⟩ := ReadLine.value.inj h
    exact ⟨[], rfl, rfl, rfl⟩
  | succ left ih =>
    intro pos size bytes rest h
    cases bytes with
    | nil => cases h
    | cons b bytes =>
      unfold scanArguments at h
      dsimp only at h
      split at h
      · cases h
      rename_i hb
      obtain rfl := not_not.1 hb
      cases hr : readLine bytes with
      | more | bad =>
        rw [hr] at h
        cases h
      | value length tail =>
        rw [hr] at h
        dsimp only at h
        obtain ⟨text, hn, rfl⟩ := readLine_iff.1 hr
        split at h
        · cases h
        rename_i hlen
        split at h
        · cases h
        split at h
        · cases h
        rename_i hfull
        split at h
        · cases h
        rename_i hend
        obtain ⟨arguments, hcount, htail, hsize⟩ := ih h
        have hdata : (tail.take length.toNat).length = length.toNat := by
          rw [List.length_take]
          omega
        have hcut :
            tail = tail.take length.toNat ++ ([13, 10] ++ tail.drop (length.toNat + 2)) := by
          rw [← not_not.1 hend, ← List.drop_drop, List.take_append_drop, List.take_append_drop]
        refine ⟨⟨text, tail.take length.toNat, ?_, ?_⟩ :: arguments, ?_, ?_, ?_⟩
        · rw [hdata, Int.toNat_of_nonneg (by omega)]
          exact hn
        · rw [hdata]
          omega
        · rw [List.length_cons, hcount]
        · rw [List.flatMap_cons]
          conv_lhs => rw [hcut, htail]
          simp [Argument.encode]
        · rw [hsize, List.flatMap_cons, List.length_append]
          simp only [Argument.encode, List.length_append, List.length_cons, List.length_nil,
            hdata]
          omega

/-- **What `ScanCommand` cuts out.**  The command is the start of the input: the number of
arguments, and so many arguments. -/
theorem scanCommand_shape {size : Nat} {bytes : List UInt8}
    (h : scanCommand maxBytes bytes = .command size count) :
    ∃ (text : List UInt8) (first : Argument) (others : List Argument) (rest : List UInt8),
      Numeral text count ∧ others.length + 1 = count ∧
      bytes = (42 :: text ++ 13 :: 10 :: first.encode ++ others.flatMap Argument.encode) ++ rest ∧
      size = (42 :: text ++ 13 :: 10 :: first.encode ++ others.flatMap Argument.encode).length := by
  cases bytes with
  | nil => cases h
  | cons b tail =>
    unfold scanCommand at h
    dsimp only at h
    split at h
    · cases h
    rename_i hb
    obtain rfl := not_not.1 hb
    cases hr : readLine tail with
    | more | bad =>
      rw [hr] at h
      cases h
    | value n rest =>
      rw [hr] at h
      dsimp only at h
      split at h
      · cases h
      rename_i hpos
      cases hs : scanArguments maxBytes n.toNat (1 + (tail.length - rest.length)) rest with
      | more | bad =>
        rw [hs] at h
        cases h
      | value size' rest' =>
        rw [hs] at h
        obtain ⟨rfl, rfl⟩ := Scan.command.inj h
        obtain ⟨text, hn, rfl⟩ := readLine_iff.1 hr
        obtain ⟨arguments, hcount, rfl, rfl⟩ := scanArguments_shape _ hs
        cases arguments with
        | nil =>
          rw [List.length_nil] at hcount
          omega
        | cons first others =>
          refine ⟨text, first, others, rest', ?_, ?_, ?_, ?_⟩
          · rw [Int.toNat_of_nonneg (by omega)]
            exact hn
          · rw [← hcount, List.length_cons]
          · simp [List.flatMap_cons]
          · simp only [List.flatMap_cons, List.length_append, List.length_cons]
            omega

/-- A command is not empty, and it is a part of the input. -/
theorem scanCommand_size {size : Nat} {bytes : List UInt8}
    (h : scanCommand maxBytes bytes = .command size count) : 0 < size ∧ size ≤ bytes.length := by
  obtain ⟨text, first, others, rest, -, -, hbytes, hsize⟩ := scanCommand_shape h
  refine ⟨?_, ?_⟩
  · rw [hsize]
    exact Nat.succ_pos _
  · have hlen := congrArg List.length hbytes
    rw [List.length_append, ← hsize] at hlen
    omega

/-! ## The filter -/

/-- The byte in upper case. -/
def upper (b : UInt8) : UInt8 := if 97 ≤ b ∧ b ≤ 122 then b - 32 else b

/-- `vCommands` of `ChangesConnection`. -/
def connectionCommands : List (List UInt8) :=
  ["SELECT", "AUTH", "HELLO", "RESET", "QUIT", "MULTI", "EXEC", "DISCARD", "WATCH", "UNWATCH",
    "CLIENT", "MONITOR", "SUBSCRIBE", "PSUBSCRIBE", "SSUBSCRIBE", "UNSUBSCRIBE", "PUNSUBSCRIBE",
    "SUNSUBSCRIBE", "READONLY", "READWRITE", "ASKING", "SYNC", "PSYNC", "REPLCONF"].map ascii

/-- `sAsyncCommand`: the name without a leading `P`. -/
def asyncName (name : List UInt8) : List UInt8 :=
  match name with
  | 80 :: rest => rest
  | _ => name

/-- The name is the word, or goes on after it with an end of line. -/
def named (word name : List UInt8) : Bool :=
  name == word || (word ++ [13, 10]).isPrefixOf name

/-- The branches of hiredis that the filter knows of. -/
def changesAsync (count : Int) (name : List UInt8) : Bool :=
  named (ascii "MONITOR") (asyncName name) || named (ascii "UNSUBSCRIBE") (asyncName name) ||
    (decide (2 ≤ count) && named (ascii "SUBSCRIBE") (asyncName name))

/-- `SCRIPT DEBUG`, or a subcommand of `SCRIPT` that holds a NUL; `p` is the second argument. -/
def changesScript (p : List UInt8) : Bool :=
  match readLine (p.drop 1) with
  | .value length p =>
      let subcommand := (p.take length.toNat).map upper
      subcommand == ascii "DEBUG" || subcommand.contains 0
  | _ => false

/-- `ChangesConnection`, on a command that `ScanCommand` has cut out. -/
def changesConnection (bytes : List UInt8) : Bool :=
  match readLine (bytes.drop 1) with
  | .value count p =>
      match readLine (p.drop 1) with
      | .value length p =>
          let name := (p.take length.toNat).map upper
          if changesAsync count name then true
          else if name = ascii "SCRIPT" ∧ 2 ≤ count ∧ changesScript (p.drop (length.toNat + 2)) then true
          else connectionCommands.contains name
      | _ => false
  | _ => false

theorem readLine_numeral {text : List UInt8} (h : Numeral text v) (rest : List UInt8) :
    readLine (text ++ 13 :: 10 :: rest) = .value v rest :=
  readLine_iff.2 ⟨text, h, rfl⟩

/-- What the filter lets through: the name of the command is none that it knows. -/
theorem changesConnection_false {text : List UInt8} {count : Int} (hn : Numeral text count)
    (first : Argument) (rest : List UInt8)
    (h : changesConnection (42 :: text ++ 13 :: 10 :: first.encode ++ rest) = false) :
    changesAsync count (first.data.map upper) = false ∧
    connectionCommands.contains (first.data.map upper) = false := by
  have hline : readLine ((42 :: text ++ 13 :: 10 :: first.encode ++ rest).drop 1) =
      .value count (first.encode ++ rest) := by
    rw [show (42 :: text ++ 13 :: 10 :: first.encode ++ rest).drop 1 =
      text ++ 13 :: 10 :: (first.encode ++ rest) by simp]
    exact readLine_numeral hn _
  have hargument : readLine ((first.encode ++ rest).drop 1) =
      .value first.data.length (first.data ++ ([13, 10] ++ rest)) := by
    rw [show (first.encode ++ rest).drop 1 =
      first.text ++ 13 :: 10 :: (first.data ++ ([13, 10] ++ rest)) by simp [Argument.encode]]
    exact readLine_numeral first.length _
  unfold changesConnection at h
  rw [hline] at h
  dsimp only at h
  rw [hargument] at h
  dsimp only at h
  rw [Int.toNat_natCast, List.take_left] at h
  split at h
  · cases h
  rename_i hasync
  split at h
  · cases h
  exact ⟨Bool.eq_false_of_not_eq_true hasync, h⟩

end OpenIdea.Redis
