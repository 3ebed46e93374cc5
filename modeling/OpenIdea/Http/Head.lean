import Mathlib.Data.FinEnum
import Mathlib.Data.List.GetD
import Mathlib.Data.List.TakeWhile
import OpenIdea.Lib.Decimal
import OpenIdea.Http.Segments

/-!
# Header blocks as they are sent

A header block is a status line and fields, one a line, with an empty line at the end. A field is a
name and a value with blanks around the value. The fields that decide how the body ends are
`Content-Length` and `Transfer-Encoding`, in any order, any case and any number.

`parseHeaders_head` says what `ParseHeaders` makes of a block: it reads the lines one after the
other, whatever follows the block. `readFields_good` and `readFields_true` say when it accepts the
fields, and what it then knows of the body.
-/

set_option autoImplicit false

namespace OpenIdea.Http

open OpenIdea.Lib OpenIdea.Lib.Search OpenIdea.Lib.Rounds

/-! ## Numbers -/

theorem isDigit_eq (c : UInt8) : isDigit c = decide (Decimal.IsDigit c) := by
  rw [isDigit, ← Bool.decide_and]
  exact decide_eq_decide.2 (and_congr UInt8.le_iff_toNat_le UInt8.le_iff_toNat_le)

/-- The number that more digits make of a number. -/
def moreDigits (n : Nat) (text : List UInt8) : Nat :=
  text.foldl (fun n c => n * 10 + (c.toNat - 48)) n

theorem le_moreDigits (text : List UInt8) : ∀ n, n ≤ moreDigits n text := by
  induction text with
  | nil =>
    intro n
    exact Nat.le_refl n
  | cons c rest ih =>
    intro n
    have hstep : n ≤ n * 10 + (c.toNat - 48) := by omega
    exact Nat.le_trans hstep (ih _)

/-- The guard of the loop lets a number pass exactly if it fits. -/
theorem parseU64Loop_eq (text : List UInt8) :
    ∀ {n : Nat}, n < 2 ^ 64 → parseU64Loop n text =
      if (∀ c ∈ text, Decimal.IsDigit c) ∧ moreDigits n text < 2 ^ 64 then
        some (moreDigits n text) else none := by
  induction text with
  | nil =>
    intro n hn
    exact (if_pos ⟨fun c hc => absurd hc List.not_mem_nil, hn⟩).symm
  | cons c rest ih =>
    intro n hn
    rw [parseU64Loop, isDigit_eq]
    by_cases hdigit : Decimal.IsDigit c
    · have hrange := hdigit.2
      have hmore : moreDigits n (c :: rest) = moreDigits (n * 10 + (c.toNat - 48)) rest := rfl
      rw [decide_eq_true hdigit, if_pos rfl, hmore]
      dsimp only
      by_cases hover : n > (2 ^ 64 - 1 - (c.toNat - 48)) / 10
      · rw [if_pos hover, if_neg]
        rintro ⟨-, hfits⟩
        have hle := le_moreDigits rest (n * 10 + (c.toNat - 48))
        omega
      · rw [if_neg hover, ih (by omega)]
        exact if_congr (by rw [List.forall_mem_cons, and_iff_right hdigit]) rfl rfl
    · rw [decide_eq_false hdigit, if_neg Bool.false_ne_true, if_neg]
      rintro ⟨hall, -⟩
      exact hdigit (hall c List.mem_cons_self)

/-- **`ParseU64` reads the numerals of 64 bits.** -/
theorem parseU64_eq (text : List UInt8) : parseU64 text =
    if Decimal.IsNumeral text ∧ Decimal.value text < 2 ^ 64 then some (Decimal.value text)
    else none := by
  rw [parseU64]
  cases text with
  | nil => exact (if_neg fun h => h.1.1 rfl).symm
  | cons c rest =>
    have hloop := parseU64Loop_eq (c :: rest) (n := 0) (by decide)
    rw [List.isEmpty_cons, if_neg Bool.false_ne_true, hloop]
    exact if_congr
      (and_congr_left fun _ => (and_iff_right (List.cons_ne_nil c rest)).symm) rfl rfl

/-! ## Fields -/

/-- A text that has no line end in it. -/
def IsLine (text : List UInt8) : Prop := ¬ crlf <:+: text

instance (text : List UInt8) : Decidable (IsLine text) := inferInstanceAs (Decidable (¬ _))

theorem isLine_append {text line : List UInt8} (htext : 13 ∉ text) (h : IsLine line) :
    IsLine (text ++ line) := by
  rintro ⟨before, rest, heq⟩
  -- the line end would lie in `line`, or begin in `text`
  rcases List.append_eq_append_iff.1 (heq.symm.trans (List.append_assoc before crlf rest)) with
    ⟨tail, rfl, hline⟩ | ⟨tail, htext', htail⟩
  · exact h ⟨tail, rest, by rw [hline, List.append_assoc]⟩
  · cases tail with
    | nil => exact h ⟨[], rest, htail⟩
    | cons c tail =>
      have hc : c = 13 := (List.cons.inj htail).1.symm
      exact htext (by rw [htext', hc]; exact List.mem_append_right _ List.mem_cons_self)

/-- A header field. -/
structure Field where
  name : List UInt8
  /-- The number of blanks between the name and the colon. -/
  gap : Nat
  left : List UInt8
  value : List UInt8
  right : List UInt8
  name_colon : 58 ∉ name
  name_end : name.getLast? ≠ some 32
  left_blank : ∀ c ∈ left, isBlank c = true
  right_blank : ∀ c ∈ right, isBlank c = true
  value_start : ∀ c ∈ value.head?, isBlank c = false
  value_end : ∀ c ∈ value.getLast?, isBlank c = false
  line : IsLine (name ++ List.replicate gap 32 ++ 58 :: (left ++ value ++ right))

def Field.text (f : Field) : List UInt8 :=
  f.name ++ List.replicate f.gap 32 ++ 58 :: (f.left ++ f.value ++ f.right)

theorem trimEnd_append {blank : UInt8 → Bool} {text tail : List UInt8}
    (htail : ∀ c ∈ tail, blank c = true) (hend : ∀ c ∈ text.getLast?, blank c = false) :
    trimEnd blank (text ++ tail) = text := by
  -- from the end on: all of the tail goes, and no byte of the text
  have hdrop : (tail.reverse ++ text.reverse).dropWhile blank = text.reverse := by
    rw [List.dropWhile_append_of_pos fun c hc => htail c (List.mem_reverse.1 hc)]
    cases hrev : text.reverse with
    | nil => rfl
    | cons c rest =>
      have hlast : text.getLast? = some c := by
        rw [← List.head?_reverse, hrev]
        rfl
      exact List.dropWhile_cons_of_neg (by rw [hend c hlast]; exact Bool.false_ne_true)
  rw [trimEnd, List.reverse_append, hdrop, List.reverse_reverse]

theorem find_colon (before rest : List UInt8) (h : 58 ∉ before) :
    find [58] (before ++ 58 :: rest) = some before.length := by
  refine find_eq_some.2 ⟨?_, ?_, fun j hj hp => ?_⟩
  · rw [List.drop_left]
    exact ⟨rest, rfl⟩
  · rw [List.length_append]
    exact Nat.le_add_right _ _
  · rw [List.drop_append_of_le_length (Nat.le_of_lt hj), List.drop_eq_getElem_cons hj] at hp
    obtain ⟨hc, -⟩ := List.cons_prefix_cons.1 hp
    exact h (hc ▸ List.getElem_mem hj)

/-- What `ParseHeaders` does with the name and the value of a field. -/
def fieldLine (p : Parser) (name value : List UInt8) : Bool × Parser :=
  if eqName name (ascii "content-length") then
    match parseU64 value with
    | none => (false, p)
    | some length =>
        if (p.status ≠ 304 ∧ p.status ≥ 200 ∧ length > kMaxBody) ∨
            (p.hasLength = true ∧ p.contentLength ≠ length) then (false, p)
        else (true, { p with hasLength := true, contentLength := length })
  else if eqName name (ascii "transfer-encoding") then
    if p.chunked ∨ value.map lower ≠ ascii "chunked" then (false, p)
    else (true, { p with chunked := true })
  else if eqName name (ascii "connection") then (true, noteConnection p value)
  else (true, p)

/-- The line of a field is taken apart as it was put together. -/
theorem headerLine_field (p : Parser) (f : Field) :
    headerLine p f.text = fieldLine p f.name f.value := by
  have hcolon : 58 ∉ f.name ++ List.replicate f.gap 32 := by
    rw [List.mem_append, not_or]
    exact ⟨f.name_colon, fun hmem => absurd (List.eq_of_mem_replicate hmem) (by decide)⟩
  have hname : trimEnd (· == 32) (f.name ++ List.replicate f.gap 32) = f.name := by
    refine trimEnd_append (fun c hc => ?_) fun c hc => ?_
    · rw [List.eq_of_mem_replicate hc]
      rfl
    · exact beq_eq_false_iff_ne.2 fun he => f.name_end (he ▸ hc)
  have hleft : (f.left ++ f.value ++ f.right).dropWhile isBlank =
      (f.value ++ f.right).dropWhile isBlank := by
    rw [List.append_assoc, List.dropWhile_append_of_pos f.left_blank]
  have hvalue : trimEnd isBlank ((f.left ++ f.value ++ f.right).dropWhile isBlank) = f.value := by
    rw [hleft]
    cases hv : f.value with
    | nil =>
      have hnone : f.right.dropWhile isBlank = [] :=
        List.dropWhile_eq_nil_iff.2 f.right_blank
      rw [List.nil_append, hnone]
      rfl
    | cons c rest =>
      have hstart : isBlank c = false := f.value_start c (by rw [hv]; rfl)
      rw [List.cons_append, List.dropWhile_cons_of_neg (by rw [hstart]; exact Bool.false_ne_true),
        ← List.cons_append]
      exact trimEnd_append f.right_blank (hv ▸ f.value_end)
  rw [headerLine, Field.text, find_colon _ _ hcolon]
  dsimp only
  rw [List.take_left, hname, ← List.drop_drop, List.drop_left, List.drop_one, List.tail_cons, hvalue]
  rfl

/-! ## Blocks of lines -/

/-- The lines, each with its end. -/
def block (lines : List (List UInt8)) : List UInt8 := lines.flatMap (· ++ crlf)

@[simp] theorem block_nil : block [] = [] := rfl

theorem block_cons (line : List UInt8) (lines : List (List UInt8)) (rest : List UInt8) :
    block (line :: lines) ++ rest = line ++ 13 :: 10 :: (block lines ++ rest) := by
  simp [block, crlf]

theorem length_block_cons (line : List UInt8) (lines : List (List UInt8)) :
    (block (line :: lines)).length = line.length + 2 + (block lines).length := by
  rw [block, List.flatMap_cons, List.length_append, List.length_append]
  rfl

theorem length_le_block (lines : List (List UInt8)) : lines.length ≤ (block lines).length := by
  induction lines with
  | nil => exact Nat.le_refl 0
  | cons line lines ih =>
    rw [length_block_cons, List.length_cons]
    omega

theorem findFrom_line {line : List UInt8} (h : IsLine line) (before rest : List UInt8) :
    findFrom crlf (before ++ (line ++ 13 :: 10 :: rest)) before.length =
      some (before.length + line.length) :=
  findFrom_pair (by decide) h before rest

/-- A line that is not empty does not look like the end of another. -/
theorem not_crlf_prefix {line : List UInt8} (h : IsLine line) (hne : line ≠ []) (rest : List UInt8) :
    ¬ crlf <+: line ++ 13 :: 10 :: rest := by
  have hpos : 0 < line.length := List.length_pos_of_ne_nil hne
  exact not_prefix_before (by decide) h (10 :: rest) hpos

/-- The empty line at the end of a block is where the first two line ends meet. -/
theorem find_block {lines : List (List UInt8)} : ∀ {line : List UInt8}, IsLine line →
    (∀ l ∈ lines, IsLine l ∧ l ≠ []) → ∀ rest : List UInt8,
    find crlfcrlf (block (line :: lines) ++ 13 :: 10 :: rest) =
      some (line.length + (block lines).length) := by
  induction lines with
  | nil =>
    intro line hline _ rest
    rw [block_cons]
    refine find_eq_some.2 ⟨?_, ?_, fun j hj hp => ?_⟩
    · rw [block_nil, List.length_nil, Nat.add_zero, List.drop_left]
      exact ⟨rest, rfl⟩
    · rw [block_nil, List.length_append]
      exact Nat.le_add_right _ _
    · exact not_prefix_before (by decide) hline _ hj (crlf_of_crlfcrlf hp)
  | cons next lines ih =>
    intro line hline hlines rest
    obtain ⟨⟨hnext, hne⟩, hlines⟩ := List.forall_mem_cons.1 hlines
    -- two line ends do not meet in a line, nor where a line that is not empty follows
    have hskip : ∀ j < line.length + 2,
        ¬ crlfcrlf <+: (block (line :: next :: lines) ++ 13 :: 10 :: rest).drop j := by
      intro j hj hp
      rw [block_cons, block_cons] at hp
      rcases Nat.lt_or_ge j line.length with hlt | hge
      · exact not_prefix_before (by decide) hline _ hlt (crlf_of_crlfcrlf hp)
      · obtain ⟨i, rfl⟩ := Nat.exists_eq_add_of_le hge
        rw [← List.drop_drop, List.drop_left] at hp
        have hi : i = 0 ∨ i = 1 := by omega
        rcases hi with rfl | rfl
        · -- the end of this line, and the next line is not empty
          have hp : crlfcrlf <+: crlf ++ (next ++ 13 :: 10 :: (block lines ++ 13 :: 10 :: rest)) := hp
          exact not_crlf_prefix hnext hne _ ((List.prefix_append_right_inj crlf).1 hp)
        · exact absurd (List.cons_prefix_cons.1 hp).1 (by decide)
    have hlen : line.length + 2 ≤ (block (line :: next :: lines) ++ 13 :: 10 :: rest).length := by
      rw [List.length_append, length_block_cons]
      omega
    have hdrop : (block (line :: next :: lines) ++ 13 :: 10 :: rest).drop (line.length + 2) =
        block (next :: lines) ++ 13 :: 10 :: rest := by
      rw [block_cons, ← List.drop_drop, List.drop_left]
      rfl
    rw [find_skip hlen hskip, hdrop, ih hnext hlines rest, Option.map_some, length_block_cons]
    congr 1
    omega

/-- Lines one after the other. -/
def readLines : Parser → List (List UInt8) → Bool × Parser
  | p, [] => (true, p)
  | p, line :: lines =>
      match headerLine p line with
      | (false, p) => (false, p)
      | (true, p) => readLines p lines

/-- The loop over the header lines reads the lines of the block. -/
theorem headerLines_block {text rest : List UInt8} {headerEnd : Nat} {lines : List (List UInt8)} :
    ∀ {fuel : Nat} {before : List UInt8} (p : Parser),
      (∀ l ∈ lines, IsLine l ∧ l ≠ []) → text = before ++ (block lines ++ 13 :: 10 :: rest) →
      headerEnd + 2 = before.length + (block lines).length → lines.length ≤ fuel →
      headerLines text headerEnd fuel before.length p = readLines p lines := by
  induction lines with
  | nil =>
    intro fuel before p _ htext hend _
    rw [block_nil, List.length_nil] at hend
    cases fuel with
    | zero => rfl
    | succ fuel => rw [headerLines, if_neg (by omega), readLines]
  | cons line lines ih =>
    intro fuel before p hlines htext hend hfuel
    obtain ⟨⟨hline, hne⟩, hlines⟩ := List.forall_mem_cons.1 hlines
    have hpos : 0 < line.length := List.length_pos_of_ne_nil hne
    rw [length_block_cons] at hend
    cases fuel with
    | zero => exact absurd hfuel (Nat.not_succ_le_zero _)
    | succ fuel =>
      have hnext : text = (before ++ line ++ crlf) ++ (block lines ++ 13 :: 10 :: rest) := by
        rw [htext, block_cons]
        simp [crlf]
      have hlength : (before ++ line ++ crlf).length = before.length + line.length + 2 := by
        rw [List.length_append, List.length_append]
        rfl
      have hslice : slice text before.length (before.length + line.length) = line := by
        rw [htext, block_cons, slice, ← List.append_assoc, ← List.length_append, List.take_left,
          List.drop_left]
      rw [headerLines, if_pos (by omega)]
      rw [htext, block_cons, findFrom_line hline, ← block_cons, ← htext]
      dsimp only
      rw [if_neg (by omega), hslice, readLines]
      cases headerLine p line with
      | mk ok q =>
        cases ok with
        | false => rfl
        | true =>
          dsimp only
          rw [← hlength]
          exact ih q hlines hnext (by omega) (Nat.le_of_succ_le_succ hfuel)

/-! ## Header blocks -/

/-- A header block: interim or final, of HTTP/1.1 or of HTTP/1.0. -/
structure Head where
  modern : Bool
  code : Nat
  /-- What follows the code: nothing, or a blank and a text. -/
  reason : List UInt8
  fields : List Field
  code_range : 100 ≤ code ∧ code ≤ 599
  code_switch : code ≠ 101
  reason_start : ∀ c ∈ reason.head?, c = 32
  reason_line : IsLine reason

namespace Head

def version (h : Head) : List UInt8 := if h.modern then ascii "HTTP/1.1 " else ascii "HTTP/1.0 "

/-- The three digits of a status code. -/
def digits (code : Nat) : List UInt8 :=
  [code % 10, code / 10 % 10, code / 100].reverse.map fun d => UInt8.ofNat (48 + d)

def statusLine (h : Head) : List UInt8 := h.version ++ (digits h.code ++ h.reason)

def bytes (h : Head) : List UInt8 := block (h.statusLine :: h.fields.map Field.text) ++ crlf

theorem length_version (h : Head) : h.version.length = 9 := by
  rw [version]
  split
  · rfl
  · rfl

theorem length_digits (code : Nat) : (digits code).length = 3 := rfl

theorem parseU64_digits {code : Nat} (h : code ≤ 599) : parseU64 (digits code) = some code := by
  have hsmall : ∀ d ∈ [code % 10, code / 10 % 10, code / 100], d < 10 := by
    simp only [List.forall_mem_cons]
    refine ⟨by omega, by omega, by omega, fun d hd => absurd hd List.not_mem_nil⟩
  have hvalue : Decimal.value (digits code) = code := by
    rw [digits, Decimal.value_digits hsmall]
    simp only [Nat.ofDigits_cons, Nat.ofDigits_nil]
    omega
  have hnumeral : Decimal.IsNumeral (digits code) := by
    refine ⟨List.cons_ne_nil _ _, fun c hc => ?_⟩
    obtain ⟨d, hd, rfl⟩ := List.mem_map.1 hc
    exact Decimal.isDigit_digit (hsmall d (List.mem_reverse.1 hd))
  rw [parseU64_eq, hvalue, if_pos ⟨hnumeral, by omega⟩]

/-- The status line is read. -/
theorem statusCode_statusLine (h : Head) : statusCode h.statusLine = some h.code := by
  have hversion := h.length_version
  have hlength : h.statusLine.length = 12 + h.reason.length := by
    rw [statusLine, List.length_append, List.length_append, hversion, length_digits]
    omega
  have htake : h.statusLine.take 9 = h.version := by
    rw [statusLine, ← hversion, List.take_left]
  have hcode : slice h.statusLine 9 12 = digits h.code := by
    have hthree : 12 - 9 = (digits h.code).length := rfl
    rw [slice, List.drop_take, hthree, statusLine, ← hversion, List.drop_left, List.take_left]
  have hblank : ¬ (12 < h.statusLine.length ∧ h.statusLine.getD 12 0 ≠ 32) := by
    rintro ⟨hlong, hne⟩
    refine hne ?_
    cases hreason : h.reason with
    | nil =>
      rw [hlength, hreason] at hlong
      exact absurd hlong (Nat.lt_irrefl 12)
    | cons c rest =>
      have hc := h.reason_start c (by rw [hreason]; rfl)
      rw [statusLine, hreason, hc, ← List.append_assoc, List.getD_append_right]
      · rw [List.length_append, hversion, length_digits]
        rfl
      · rw [List.length_append, hversion, length_digits]
  have hknown : ¬ (h.version ≠ ascii "HTTP/1.1 " ∧ h.version ≠ ascii "HTTP/1.0 ") := by
    rw [version]
    split
    · exact fun hb => hb.1 rfl
    · exact fun hb => hb.2 rfl
  rw [statusCode, htake, if_neg (not_or.2 ⟨by omega, hknown⟩), if_neg hblank, hcode,
    parseU64_digits h.code_range.2]
  dsimp only
  have hrange := h.code_range
  have hswitch := h.code_switch
  rw [if_neg (by omega)]

theorem isLine_statusLine (h : Head) : IsLine h.statusLine := by
  have hversion : 13 ∉ h.version := by
    rw [version]
    split
    · decide
    · decide
  have hdigits : 13 ∉ digits h.code := by
    intro hmem
    obtain ⟨d, hd, heq⟩ := List.mem_map.1 hmem
    have hrange := h.code_range
    have hsmall : d < 10 := by
      simp only [List.mem_reverse, List.mem_cons, List.not_mem_nil, or_false] at hd
      omega
    have htoNat := Decimal.toNat_digit hsmall
    rw [heq] at htoNat
    have : (13 : UInt8).toNat = 13 := rfl
    omega
  exact isLine_append hversion (isLine_append hdigits h.reason_line)

theorem fields_lines (h : Head) : ∀ l ∈ h.fields.map Field.text, IsLine l ∧ l ≠ [] := by
  intro l hl
  obtain ⟨f, -, rfl⟩ := List.mem_map.1 hl
  exact ⟨f.line, List.append_ne_nil_of_right_ne_nil _ (List.cons_ne_nil _ _)⟩

/-- Where the header block ends. -/
theorem find_bytes (h : Head) (rest : List UInt8) :
    find crlfcrlf (h.bytes ++ rest) = some (h.bytes.length - 4) := by
  have hfind := find_block h.isLine_statusLine h.fields_lines rest
  have hlength : h.bytes.length =
      h.statusLine.length + 2 + (block (h.fields.map Field.text)).length + 2 := by
    rw [bytes, List.length_append, length_block_cons]
    rfl
  rw [bytes, List.append_assoc]
  show find crlfcrlf (block _ ++ 13 :: 10 :: rest) = some (h.bytes.length - 4)
  rw [hfind]
  congr 1
  omega

end Head

/-- Fields one after the other. -/
def readFields : Parser → List Field → Bool × Parser
  | p, [] => (true, p)
  | p, f :: fields =>
      match fieldLine p f.name f.value with
      | (false, p) => (false, p)
      | (true, p) => readFields p fields

theorem readLines_fields : ∀ (p : Parser) (fields : List Field),
    readLines p (fields.map Field.text) = readFields p fields := by
  intro p fields
  induction fields generalizing p with
  | nil => rfl
  | cons f fields ih =>
    rw [List.map_cons, readLines, readFields, headerLine_field]
    cases fieldLine p f.name f.value with
    | mk ok q =>
      cases ok with
      | false => rfl
      | true => exact ih q

/-- The fields of the parser after the status line. -/
def Parser.afterStatus (p : Parser) (h : Head) : Parser :=
  { p with
    status := h.code, hasLength := false, chunked := false, contentLength := 0,
    closeAfter := !h.modern }

/-- A body has at most one kind of framing. -/
def oneFraming : Bool × Parser → Bool × Parser
  | (false, q) => (false, q)
  | (true, q) => (!(q.hasLength && q.chunked), q)

variable {p q : Parser} {n : Nat} {f : Field}

/-- **`ParseHeaders` on a block**: it reads the fields, and nothing of what follows. -/
theorem parseHeaders_head {h : Head} {rest : List UInt8} (hin : p.incoming = h.bytes ++ rest) :
    parseHeaders p (h.bytes.length - 4) = oneFraming (readFields (p.afterStatus h) h.fields) := by
  have hline : IsLine h.statusLine := h.isLine_statusLine
  have htext : p.incoming = (h.statusLine ++ crlf) ++
      (block (h.fields.map Field.text) ++ 13 :: 10 :: rest) := by
    rw [hin, Head.bytes, List.append_assoc, block_cons]
    simp [crlf]
  have htext' : p.incoming = [] ++ (h.statusLine ++ 13 :: 10 ::
      (block (h.fields.map Field.text) ++ 13 :: 10 :: rest)) := by
    rw [htext]
    simp [crlf]
  have hlength : h.bytes.length =
      h.statusLine.length + 2 + (block (h.fields.map Field.text)).length + 2 := by
    rw [Head.bytes, List.length_append, length_block_cons]
    rfl
  -- the loop has the length of the text as its fuel, and a line takes at least two bytes
  have hfuel := length_le_block (h.fields.map Field.text)
  have hbefore : (h.statusLine ++ crlf).length = h.statusLine.length + 2 := by
    rw [List.length_append]
    rfl
  have hfound : findFrom crlf p.incoming 0 = some h.statusLine.length := by
    rw [htext']
    have hfound := findFrom_line hline [] (block (h.fields.map Field.text) ++ 13 :: 10 :: rest)
    rw [List.length_nil, Nat.zero_add] at hfound
    exact hfound
  have hslice : slice p.incoming 0 h.statusLine.length = h.statusLine := by
    rw [htext', List.nil_append, slice, List.take_left, List.drop_zero]
  have hclose : (h.statusLine.take 9 == ascii "HTTP/1.0 ") = !h.modern := by
    rw [Head.statusLine, ← h.length_version, List.take_left, Head.version]
    cases h.modern with
    | false => rfl
    | true => rfl
  rw [parseHeaders, hfound]
  dsimp only
  rw [if_neg (by omega), hslice, h.statusCode_statusLine]
  dsimp only
  rw [hclose]
  show oneFraming (headerLines p.incoming _ _ _ (p.afterStatus h)) = _
  rw [← hbefore, headerLines_block (p.afterStatus h) h.fields_lines htext (by omega) (by omega),
    readLines_fields]

/-! ## What the fields say of the body -/

/-- The values of the fields of this name. -/
def valuesOf (name : List UInt8) (fields : List Field) : List (List UInt8) :=
  (fields.filter fun f => eqName f.name name).map Field.value

def Head.lengths (h : Head) : List (List UInt8) := valuesOf (ascii "content-length") h.fields

def Head.codings (h : Head) : List (List UInt8) := valuesOf (ascii "transfer-encoding") h.fields

/-- A value that says `chunked`. -/
def SaysChunked (value : List UInt8) : Prop := value.map lower = ascii "chunked"

/-- A value that says the number `n`, of 64 bits, that is within the limit for the status. -/
structure SaysLength (status n : Nat) (value : List UInt8) : Prop where
  numeral : Decimal.IsNumeral value
  number : Decimal.value value = n
  fits : n < 2 ^ 64
  limit : n ≤ kMaxBody ∨ status = 304 ∨ status < 200

/-- The fields agree: every length is `n`, the one coding is chunked, and there are not both. -/
structure Head.WellFramed (h : Head) (n : Nat) : Prop where
  lengths : ∀ v ∈ h.lengths, SaysLength h.code n v
  codings : ∀ v ∈ h.codings, SaysChunked v
  once : h.codings.length ≤ 1
  one : h.lengths = [] ∨ h.codings = []

/-- What the fields do not touch. -/
def Parser.outside (p : Parser) : Parser :=
  { p with hasLength := false, chunked := false, contentLength := 0, closeAfter := false }

/-- The fields of the parser that decide how the body ends. -/
def Parser.framing (p : Parser) : Bool × Nat × Bool := (p.hasLength, p.contentLength, p.chunked)

theorem noteConnection_framing (p : Parser) (value : List UInt8) :
    (noteConnection p value).framing = p.framing ∧
      (noteConnection p value).outside = p.outside := by
  simp only [noteConnection]
  split
  · exact ⟨rfl, rfl⟩
  · split
    · exact ⟨rfl, rfl⟩
    · exact ⟨rfl, rfl⟩

/-- What one field does. -/
inductive FieldStep (p q : Parser) (f : Field) : Prop
  | length (n : Nat) (hname : eqName f.name (ascii "content-length") = true)
      (hother : eqName f.name (ascii "transfer-encoding") = false)
      (hvalue : SaysLength p.status n f.value)
      (hsame : p.hasLength = true → p.contentLength = n)
      (hq : q = { p with hasLength := true, contentLength := n })
  | coding (hname : eqName f.name (ascii "transfer-encoding") = true)
      (hother : eqName f.name (ascii "content-length") = false)
      (hvalue : SaysChunked f.value) (honce : p.chunked = false)
      (hq : q = { p with chunked := true })
  | other (hlength : eqName f.name (ascii "content-length") = false)
      (hcoding : eqName f.name (ascii "transfer-encoding") = false)
      (hframing : q.framing = p.framing) (houtside : q.outside = p.outside)

theorem eqName_unique {text name name' : List UInt8} (h : eqName text name = true)
    (hne : name ≠ name') : eqName text name' = false :=
  beq_eq_false_iff_ne.2 fun he => hne ((beq_iff_eq.1 h).symm.trans he)

theorem saysLength_of_parse {status : Nat} {v : List UInt8} (hparse : parseU64 v = some n)
    (hlimit : ¬ (status ≠ 304 ∧ status ≥ 200 ∧ n > kMaxBody)) : SaysLength status n v := by
  rw [parseU64_eq] at hparse
  split at hparse
  · rename_i hnumber
    obtain rfl := Option.some.inj hparse
    exact ⟨hnumber.1, rfl, hnumber.2, by omega⟩
  · cases hparse

/-- A field is accepted exactly in these cases. -/
theorem fieldLine_step (h : fieldLine p f.name f.value = (true, q)) : FieldStep p q f := by
  rw [fieldLine] at h
  split at h
  case isTrue hlength =>
    have hother := eqName_unique hlength (show _ ≠ ascii "transfer-encoding" by decide)
    split at h
    case h_1 => cases h
    case h_2 n hparse =>
      split at h
      case isTrue => cases h
      case isFalse hgood =>
        rw [not_or] at hgood
        refine .length n hlength hother (saysLength_of_parse hparse hgood.1) (fun hhas => ?_)
          (congrArg Prod.snd h).symm
        by_contra hne
        exact hgood.2 ⟨hhas, hne⟩
  case isFalse hlength =>
    have hlength := Bool.eq_false_iff.2 hlength
    split at h
    case isTrue hcoding =>
      split at h
      case isTrue => cases h
      case isFalse hgood =>
        rw [not_or] at hgood
        exact .coding hcoding hlength (Classical.not_not.1 hgood.2) (Bool.eq_false_iff.2 hgood.1)
          (congrArg Prod.snd h).symm
    case isFalse hcoding =>
      have hcoding := Bool.eq_false_iff.2 hcoding
      split at h
      case isTrue =>
        obtain rfl := (congrArg Prod.snd h).symm
        obtain ⟨hframing, houtside⟩ := noteConnection_framing p f.value
        exact .other hlength hcoding hframing houtside
      case isFalse =>
        obtain rfl := (congrArg Prod.snd h).symm
        exact .other hlength hcoding rfl rfl

theorem valuesOf_cons (name : List UInt8) (f : Field) (fields : List Field) :
    valuesOf name (f :: fields) =
      if eqName f.name name then f.value :: valuesOf name fields else valuesOf name fields := by
  rw [valuesOf, List.filter_cons]
  split
  · rfl
  · rfl

/-- The fields agree with what is known already. -/
structure Agreed (p q : Parser) (fields : List Field) : Prop where
  lengths : ∀ v ∈ valuesOf (ascii "content-length") fields, SaysLength p.status q.contentLength v
  codings : ∀ v ∈ valuesOf (ascii "transfer-encoding") fields, SaysChunked v
  once : (valuesOf (ascii "transfer-encoding") fields).length ≤ 1
  first : valuesOf (ascii "transfer-encoding") fields = [] ∨ p.chunked = false
  same : p.hasLength = true → q.contentLength = p.contentLength
  hasLength : q.hasLength = (p.hasLength || !(valuesOf (ascii "content-length") fields).isEmpty)
  chunked : q.chunked = (p.chunked || !(valuesOf (ascii "transfer-encoding") fields).isEmpty)
  outside : q.outside = p.outside

theorem framing_eq (h : q.framing = p.framing) :
    q.hasLength = p.hasLength ∧ q.contentLength = p.contentLength ∧ q.chunked = p.chunked :=
  ⟨congrArg Prod.fst h, congrArg (fun t => t.2.1) h, congrArg (fun t => t.2.2) h⟩

theorem status_eq (h : q.outside = p.outside) : q.status = p.status := by
  have hstatus := congrArg Parser.status h
  exact hstatus

section Agree

variable {r : Parser} {fields : List Field}

theorem Agreed.consLength
    (hrest : Agreed { p with hasLength := true, contentLength := n } q fields)
    (hname : eqName f.name (ascii "content-length") = true)
    (hother : eqName f.name (ascii "transfer-encoding") = false)
    (hvalue : SaysLength p.status n f.value) (hsame : p.hasLength = true → p.contentLength = n) :
    Agreed p q (f :: fields) := by
  have hn : q.contentLength = n := hrest.same rfl
  constructor
  · rw [valuesOf_cons, if_pos hname]
    exact List.forall_mem_cons.2 ⟨hn ▸ hvalue, hrest.lengths⟩
  · rw [valuesOf_cons, hother]
    exact hrest.codings
  · rw [valuesOf_cons, hother]
    exact hrest.once
  · rw [valuesOf_cons, hother]
    exact hrest.first
  · exact fun hhas => hn.trans (hsame hhas).symm
  · rw [hrest.hasLength, valuesOf_cons, if_pos hname]
    exact (Bool.or_true _).symm
  · rw [hrest.chunked, valuesOf_cons, hother]
    rfl
  · exact hrest.outside

theorem Agreed.consCoding (hrest : Agreed { p with chunked := true } q fields)
    (hname : eqName f.name (ascii "transfer-encoding") = true)
    (hother : eqName f.name (ascii "content-length") = false)
    (hvalue : SaysChunked f.value) (honce : p.chunked = false) : Agreed p q (f :: fields) := by
  -- no other coding comes after this one
  have hnone : valuesOf (ascii "transfer-encoding") fields = [] := by
    rcases hrest.first with hnone | hfalse
    · exact hnone
    · cases hfalse
  constructor
  · rw [valuesOf_cons, hother]
    exact hrest.lengths
  · rw [valuesOf_cons, if_pos hname]
    exact List.forall_mem_cons.2 ⟨hvalue, hrest.codings⟩
  · rw [valuesOf_cons, if_pos hname, hnone]
    exact Nat.le_refl 1
  · exact Or.inr honce
  · exact hrest.same
  · rw [hrest.hasLength, valuesOf_cons, hother]
    rfl
  · rw [hrest.chunked, valuesOf_cons, if_pos hname]
    exact (Bool.or_true _).symm
  · exact hrest.outside

theorem Agreed.consOther (hrest : Agreed r q fields)
    (hlength : eqName f.name (ascii "content-length") = false)
    (hcoding : eqName f.name (ascii "transfer-encoding") = false)
    (hframing : r.framing = p.framing) (houtside : r.outside = p.outside) :
    Agreed p q (f :: fields) := by
  obtain ⟨hhas, hlen, hchunked⟩ := framing_eq hframing
  constructor
  · rw [valuesOf_cons, hlength, ← status_eq houtside]
    exact hrest.lengths
  · rw [valuesOf_cons, hcoding]
    exact hrest.codings
  · rw [valuesOf_cons, hcoding]
    exact hrest.once
  · rw [valuesOf_cons, hcoding, ← hchunked]
    exact hrest.first
  · rw [← hhas, ← hlen]
    exact hrest.same
  · rw [hrest.hasLength, valuesOf_cons, hlength, hhas]
    rfl
  · rw [hrest.chunked, valuesOf_cons, hcoding, hchunked]
    rfl
  · exact hrest.outside.trans houtside

end Agree

/-- Accepted fields agree. -/
theorem readFields_agreed {fields : List Field} : ∀ {p q : Parser},
    readFields p fields = (true, q) → Agreed p q fields := by
  induction fields with
  | nil =>
    intro p q h
    obtain rfl := congrArg Prod.snd h
    have hnone : ∀ name, valuesOf name [] = [] := fun _ => rfl
    refine ⟨fun v hv => absurd hv List.not_mem_nil, fun v hv => absurd hv List.not_mem_nil,
      Nat.zero_le 1, Or.inl rfl, fun _ => rfl, ?_, ?_, rfl⟩
    · rw [hnone]
      exact (Bool.or_false _).symm
    · rw [hnone]
      exact (Bool.or_false _).symm
  | cons f fields ih =>
    intro p q h
    rw [readFields] at h
    split at h
    case h_1 => cases h
    case h_2 r hline =>
      -- the rest agrees with what the parser knows after this field
      cases fieldLine_step hline with
      | length n hname hother hvalue hsame hq =>
        subst hq
        exact (ih h).consLength hname hother hvalue hsame
      | coding hname hother hvalue honce hq =>
        subst hq
        exact (ih h).consCoding hname hother hvalue honce
      | other hlength hcoding hframing houtside =>
        exact (ih h).consOther hlength hcoding hframing houtside

/-- A length that says what is known already is taken. -/
theorem fieldLine_length (hname : eqName f.name (ascii "content-length") = true)
    (hvalue : SaysLength p.status n f.value) (hsame : p.hasLength = true → p.contentLength = n) :
    fieldLine p f.name f.value = (true, { p with hasLength := true, contentLength := n }) := by
  have hparse : parseU64 f.value = some n := by
    rw [parseU64_eq, hvalue.number, if_pos ⟨hvalue.numeral, hvalue.fits⟩]
  have hlimit := hvalue.limit
  rw [fieldLine, if_pos hname, hparse]
  dsimp only
  rw [if_neg]
  rintro (hover | ⟨hhas, hne⟩)
  · omega
  · exact hne (hsame hhas)

theorem fieldLine_coding (hname : eqName f.name (ascii "transfer-encoding") = true)
    (hvalue : SaysChunked f.value) (honce : p.chunked = false) :
    fieldLine p f.name f.value = (true, { p with chunked := true }) := by
  have hother := eqName_unique hname (show _ ≠ ascii "content-length" by decide)
  rw [fieldLine, if_neg (Bool.eq_false_iff.1 hother), if_pos hname, if_neg]
  rintro (hchunked | hne)
  · rw [honce] at hchunked
    cases hchunked
  · exact hne hvalue

theorem fieldLine_other (hlength : eqName f.name (ascii "content-length") = false)
    (hcoding : eqName f.name (ascii "transfer-encoding") = false) :
    ∃ q, fieldLine p f.name f.value = (true, q) ∧ q.framing = p.framing ∧
      q.outside = p.outside := by
  rw [fieldLine, if_neg (Bool.eq_false_iff.1 hlength), if_neg (Bool.eq_false_iff.1 hcoding)]
  split
  · exact ⟨_, rfl, noteConnection_framing p f.value⟩
  · exact ⟨p, rfl, rfl, rfl⟩

/-- Fields that agree are accepted. -/
theorem readFields_accepts {fields : List Field} : ∀ {p : Parser},
    (∀ v ∈ valuesOf (ascii "content-length") fields, SaysLength p.status n v) →
    (∀ v ∈ valuesOf (ascii "transfer-encoding") fields, SaysChunked v) →
    (valuesOf (ascii "transfer-encoding") fields).length ≤ 1 →
    (valuesOf (ascii "transfer-encoding") fields = [] ∨ p.chunked = false) →
    (p.hasLength = true → p.contentLength = n) →
    ∃ q, readFields p fields = (true, q) ∧ (q.hasLength = true → q.contentLength = n) := by
  induction fields with
  | nil =>
    intro p _ _ _ _ hsame
    exact ⟨p, rfl, hsame⟩
  | cons f fields ih =>
    intro p hlengths hcodings honce hfirst hsame
    rw [valuesOf_cons] at hlengths hcodings honce hfirst
    rw [readFields]
    by_cases hlength : eqName f.name (ascii "content-length") = true
    · have hother := eqName_unique hlength (show _ ≠ ascii "transfer-encoding" by decide)
      rw [if_pos hlength] at hlengths
      rw [hother] at hcodings honce hfirst
      obtain ⟨hvalue, hlengths⟩ := List.forall_mem_cons.1 hlengths
      rw [fieldLine_length hlength hvalue hsame]
      exact ih hlengths hcodings honce hfirst fun _ => rfl
    · have hlength := Bool.eq_false_iff.2 hlength
      rw [hlength] at hlengths
      by_cases hcoding : eqName f.name (ascii "transfer-encoding") = true
      · rw [if_pos hcoding] at hcodings honce hfirst
        obtain ⟨hvalue, hcodings⟩ := List.forall_mem_cons.1 hcodings
        -- the one coding is this one
        have hnone : valuesOf (ascii "transfer-encoding") fields = [] :=
          List.length_eq_zero_iff.1 (Nat.le_zero.1 (Nat.le_of_succ_le_succ honce))
        have hfalse : p.chunked = false := hfirst.resolve_left (List.cons_ne_nil _ _)
        rw [fieldLine_coding hcoding hvalue hfalse]
        exact ih hlengths hcodings (by rw [hnone]; exact Nat.zero_le 1) (Or.inl hnone) hsame
      · have hcoding := Bool.eq_false_iff.2 hcoding
        rw [hcoding] at hcodings honce hfirst
        obtain ⟨q, hline, hframing, houtside⟩ := fieldLine_other (p := p) hlength hcoding
        obtain ⟨hhas, hlen, hchunked⟩ := framing_eq hframing
        rw [hline]
        refine ih ?_ hcodings honce (hchunked ▸ hfirst) (by rw [hhas, hlen]; exact hsame)
        rw [status_eq houtside]
        exact hlengths

/-- **Which header blocks `ParseHeaders` accepts**, and what it then knows of the body. -/
theorem parseHeaders_accepts {h : Head} {rest : List UInt8} (hin : p.incoming = h.bytes ++ rest)
    (hframed : h.WellFramed n) :
    ∃ q, parseHeaders p (h.bytes.length - 4) = (true, q) ∧
      q.outside = (p.afterStatus h).outside ∧ q.hasLength = !h.lengths.isEmpty ∧
      q.chunked = !h.codings.isEmpty ∧ (q.hasLength = true → q.contentLength = n) := by
  obtain ⟨q, hread, hn⟩ := readFields_accepts (p := p.afterStatus h) hframed.lengths hframed.codings
    hframed.once (Or.inr rfl) fun hhas => by cases hhas
  have hagreed := readFields_agreed hread
  have hhas : q.hasLength = !h.lengths.isEmpty := hagreed.hasLength
  have hchunked : q.chunked = !h.codings.isEmpty := hagreed.chunked
  refine ⟨q, ?_, hagreed.outside, hhas, hchunked, hn⟩
  rw [parseHeaders_head hin, hread, oneFraming, hhas, hchunked]
  rcases hframed.one with hnone | hnone
  · rw [hnone]
    rfl
  · rw [hnone, List.isEmpty_nil, Bool.not_true, Bool.and_false]
    rfl

theorem wellFramed_of_parse {h : Head} {rest : List UInt8} (hin : p.incoming = h.bytes ++ rest)
    (hparse : parseHeaders p (h.bytes.length - 4) = (true, q)) : h.WellFramed q.contentLength := by
  rw [parseHeaders_head hin] at hparse
  cases hread : readFields (p.afterStatus h) h.fields with
  | mk ok r =>
    rw [hread] at hparse
    cases ok with
    | false => cases hparse
    | true =>
      have hagreed := readFields_agreed hread
      obtain ⟨hone, rfl⟩ := Prod.mk.inj hparse
      refine ⟨hagreed.lengths, hagreed.codings, hagreed.once, ?_⟩
      rw [hagreed.hasLength, hagreed.chunked] at hone
      -- one of the two lists is empty
      by_contra hboth
      rw [not_or] at hboth
      obtain ⟨hlengths, hcodings⟩ := hboth
      rw [show (valuesOf (ascii "content-length") h.fields).isEmpty = false from
        List.isEmpty_eq_false_iff.2 hlengths,
        show (valuesOf (ascii "transfer-encoding") h.fields).isEmpty = false from
        List.isEmpty_eq_false_iff.2 hcodings] at hone
      cases hone

end OpenIdea.Http
