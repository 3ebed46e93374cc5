import OpenIdea.Lib.Decimal
import OpenIdea.Redis.Command

/-!
# The replies of the Redis proxy (redis_server.cpp)

hiredis has parsed a reply of the Redis server into a tree of `redisReply`, and `AppendReply` writes
it again for the client. The protocol is given as a grammar (`Sentence`): which byte strings say
which reply. The parser below reads every sentence back, whatever follows it, so that the grammar is
unambiguous, and what `AppendReply` writes is a sentence of the same reply (`Sentence.unique`,
`replies_faithful`).
-/

set_option autoImplicit false

namespace OpenIdea.Redis.Replies

open OpenIdea.Lib

/-! ## The protocol -/

/-- A reply of RESP2. -/
inductive Reply where
  | status (text : List UInt8)
  | error (text : List UInt8)
  | integer (n : Int)
  | nil
  | bulk (data : List UInt8)
  | array (elements : List Reply)

/-- The text of a status or of an error: no CR and no LF. -/
def IsLine (text : List UInt8) : Prop := ∀ b ∈ text, b ≠ 13 ∧ b ≠ 10

instance (text : List UInt8) : Decidable (IsLine text) :=
  inferInstanceAs (Decidable (∀ b ∈ text, _))

def crlf : List UInt8 := [13, 10]

mutual

/-- **The grammar of RESP2**: the bytes are the reply. -/
inductive Sentence : Reply → List UInt8 → Prop
  | status {text : List UInt8} (h : IsLine text) : Sentence (.status text) (43 :: text ++ crlf)
  | error {text : List UInt8} (h : IsLine text) : Sentence (.error text) (45 :: text ++ crlf)
  | integer {n : Int} {text : List UInt8} (hline : IsLine text)
      (h : Decimal.parseSigned text = some n) : Sentence (.integer n) (58 :: text ++ crlf)
  | nilBulk : Sentence .nil (36 :: [45, 49] ++ crlf)
  | bulk {data text : List UInt8} (hline : IsLine text)
      (h : Decimal.parse text = some data.length) :
      Sentence (.bulk data) (36 :: text ++ crlf ++ (data ++ crlf))
  | nilArray : Sentence .nil (42 :: [45, 49] ++ crlf)
  | array {elements : List Reply} {text body : List UInt8} (hline : IsLine text)
      (h : Decimal.parse text = some elements.length) (hbody : Sentences elements body) :
      Sentence (.array elements) (42 :: text ++ crlf ++ body)

/-- One reply after another. -/
inductive Sentences : List Reply → List UInt8 → Prop
  | nil : Sentences [] []
  | cons {r : Reply} {rs : List Reply} {bytes rest : List UInt8} (h : Sentence r bytes)
      (hrest : Sentences rs rest) : Sentences (r :: rs) (bytes ++ rest)

end

/-! ### The parser of the grammar -/

/-- A line, without its CR LF, and what follows it. -/
def readText : List UInt8 → Option (List UInt8 × List UInt8)
  | [] => none
  | b :: rest =>
      if b = 13 then
        match rest with
        | c :: rest => if c = 10 then some ([], rest) else none
        | [] => none
      else if b = 10 then none
      else (readText rest).map fun p => (b :: p.1, p.2)

/-- As many replies as the header of an array says. -/
def parseElements (parse : List UInt8 → Option (Reply × List UInt8)) :
    Nat → List UInt8 → Option (List Reply × List UInt8)
  | 0, bytes => some ([], bytes)
  | n + 1, bytes => do
      let (r, bytes) ← parse bytes
      let (rs, bytes) ← parseElements parse n bytes
      return (r :: rs, bytes)

/-- The data of a bulk string of `n` bytes. -/
def parseData (n : Nat) (bytes : List UInt8) : Option (Reply × List UInt8) :=
  if (bytes.drop n).take 2 = crlf then some (.bulk (bytes.take n), bytes.drop (n + 2)) else none

/-- The first reply, nested at most `depth` deep, and what follows it. -/
def parseReply : Nat → List UInt8 → Option (Reply × List UInt8)
  | 0, _ => none
  | _, [] => none
  | depth + 1, kind :: bytes => do
      let (text, bytes) ← readText bytes
      if kind = 43 then return (.status text, bytes)
      else if kind = 45 then return (.error text, bytes)
      else if kind = 58 then
        let n ← Decimal.parseSigned text
        return (.integer n, bytes)
      else if kind = 36 then
        if text = [45, 49] then return (.nil, bytes)
        else
          let n ← Decimal.parse text
          parseData n bytes
      else if kind = 42 then
        if text = [45, 49] then return (.nil, bytes)
        else
          let n ← Decimal.parse text
          let (rs, bytes) ← parseElements (parseReply depth) n bytes
          return (.array rs, bytes)
      else none

/-- All replies of a stream. -/
def parseReplies : Nat → List UInt8 → Option (List Reply)
  | _, [] => some []
  | 0, _ :: _ => none
  | count + 1, bytes => do
      let (r, rest) ← parseReply bytes.length bytes
      let rs ← parseReplies count rest
      return r :: rs

theorem readText_line {text : List UInt8} (h : IsLine text) (rest : List UInt8) :
    readText (text ++ crlf ++ rest) = some (text, rest) := by
  induction text with
  | nil => rfl
  | cons b text ih =>
    obtain ⟨hb, htext⟩ := List.forall_mem_cons.1 h
    rw [List.cons_append, List.cons_append, readText.eq_def]
    dsimp only
    rw [if_neg hb.1, if_neg hb.2, ih htext]
    rfl

theorem parseData_data (data rest : List UInt8) :
    parseData data.length (data ++ crlf ++ rest) = some (.bulk data, rest) := by
  have hend : ((data ++ crlf ++ rest).drop data.length).take 2 = crlf := by
    rw [List.append_assoc, List.drop_left]
    rfl
  have hlen : data.length + 2 = (data ++ crlf).length := by
    rw [List.length_append]
    rfl
  rw [parseData, if_pos hend, List.append_assoc, List.take_left, ← List.append_assoc, hlen,
    List.drop_left]

/-- What is no number is not `-1` either. -/
theorem parse_ne_minusOne {text : List UInt8} {n : Nat} (h : Decimal.parse text = some n) :
    text ≠ [45, 49] := by
  rintro rfl
  have hnone : Decimal.parse [45, 49] = none := by decide
  cases hnone.symm.trans h

/-- A reply whose first line is a line. -/
theorem parseReply_line {depth : Nat} {kind : UInt8} {text rest : List UInt8} (h : IsLine text) :
    parseReply (depth + 1) (kind :: text ++ crlf ++ rest) =
      if kind = 43 then some (.status text, rest)
      else if kind = 45 then some (.error text, rest)
      else if kind = 58 then (Decimal.parseSigned text).bind fun n => some (.integer n, rest)
      else if kind = 36 then
        if text = [45, 49] then some (.nil, rest)
        else (Decimal.parse text).bind fun n => parseData n rest
      else if kind = 42 then
        if text = [45, 49] then some (.nil, rest)
        else (Decimal.parse text).bind fun n =>
          (parseElements (parseReply depth) n rest).bind fun p => some (.array p.1, p.2)
      else none := by
  have hread := readText_line h rest
  rw [List.cons_append, List.cons_append, parseReply, hread]
  rfl

/-- A sentence is not empty. -/
theorem Sentence.length_pos {r : Reply} {bytes : List UInt8} (h : Sentence r bytes) :
    0 < bytes.length := by
  cases h with
  | _ => simp

mutual

/-- **The parser reads every sentence**, whatever follows it. The induction is on the derivation;
what is inside an array is shorter than the array. -/
theorem parseReply_sentence {r : Reply} {bytes : List UInt8} (h : Sentence r bytes) :
    ∀ (depth : Nat) (rest : List UInt8), bytes.length ≤ depth →
      parseReply depth (bytes ++ rest) = some (r, rest) := by
  intro depth rest hdepth
  obtain ⟨depth, rfl⟩ : ∃ d, depth = d + 1 :=
    Nat.exists_eq_add_one.2 (h.length_pos.trans_le hdepth)
  cases h with
  | status hline | error hline =>
    rw [parseReply_line hline]
    rfl
  | integer hline hn =>
    rw [parseReply_line hline, hn]
    rfl
  | nilBulk =>
    rw [parseReply_line (by decide +kernel)]
    rfl
  | @bulk data text hline hn =>
    rw [List.append_assoc, parseReply_line hline, hn]
    simp only [if_neg (parse_ne_minusOne hn), Option.bind_some, parseData_data]
    rfl
  | nilArray =>
    rw [parseReply_line (by decide +kernel)]
    rfl
  | @array elements text body hline hn hbody =>
    -- the header of the array is a byte at least, which is the depth that is used up
    have hinside : body.length ≤ depth := by
      rw [List.length_append, List.length_append, List.length_cons] at hdepth
      omega
    rw [List.append_assoc, parseReply_line hline, hn]
    simp only [if_neg (parse_ne_minusOne hn), Option.bind_some,
      parseElements_sentences hbody depth rest hinside]
    rfl

theorem parseElements_sentences {rs : List Reply} {bytes : List UInt8} (h : Sentences rs bytes) :
    ∀ (depth : Nat) (rest : List UInt8), bytes.length ≤ depth →
      parseElements (parseReply depth) rs.length (bytes ++ rest) = some (rs, rest) := by
  intro depth rest hdepth
  cases h with
  | nil => rfl
  | @cons r rs first others hfirst hothers =>
    rw [List.length_append] at hdepth
    have hr := parseReply_sentence hfirst depth (others ++ rest) (by omega)
    have hrs := parseElements_sentences hothers depth rest (by omega)
    rw [List.append_assoc, List.length_cons, parseElements, hr]
    simp only [Option.bind_eq_bind, Option.bind_some, hrs]
    rfl

end

/-- The parser cuts a stream into its replies. -/
theorem parseReplies_sentences {rs : List Reply} :
    ∀ {bytes : List UInt8} (count : Nat), Sentences rs bytes → bytes.length ≤ count →
      parseReplies count bytes = some rs := by
  induction rs with
  | nil =>
    intro bytes count h _
    cases h
    cases count <;> rfl
  | cons r rs ih =>
    intro bytes count h hcount
    cases h with
    | @cons _ _ first others hfirst hothers =>
      have hpos := hfirst.length_pos
      rw [List.length_append] at hcount
      obtain ⟨count, rfl⟩ : ∃ n, count = n + 1 := ⟨count - 1, by omega⟩
      have hr := parseReply_sentence hfirst (first ++ others).length others
        (by rw [List.length_append]; omega)
      have hrs := ih count hothers (by omega)
      -- `parseReplies` looks whether a byte is there before it parses; a reply has one
      cases hstream : first ++ others with
      | nil =>
        have hnil := congrArg List.length hstream
        rw [List.length_append, List.length_nil] at hnil
        omega
      | cons b stream =>
        rw [parseReplies]
        · rw [← hstream, hr]
          simp only [Option.bind_eq_bind, Option.bind_some, hrs]
          rfl
        · exact List.cons_ne_nil b stream

/-! ## What hiredis hands over -/

/-- `REDIS_REPLY_STRING` and so on. -/
inductive ReplyType where
  | string
  | array
  | integer
  | nil
  | status
  | error
  | double
  | bool
  | map
  | set
  | attr
  | push
  | bignum
  | verb
  deriving DecidableEq

/-- A `redisReply*`: the fields that `AppendReply` looks at, where `str` goes with its `len` and
`element` with `elements`. -/
inductive RedisReply where
  | null
  | reply (type : ReplyType) (integer : Int) (str : Option (List UInt8)) (element : List RedisReply)

/-- `AppendBulk(stOutput, pText, iNumber)`: the bytes it appends. -/
def appendBulk (text : List UInt8) : List UInt8 :=
  36 :: Decimal.text text.length ++ crlf ++ (text ++ crlf)

mutual

/-- `AppendReply(stOutput, pReply)`: the bytes it appends. -/
def appendReply : RedisReply → List UInt8
  | .null => ascii "$-1\r\n"
  | .reply .status _ str _ => 43 :: str.getD [] ++ crlf
  | .reply .error _ str _ => 45 :: str.getD [] ++ crlf
  | .reply .integer n _ _ | .reply .bool n _ _ => 58 :: Decimal.signedText n ++ crlf
  | .reply .nil _ _ _ => ascii "$-1\r\n"
  | .reply .string _ str _ => appendBulk (str.getD [])
  | .reply .array _ _ element =>
      42 :: Decimal.text element.length ++ crlf ++ appendElements element
  | .reply _ _ _ _ => ascii "-ERR reply\r\n"

/-- The loop over `element`. -/
def appendElements : List RedisReply → List UInt8
  | [] => []
  | r :: rs => appendReply r ++ appendElements rs

end

/-- `AppendErr(stOutput, pText)`. -/
def appendErr (text : List UInt8) : List UInt8 := 45 :: text ++ crlf

mutual

/-- The tree that hiredis makes of a reply; what a type does not use stays zero. -/
def hiredis : Reply → RedisReply
  | .status text => .reply .status 0 (some text) []
  | .error text => .reply .error 0 (some text) []
  | .integer n => .reply .integer n none []
  | .nil => .reply .nil 0 none []
  | .bulk data => .reply .string 0 (some data) []
  | .array elements => .reply .array 0 none (hiredisAll elements)

def hiredisAll : List Reply → List RedisReply
  | [] => []
  | r :: rs => hiredis r :: hiredisAll rs

end

mutual

/-- Texts without CR and LF, and numbers of 64 bits. -/
def Reply.Ok : Reply → Prop
  | .status text => IsLine text
  | .error text => IsLine text
  | .integer n => -2 ^ 63 ≤ n ∧ n < 2 ^ 63
  | .nil => True
  | .bulk _ => True
  | .array elements => AllOk elements

def AllOk : List Reply → Prop
  | [] => True
  | r :: rs => r.Ok ∧ AllOk rs

end

theorem hiredisAll_eq (rs : List Reply) : hiredisAll rs = rs.map hiredis := by
  induction rs with
  | nil => rfl
  | cons r rs ih => rw [hiredisAll, ih, List.map_cons]

theorem appendElements_eq (rs : List RedisReply) : appendElements rs = rs.flatMap appendReply := by
  induction rs with
  | nil => rfl
  | cons r rs ih => rw [appendElements, ih, List.flatMap_cons]

theorem allOk_iff (rs : List Reply) : AllOk rs ↔ ∀ r ∈ rs, r.Ok := by
  induction rs with
  | nil => exact ⟨fun _ r hr => (nomatch hr), fun _ => trivial⟩
  | cons r rs ih => rw [AllOk, ih, List.forall_mem_cons]

theorem isLine_text (n : Nat) : IsLine (Decimal.text n) := by
  have hline := Decimal.signedText_line (n : Int)
  rw [Decimal.signedText, if_neg (by omega), Int.natAbs_natCast] at hline
  exact hline

mutual

/-- **What `AppendReply` appends is the reply**, whatever its kind. -/
theorem appendReply_sentence : (r : Reply) → r.Ok → Sentence r (appendReply (hiredis r))
  | .status _, hr => .status hr
  | .error _, hr => .error hr
  | .integer n, _ => .integer (Decimal.signedText_line n) (Decimal.parseSigned_signedText n)
  | .nil, _ => .nilBulk
  | .bulk data, _ => .bulk (isLine_text data.length) (Decimal.parse_text data.length)
  | .array elements, hr => by
      rw [hiredis, appendReply, hiredisAll_eq, List.length_map, ← hiredisAll_eq]
      exact .array (isLine_text _) (Decimal.parse_text _) (appendElements_sentences elements hr)

theorem appendElements_sentences : (rs : List Reply) → AllOk rs →
    Sentences rs (appendElements (hiredisAll rs))
  | [], _ => .nil
  | r :: rs, hrs => .cons (appendReply_sentence r hrs.1) (appendElements_sentences rs hrs.2)

end

/-- An error of the proxy itself is a reply. -/
theorem appendErr_sentence {text : List UInt8} (h : IsLine text) :
    Sentence (.error text) (appendErr text) := .error h

/-- The grammar is unambiguous: bytes that begin with two sentences begin with one. -/
theorem Sentence.unique {r r' : Reply} {bytes bytes' rest rest' : List UInt8}
    (h : Sentence r bytes) (h' : Sentence r' bytes') (heq : bytes ++ rest = bytes' ++ rest') :
    r' = r ∧ rest' = rest := by
  have hr := parseReply_sentence h (bytes.length + bytes'.length) rest (by omega)
  have hr' := parseReply_sentence h' (bytes.length + bytes'.length) rest' (by omega)
  rw [← heq, hr] at hr'
  obtain ⟨hsame, hrest⟩ := Prod.mk.inj (Option.some.inj hr')
  exact ⟨hsame.symm, hrest.symm⟩

/-- **The proxy writes every reply as it is.** What `AppendReply` appends for a reply is one
sentence of the protocol, that reply and no other, with nothing left over; and what it appends for
any list of replies is parsed to that list and to no other. -/
theorem replies_faithful {rs : List Reply} (hrs : ∀ r ∈ rs, r.Ok) :
    (∀ r ∈ rs, Sentence r (appendReply (hiredis r)) ∧
      ∀ r' bytes rest, Sentence r' bytes → appendReply (hiredis r) = bytes ++ rest →
        r' = r ∧ rest = []) ∧
    let output := rs.flatMap fun r => appendReply (hiredis r)
    parseReplies output.length output = some rs ∧ ∀ rs', Sentences rs' output → rs' = rs := by
  have houtput : (rs.flatMap fun r => appendReply (hiredis r)) = appendElements (hiredisAll rs) := by
    rw [hiredisAll_eq, appendElements_eq, List.flatMap_map]
  have hall := appendElements_sentences rs ((allOk_iff rs).2 hrs)
  refine ⟨fun r hr => ?_, ?_⟩
  · have hone := appendReply_sentence r (hrs r hr)
    refine ⟨hone, fun r' bytes rest hother heq => ?_⟩
    have hwhole : appendReply (hiredis r) ++ [] = bytes ++ rest := by rw [List.append_nil, heq]
    exact hone.unique hother hwhole
  · dsimp only
    rw [houtput]
    have hparse := parseReplies_sentences _ hall (Nat.le_refl _)
    refine ⟨hparse, fun rs' hother => ?_⟩
    exact Option.some.inj ((parseReplies_sentences _ hother (Nat.le_refl _)).symm.trans hparse)

/-- An empty array, a bulk string that looks like the end of one, and a nested array. -/
def mixedReplies : List Reply :=
  [.array [], .bulk [13, 10, 36], .array [.integer (-12), .nil, .array [.status (ascii "OK")]]]

theorem replies_faithful_mixed :
    (∀ r ∈ mixedReplies, r.Ok) ∧
      (mixedReplies.flatMap fun r => appendReply (hiredis r)) =
        ascii "*0\r\n$3\r\n\r\n$\r\n*3\r\n:-12\r\n$-1\r\n*1\r\n+OK\r\n" ∧
      ∃ output, parseReplies output.length output = some mixedReplies := by
  have hok : ∀ r ∈ mixedReplies, r.Ok := by
    simp only [mixedReplies, List.forall_mem_cons]
    refine ⟨trivial, trivial, ?_, fun r hr => (nomatch hr)⟩
    simp only [Reply.Ok, AllOk]
    exact ⟨by decide +kernel, trivial, ⟨by decide +kernel, trivial⟩, trivial⟩
  exact ⟨hok, by decide +kernel, _, (replies_faithful hok).2.1⟩

end OpenIdea.Redis.Replies
