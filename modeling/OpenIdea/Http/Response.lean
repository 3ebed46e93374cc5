import Mathlib.Tactic
import OpenIdea.Lib.Search
import OpenIdea.Lib.Rounds

/-!
# The response of an HTTP request

`HttpSession` collects the bytes of a response and looks at all of them whenever more have come. A
response is a status line and header lines up to an empty line, any number of interim responses
before it, and a body: none, of the announced length, in chunks, or up to the end of the connection.

`advance` is one round of the loops of `Consume` and `ConsumeChunks`: a header block, or a chunk.
What the loops find behind a header block stays found when more comes (`headerLines_more`,
`trailerEnd_more`).
-/

set_option autoImplicit false

namespace OpenIdea.Http

open OpenIdea.Lib.Search OpenIdea.Lib.Rounds

def kMaxHeader : Nat := 65536

def kMaxBody : Nat := 8 * 1024 * 1024

/-- The longest chunk line that is waited for. -/
def kMaxChunkLine : Nat := 1024

/-- The bytes of an ASCII text. -/
def ascii (s : String) : List UInt8 := s.toList.map fun c => UInt8.ofNat c.toNat

def crlf : List UInt8 := [13, 10]

def crlfcrlf : List UInt8 := [13, 10, 13, 10]

/-- The bytes from `a` up to `b`. -/
def slice (text : List UInt8) (a b : Nat) : List UInt8 := (text.take b).drop a

/-! ## Words and numbers -/

def lower (c : UInt8) : UInt8 := if 65 ≤ c ∧ c ≤ 90 then c + 32 else c

/-- `EqName` of a text, with the test that it is no longer than the name. -/
def eqName (text name : List UInt8) : Bool := text.map lower == name

def isDigit (c : UInt8) : Bool := 48 ≤ c && c ≤ 57

/-- The loop of `ParseU64`; `none` is a byte that is no digit, or a number of more than 64 bits. -/
def parseU64Loop : Nat → List UInt8 → Option Nat
  | value, [] => some value
  | value, c :: rest =>
      if isDigit c then
        let d := c.toNat - 48
        if value > (2 ^ 64 - 1 - d) / 10 then none else parseU64Loop (value * 10 + d) rest
      else none

def parseU64 (text : List UInt8) : Option Nat :=
  if text.isEmpty then none else parseU64Loop 0 text

def hexDigit (c : UInt8) : Option Nat :=
  if 48 ≤ c ∧ c ≤ 57 then some (c.toNat - 48)
  else if 97 ≤ c ∧ c ≤ 102 then some (c.toNat - 97 + 10)
  else if 65 ≤ c ∧ c ≤ 70 then some (c.toNat - 65 + 10)
  else none

/-- The loop of `ParseHex`: the rest of a line from a semicolon on is an extension. -/
def parseHexLoop : Nat → Nat → List UInt8 → Option Nat
  | value, digits, [] => if digits > 0 then some value else none
  | value, digits, c :: rest =>
      match hexDigit c with
      | none => if c = 59 ∧ digits > 0 then some value else none
      | some d =>
          if value > (2 ^ 64 - 1) / 16 then none
          else parseHexLoop (value * 16 + d) (digits + 1) rest

def parseHex (text : List UInt8) : Option Nat := parseHexLoop 0 0 text

/-! ## The session -/

/-- Why a request failed. -/
inductive Why where
  | header
  | status
  | chunk
  | size
  | eof
  | send
  | connect
  | timeout
  | closed
  | host
  deriving DecidableEq, Repr

/-- The fields of `HttpSession`. -/
structure Parser where
  incoming : List UInt8
  body : List UInt8
  headerBytes : Nat
  contentLength : Nat
  chunkPosition : Nat
  interimResponses : Nat
  status : Nat
  headersReady : Bool
  hasLength : Bool
  chunked : Bool
  closeAfter : Bool
  deriving DecidableEq, Repr

/-- `BeginResponse`. -/
def beginResponse : Parser where
  incoming := []
  body := []
  headerBytes := 0
  contentLength := 0
  chunkPosition := 0
  interimResponses := 0
  status := 0
  headersReady := false
  hasLength := false
  chunked := false
  closeAfter := false

/-- More bytes have come. -/
def Parser.append (p : Parser) (more : List UInt8) : Parser :=
  { p with incoming := p.incoming ++ more }

/-- What `OnHttpFinished` is told. -/
structure Finish where
  bFail : Bool
  why : Option Why
  bClose : Bool
  status : Nat
  body : List UInt8
  deriving DecidableEq, Repr

/-- `Succeed`: bytes after the response make the connection useless. -/
def succeed (p : Parser) (consumed : Nat) : Finish where
  bFail := false
  why := none
  bClose := p.closeAfter || decide (consumed < p.incoming.length)
  status := p.status
  body := p.body

/-- `Fail`. -/
def fail (p : Parser) (why : Why) : Finish where
  bFail := true
  why := some why
  bClose := true
  status := p.status
  body := []

/-! ## Header lines -/

def isBlank (c : UInt8) : Bool := c == 32 || c == 9

def trimEnd (blank : UInt8 → Bool) (text : List UInt8) : List UInt8 :=
  (text.reverse.dropWhile blank).reverse

/-- The tokens of a `Connection` header: one is `close`, one is `keep-alive`. -/
def connectionTokens : Nat → List UInt8 → Bool × Bool → Bool × Bool
  | 0, _, found => found
  | fuel + 1, text, found =>
      match text.dropWhile fun c => isBlank c || c == 44 with
      | [] => found
      | c :: rest =>
          let token := trimEnd isBlank ((c :: rest).takeWhile (· != 44))
          let found := if eqName token (ascii "close") then (true, found.2)
            else if eqName token (ascii "keep-alive") then (found.1, true) else found
          connectionTokens fuel (((c :: rest).dropWhile (· != 44)).drop 1) found

def noteConnection (p : Parser) (value : List UInt8) : Parser :=
  let found := connectionTokens value.length value (false, false)
  if found.1 then { p with closeAfter := true }
  else if found.2 then { p with closeAfter := false } else p

/-- One header line: whether `ParseHeaders` goes on, and the fields. -/
def headerLine (p : Parser) (line : List UInt8) : Bool × Parser :=
  match find [58] line with
  | none => (true, p)
  | some colon =>
      let value := trimEnd isBlank ((line.drop (colon + 1)).dropWhile isBlank)
      let name := trimEnd (· == 32) (line.take colon)
      if eqName name (ascii "content-length") then
        match parseU64 value with
        | none => (false, p)
        | some length =>
            if (p.status ≠ 304 ∧ p.status ≥ 200 ∧ length > kMaxBody) ∨
                (p.hasLength = true ∧ p.contentLength ≠ length) then (false, p)
            else (true, { p with hasLength := true, contentLength := length })
      else if eqName name (ascii "transfer-encoding") then
        if p.chunked ∨ value.map lower ≠ ascii "chunked" then (false, p)
        else (true, { p with chunked := true })
      else if eqName name (ascii "connection") then (true, noteConnection p value)
      else (true, p)

/-- The loop over the header lines up to `headerEnd`. -/
def headerLines (text : List UInt8) (headerEnd : Nat) : Nat → Nat → Parser → Bool × Parser
  | 0, _, p => (true, p)
  | fuel + 1, position, p =>
      if position < headerEnd then
        match findFrom crlf text position with
        | none => (true, p)
        | some lineEnd =>
            if lineEnd > headerEnd then (true, p)
            else
              match headerLine p (slice text position lineEnd) with
              | (false, p) => (false, p)
              | (true, p) => headerLines text headerEnd fuel (lineEnd + 2) p
      else (true, p)

/-- The three digits of the status line, if the line is one. -/
def statusCode (line : List UInt8) : Option Nat :=
  if line.length < 12 ∨ (line.take 9 ≠ ascii "HTTP/1.1 " ∧ line.take 9 ≠ ascii "HTTP/1.0 ") then
    none
  else if 12 < line.length ∧ line.getD 12 0 ≠ 32 then none
  else
    match parseU64 (slice line 9 12) with
    | none => none
    | some code => if code < 100 ∨ code > 599 ∨ code = 101 then none else some code

/-- `ParseHeaders`. -/
def parseHeaders (p : Parser) (headerEnd : Nat) : Bool × Parser :=
  match findFrom crlf p.incoming 0 with
  | none => (false, p)
  | some lineEnd =>
      if lineEnd > headerEnd then (false, p)
      else
        let line := slice p.incoming 0 lineEnd
        match statusCode line with
        | none => (false, p)
        | some code =>
            let q := { p with
              status := code, hasLength := false, chunked := false, contentLength := 0,
              closeAfter := line.take 9 == ascii "HTTP/1.0 " }
            match headerLines p.incoming headerEnd headerEnd (lineEnd + 2) q with
            | (false, q) => (false, q)
            | (true, q) => (!(q.hasLength && q.chunked), q)

/-! ## The body -/

/-- The end of the trailer lines of a chunked body, with the empty line. -/
def trailerEnd (text : List UInt8) : Nat → Nat → Option Nat
  | 0, _ => none
  | fuel + 1, position =>
      match findFrom crlf text position with
      | none => none
      | some lineEnd =>
          if lineEnd = position then some (lineEnd + 2) else trailerEnd text fuel (lineEnd + 2)

/-- One round of `ConsumeChunks`. -/
def consumeChunk (p : Parser) : Round Parser Finish :=
  match findFrom crlf p.incoming p.chunkPosition with
  | none =>
      if p.incoming.length - p.chunkPosition > kMaxChunkLine then .done (fail p .chunk) else .more p
  | some lineEnd =>
      match parseHex (slice p.incoming p.chunkPosition lineEnd) with
      | none => .done (fail p .chunk)
      | some size =>
          let dataAt := lineEnd + 2
          if size = 0 then
            match trailerEnd p.incoming (p.incoming.length + 1) dataAt with
            | none => .more p
            | some consumed => .done (succeed p consumed)
          else if size > kMaxBody ∨ p.body.length + size > kMaxBody then .done (fail p .size)
          else if p.incoming.length < dataAt + size + 2 then .more p
          else if slice p.incoming (dataAt + size) (dataAt + size + 2) ≠ crlf then
            .done (fail p .chunk)
          else
            .go { p with
              body := p.body ++ slice p.incoming dataAt (dataAt + size)
              chunkPosition := dataAt + size + 2 }

/-- One round of the loop of `Consume` over the header blocks. -/
def consumeHeader (p : Parser) : Round Parser Finish :=
  match find crlfcrlf p.incoming with
  | none => if p.incoming.length > kMaxHeader then .done (fail p .header) else .more p
  | some headerEnd =>
      if headerEnd > kMaxHeader then .done (fail p .status)
      else
        match parseHeaders p headerEnd with
        | (false, p) => .done (fail p .status)
        | (true, p) =>
            if p.status < 200 then
              let p := { p with interimResponses := p.interimResponses + 1 }
              if p.interimResponses > 16 then .done (fail p .status)
              else .go { p with incoming := p.incoming.drop (headerEnd + 4) }
            else
              .go { p with
                headersReady := true, headerBytes := headerEnd + 4, chunkPosition := headerEnd + 4 }

/-- One round of `Consume`. -/
def advance (p : Parser) : Round Parser Finish :=
  if p.headersReady = false then consumeHeader p
  else if p.status = 204 ∨ p.status = 304 then .done (succeed p p.headerBytes)
  else if p.chunked then consumeChunk p
  else if p.hasLength = false then .more { p with closeAfter := true }
  else if p.incoming.length - p.headerBytes < p.contentLength then .more p
  else
    let q := { p with body := slice p.incoming p.headerBytes (p.headerBytes + p.contentLength) }
    .done (succeed q (p.headerBytes + p.contentLength))

/-- What is left to look at. -/
def Parser.size (p : Parser) : Nat :=
  if p.headersReady then p.incoming.length - p.chunkPosition else p.incoming.length + 1

/-- `Consume`. -/
def consume (p : Parser) : Round Parser Finish := settle advance (p.size + 1) p

/-! ## The loops are not cut short -/

theorem crlf_ne_nil : crlf ≠ [] := List.cons_ne_nil _ _

theorem headerLines_more (text : List UInt8) (headerEnd more : Nat) :
    ∀ (fuel position : Nat) (p : Parser), headerEnd ≤ position + fuel →
      headerLines text headerEnd (fuel + more) position p =
        headerLines text headerEnd fuel position p := by
  intro fuel
  induction fuel with
  | zero =>
    intro position p hle
    cases more with
    | zero => rfl
    | succ more =>
      simp only [headerLines]
      rw [if_neg (by omega)]
  | succ fuel ih =>
    intro position p hle
    rw [Nat.succ_add, headerLines, headerLines]
    split
    case isFalse => rfl
    case isTrue =>
      split
      case h_1 => rfl
      case h_2 lineEnd hfound =>
        have hat := findFrom_le crlf_ne_nil hfound
        split
        case isTrue => rfl
        case isFalse =>
          split
          case h_1 => rfl
          case h_2 q _ => exact ih (lineEnd + 2) q (by omega)

theorem trailerEnd_more (text : List UInt8) (more : Nat) :
    ∀ (fuel position : Nat), text.length ≤ position + fuel →
      trailerEnd text (fuel + more) position = trailerEnd text fuel position := by
  intro fuel
  induction fuel with
  | zero =>
    intro position hle
    cases more with
    | zero => rfl
    | succ more =>
      simp only [trailerEnd]
      cases hfound : findFrom crlf text position with
      | none => rfl
      | some lineEnd =>
        have hat := findFrom_le crlf_ne_nil hfound
        have hlen : crlf.length = 2 := rfl
        omega
  | succ fuel ih =>
    intro position hle
    rw [Nat.succ_add, trailerEnd, trailerEnd]
    cases hfound : findFrom crlf text position with
    | none => rfl
    | some lineEnd =>
      have hat := findFrom_le crlf_ne_nil hfound
      dsimp only
      split
      · rfl
      · exact ih (lineEnd + 2) (by omega)

/-! ## The calls of the session -/

/-- `OnDataIn` of a session that waits for a response. -/
def onDataIn (p : Parser) (segment : List UInt8) : Round Parser Finish :=
  if p.incoming.length + segment.length > kMaxHeader + kMaxBody then .done (fail p .size)
  else consume (p.append segment)

/-- `FinishEof` of a session that waits for a response: a body without a length ends here. -/
def finishEof (p : Parser) : Finish :=
  match consume p with
  | .done f => f
  | .go q => fail q .eof
  | .more q =>
      if q.headersReady = false ∨ q.hasLength = true ∨ q.chunked = true then fail q .eof
      else
        succeed { q with body := q.incoming.drop q.headerBytes, closeAfter := true }
          q.incoming.length

/-- The response in segments, and a close after them or none: what `OnHttpFinished` is told, if it
is called. A session that has finished takes nothing more for this response. -/
def receive : Parser → List (List UInt8) → Bool → Option Finish
  | p, [], close => if close then some (finishEof p) else none
  | p, segment :: rest, close =>
      match onDataIn p segment with
      | .done f => some f
      | .go q => receive q rest close
      | .more q => receive q rest close

/-- What the caller sees of a finished request. -/
structure Outcome where
  bFailed : Bool
  status : Nat
  body : List UInt8
  deriving DecidableEq, Repr

def Finish.outcome (f : Finish) : Outcome where
  bFailed := f.bFail
  status := f.status
  body := f.body

/-- The request after these segments: still waiting, or finished. -/
def published (segments : List (List UInt8)) (close : Bool) : Option Outcome :=
  (receive beginResponse segments close).map Finish.outcome

end OpenIdea.Http
