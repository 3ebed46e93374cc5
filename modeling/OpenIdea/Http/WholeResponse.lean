import OpenIdea.Http.Head

/-!
# A whole response

A response that comes in one segment: interim responses, a final header block, and what follows it.
The body is decoded exactly: in chunks, in the announced length, or not at all. Whatever is left
behind the message closes the connection. The main result is `bodies_exact`.
-/

set_option autoImplicit false

namespace OpenIdea.Http

open OpenIdea.Lib OpenIdea.Lib.Search OpenIdea.Lib.Rounds

/-! ## Chunk sizes -/

/-- The number that more hexadecimal digits make of a number. -/
def moreHex (n : Nat) (text : List UInt8) : Nat :=
  text.foldl (fun n c => n * 16 + (hexDigit c).getD 0) n

/-- The line before a chunk: a size in either case, and an extension or none. -/
structure ChunkLine where
  size : List UInt8
  extension : List UInt8
  size_some : size ≠ []
  size_digits : ∀ c ∈ size, (hexDigit c).isSome = true
  extension_start : ∀ c ∈ extension.head?, c = 59
  extension_line : IsLine extension

def ChunkLine.text (l : ChunkLine) : List UInt8 := l.size ++ l.extension

def ChunkLine.number (l : ChunkLine) : Nat := moreHex 0 l.size

theorem hexDigit_lt {c : UInt8} {d : Nat} (h : hexDigit c = some d) : d < 16 := by
  rw [hexDigit] at h
  simp only [UInt8.le_iff_toNat_le] at h
  split at h
  · rename_i hrange
    obtain rfl := Option.some.inj h
    have hrange : 48 ≤ c.toNat ∧ c.toNat ≤ 57 := hrange
    omega
  · split at h
    · rename_i hrange
      obtain rfl := Option.some.inj h
      have hrange : 97 ≤ c.toNat ∧ c.toNat ≤ 102 := hrange
      omega
    · split at h
      · rename_i hrange
        obtain rfl := Option.some.inj h
        have hrange : 65 ≤ c.toNat ∧ c.toNat ≤ 70 := hrange
        omega
      · cases h

theorem le_moreHex (text : List UInt8) : ∀ n, n ≤ moreHex n text := by
  induction text with
  | nil =>
    intro n
    exact Nat.le_refl n
  | cons c rest ih =>
    intro n
    have hstep : n ≤ n * 16 + (hexDigit c).getD 0 := by omega
    exact Nat.le_trans hstep (ih _)

/-- The guard of the loop lets a size pass exactly if it fits. -/
theorem parseHexLoop_eq {extension : List UInt8} (hext : ∀ c ∈ extension.head?, c = 59)
    {size : List UInt8} : ∀ {n digits : Nat}, (∀ c ∈ size, (hexDigit c).isSome = true) →
      (0 < digits ∨ size ≠ []) → n < 2 ^ 64 → parseHexLoop n digits (size ++ extension) =
        if moreHex n size < 2 ^ 64 then some (moreHex n size) else none := by
  induction size with
  | nil =>
    intro n digits _ hsome hn
    have hdigits : 0 < digits := hsome.resolve_right fun hne => hne rfl
    have hfits : moreHex n [] < 2 ^ 64 := hn
    rw [List.nil_append, if_pos hfits]
    cases extension with
    | nil => exact if_pos hdigits
    | cons c rest =>
      obtain rfl := hext c rfl
      exact if_pos ⟨rfl, hdigits⟩
  | cons c rest ih =>
    intro n digits hall _ hn
    obtain ⟨hc, hall⟩ := List.forall_mem_cons.1 hall
    obtain ⟨d, hd⟩ := Option.isSome_iff_exists.1 hc
    have hsmall := hexDigit_lt hd
    have hmore : moreHex n (c :: rest) = moreHex (n * 16 + d) rest := by
      rw [moreHex, List.foldl_cons, hd]
      rfl
    rw [List.cons_append, parseHexLoop, hd, hmore]
    dsimp only
    by_cases hover : n > (2 ^ 64 - 1) / 16
    · have hle := le_moreHex rest (n * 16 + d)
      rw [if_pos hover, if_neg (by omega)]
    · rw [if_neg hover]
      exact ih hall (Or.inl (Nat.succ_pos digits)) (by omega)

/-- **`ParseHex` reads the sizes of 64 bits**, and no extension. -/
theorem parseHex_text (l : ChunkLine) :
    parseHex l.text = if l.number < 2 ^ 64 then some l.number else none :=
  parseHexLoop_eq l.extension_start l.size_digits (Or.inr l.size_some) (by decide)

theorem isLine_text (l : ChunkLine) : IsLine l.text := by
  refine isLine_append (fun hmem => ?_) l.extension_line
  have hdigit := l.size_digits 13 hmem
  exact absurd hdigit (by decide)

/-! ## Chunks -/

/-- A chunk with data. -/
structure Chunk where
  line : ChunkLine
  data : List UInt8
  data_length : line.number = data.length
  data_some : data ≠ []

def Chunk.bytes (c : Chunk) : List UInt8 := c.line.text ++ 13 :: 10 :: (c.data ++ crlf)

/-- The chunk of size zero, with the trailers and the empty line. -/
structure LastChunk where
  line : ChunkLine
  trailers : List (List UInt8)
  zero : line.number = 0
  trailer_lines : ∀ l ∈ trailers, IsLine l ∧ l ≠ []

def LastChunk.bytes (c : LastChunk) : List UInt8 :=
  c.line.text ++ 13 :: 10 :: (block c.trailers ++ crlf)

/-- The parser is at `rest`, in a body of chunks. -/
structure InChunks (p : Parser) (before rest : List UInt8) : Prop where
  ready : p.headersReady = true
  chunked : p.chunked = true
  status : ¬ (p.status = 204 ∨ p.status = 304)
  incoming : p.incoming = before ++ rest
  position : p.chunkPosition = before.length

theorem slice_middle (before middle rest : List UInt8) :
    slice (before ++ (middle ++ rest)) before.length (before.length + middle.length) = middle := by
  rw [slice, ← List.append_assoc, ← List.length_append, List.take_left, List.drop_left]

variable {p : Parser} {extra : List UInt8} {n : Nat}

variable {l : ChunkLine} {cs : List Chunk}

/-- A line with its size. -/
theorem InChunks.line {before rest : List UInt8}
    (h : InChunks p before (l.text ++ 13 :: 10 :: rest)) :
    findFrom crlf p.incoming p.chunkPosition = some (before.length + l.text.length) ∧
      parseHex (slice p.incoming p.chunkPosition (before.length + l.text.length)) =
        if l.number < 2 ^ 64 then some l.number else none := by
  rw [h.incoming, h.position, findFrom_line (isLine_text l), slice_middle, parseHex_text]
  exact ⟨rfl, rfl⟩

theorem advance_inChunks {before rest : List UInt8} (h : InChunks p before rest) :
    advance p = consumeChunk p := advance_chunk h.ready h.chunked h.status

/-- Where the data of a chunk are, and what follows them. -/
theorem InChunks.data {p : Parser} {before rest data : List UInt8} {l : ChunkLine}
    (h : InChunks p before (l.text ++ 13 :: 10 :: (data ++ rest))) :
    p.incoming.length = before.length + l.text.length + 2 + data.length + rest.length ∧
    slice p.incoming (before.length + l.text.length + 2)
        (before.length + l.text.length + 2 + data.length) = data ∧
    slice p.incoming (before.length + l.text.length + 2 + data.length)
        (before.length + l.text.length + 2 + data.length + 2) = rest.take 2 := by
  have hfront : (before ++ (l.text ++ crlf)).length = before.length + l.text.length + 2 := by
    rw [List.length_append, List.length_append, Nat.add_assoc]
    rfl
  have hincoming : p.incoming = (before ++ (l.text ++ crlf)) ++ (data ++ rest) := by
    rw [h.incoming]
    simp [crlf]
  refine ⟨?_, ?_, ?_⟩
  · rw [hincoming, List.length_append, hfront, List.length_append, Nat.add_assoc _ data.length]
  · rw [hincoming, ← hfront, slice_middle]
  · have hall : (before ++ (l.text ++ crlf) ++ data).length =
        before.length + l.text.length + 2 + data.length := by
      rw [List.length_append, hfront]
    rw [hincoming, ← List.append_assoc _ data, slice, List.drop_take, ← hall, List.drop_left,
      Nat.add_sub_cancel_left]

/-- A chunk is taken. -/
theorem advance_chunk_go {before rest : List UInt8} {c : Chunk}
    (h : InChunks p before (c.bytes ++ rest)) (hfits : p.body.length + c.data.length ≤ kMaxBody) :
    advance p = .go { p with
      body := p.body ++ c.data, chunkPosition := (before ++ c.bytes).length } := by
  have hbytes : c.bytes ++ rest = c.line.text ++ 13 :: 10 :: (c.data ++ (crlf ++ rest)) := by
    simp [Chunk.bytes]
  rw [hbytes] at h
  obtain ⟨hfound, hsize⟩ := h.line
  obtain ⟨hlength, hdata, hend⟩ := h.data
  have hpos : c.data.length ≠ 0 := fun h0 => c.data_some (List.length_eq_zero_iff.1 h0)
  have hmax : kMaxBody < 2 ^ 64 := by decide
  have hnext : (before ++ c.bytes).length =
      before.length + c.line.text.length + 2 + c.data.length + 2 := by
    have htwo : crlf.length = 2 := rfl
    rw [List.length_append, Chunk.bytes, List.length_append, List.length_cons, List.length_cons,
      List.length_append, htwo]
    omega
  have hcrlf : (crlf ++ rest).take 2 = crlf := rfl
  have hrest : (crlf ++ rest).length = 2 + rest.length := List.length_append
  rw [advance_inChunks h, consumeChunk, hfound]
  dsimp only
  rw [hsize, c.data_length, if_pos (by omega)]
  dsimp only
  rw [if_neg hpos, if_neg (by omega), if_neg (by omega), hdata, hend, hcrlf, if_neg fun hb => hb rfl,
    hnext]

/-- A chunk whose data are not followed by a line end is refused. -/
theorem advance_chunk_open {before rest data : List UInt8}
    (h : InChunks p before (l.text ++ 13 :: 10 :: (data ++ rest)))
    (hnumber : l.number = data.length) (hsome : data ≠ []) (hrest : 2 ≤ rest.length)
    (hopen : rest.take 2 ≠ crlf) : ∃ why, advance p = .done (fail p why) := by
  obtain ⟨hfound, hsize⟩ := h.line
  obtain ⟨hlength, -, hend⟩ := h.data
  have hpos : data.length ≠ 0 := fun h0 => hsome (List.length_eq_zero_iff.1 h0)
  rw [advance_inChunks h, consumeChunk, hfound]
  dsimp only
  rw [hsize, hnumber]
  -- which of the tests refuses it depends on its size: all of them close
  split
  · exact ⟨_, rfl⟩
  · rename_i size hsize
    split at hsize
    · obtain rfl := Option.some.inj hsize
      rw [if_neg hpos]
      split
      · exact ⟨_, rfl⟩
      · rw [if_neg (by omega), hend, if_pos hopen]
        exact ⟨_, rfl⟩
    · cases hsize

/-- A size of more than 64 bits is refused. -/
theorem advance_chunk_overflow {before rest : List UInt8}
    (h : InChunks p before (l.text ++ 13 :: 10 :: rest)) (hover : 2 ^ 64 ≤ l.number) :
    advance p = .done (fail p .chunk) := by
  obtain ⟨hfound, hsize⟩ := h.line
  rw [advance_inChunks h, consumeChunk, hfound]
  dsimp only
  rw [hsize, if_neg (Nat.not_lt.2 hover)]

theorem trailerEnd_block {rest : List UInt8} {lines : List (List UInt8)} :
    ∀ {fuel : Nat} {before : List UInt8}, (∀ l ∈ lines, IsLine l ∧ l ≠ []) → lines.length < fuel →
      trailerEnd (before ++ (block lines ++ 13 :: 10 :: rest)) fuel before.length =
        some (before.length + (block lines).length + 2) := by
  induction lines with
  | nil =>
    intro fuel before _ hfuel
    -- the empty line ends the trailers
    have hempty : IsLine [] := by decide
    have hfound := findFrom_line hempty before rest
    cases fuel with
    | zero => exact absurd hfuel (Nat.lt_irrefl 0)
    | succ fuel =>
      rw [List.nil_append, List.length_nil, Nat.add_zero] at hfound
      rw [block_nil, List.nil_append, trailerEnd, hfound]
      dsimp only
      rw [if_pos rfl]
      rfl
  | cons line lines ih =>
    intro fuel before hlines hfuel
    obtain ⟨⟨hline, hne⟩, hlines⟩ := List.forall_mem_cons.1 hlines
    have hpos : 0 < line.length := List.length_pos_of_ne_nil hne
    cases fuel with
    | zero => exact absurd hfuel (Nat.not_lt_zero _)
    | succ fuel =>
      have hfound := findFrom_line hline before (block lines ++ 13 :: 10 :: rest)
      have hlength : (before ++ (line ++ crlf)).length = before.length + line.length + 2 := by
        rw [List.length_append, List.length_append, Nat.add_assoc]
        rfl
      -- the trailer goes to what is behind the parser
      have hnext : before ++ (line ++ 13 :: 10 :: (block lines ++ 13 :: 10 :: rest)) =
          (before ++ (line ++ crlf)) ++ (block lines ++ 13 :: 10 :: rest) := by
        simp [crlf]
      have hrest := @ih fuel (before ++ (line ++ crlf)) hlines (Nat.lt_of_succ_lt_succ hfuel)
      rw [block_cons, trailerEnd, hfound]
      dsimp only
      rw [if_neg (by omega), hnext, ← hlength, hrest, hlength, length_block_cons]
      congr 1
      omega

/-- The last chunk ends the body. -/
theorem advance_last {before : List UInt8} {c : LastChunk}
    (h : InChunks p before (c.bytes ++ extra)) :
    advance p = .done (succeed p (before ++ c.bytes).length) := by
  have hbytes : c.bytes ++ extra =
      c.line.text ++ 13 :: 10 :: (block c.trailers ++ 13 :: 10 :: extra) := by
    simp [LastChunk.bytes, crlf]
  rw [hbytes] at h
  obtain ⟨hfound, hsize⟩ := h.line
  have hfront : (before ++ (c.line.text ++ crlf)).length =
      before.length + c.line.text.length + 2 := by
    rw [List.length_append, List.length_append, Nat.add_assoc]
    rfl
  have hincoming : p.incoming =
      (before ++ (c.line.text ++ crlf)) ++ (block c.trailers ++ 13 :: 10 :: extra) := by
    rw [h.incoming]
    simp [crlf]
  -- a trailer has at least the two bytes of its line end, so the fuel lasts
  have hfuel : c.trailers.length < p.incoming.length + 1 := by
    have hlines := length_le_block c.trailers
    simp only [hincoming, List.length_append]
    omega
  have htrailers : trailerEnd p.incoming (p.incoming.length + 1)
      (before.length + c.line.text.length + 2) = some (before ++ c.bytes).length := by
    have hend : (before ++ c.bytes).length =
        before.length + c.line.text.length + 2 + (block c.trailers).length + 2 := by
      have htwo : crlf.length = 2 := rfl
      rw [List.length_append, LastChunk.bytes, List.length_append, List.length_cons,
        List.length_cons, List.length_append, htwo]
      omega
    rw [hend, ← hfront]
    conv_lhs => rw [hincoming]
    exact trailerEnd_block c.trailer_lines (by rw [← hincoming]; exact hfuel)
  rw [advance_inChunks h, consumeChunk, hfound]
  dsimp only
  rw [hsize, c.zero, if_pos (by decide)]
  dsimp only
  rw [if_pos rfl, htrailers]

/-- A run over chunks: the induction follows the list of them. -/
theorem work_chunks : ∀ {p : Parser} {before rest : List UInt8},
    InChunks p before (cs.flatMap Chunk.bytes ++ rest) →
    p.body.length + (cs.flatMap Chunk.data).length ≤ kMaxBody →
    ∃ q before', responses.work p = responses.work q ∧ InChunks q before' rest ∧
      q.body = p.body ++ cs.flatMap Chunk.data ∧ q.status = p.status ∧
      before'.length = before.length + (cs.flatMap Chunk.bytes).length := by
  induction cs with
  | nil =>
    intro p before rest h _
    exact ⟨p, before, rfl, h, (List.append_nil _).symm, rfl, rfl⟩
  | cons c cs ih =>
    intro p before rest h hfits
    rw [List.flatMap_cons, List.append_assoc] at h
    rw [List.flatMap_cons, List.length_append] at hfits
    have hgo := advance_chunk_go h (by omega)
    -- the chunk has moved from what is ahead to what is behind
    have hnext : InChunks { p with
        body := p.body ++ c.data, chunkPosition := (before ++ c.bytes).length }
        (before ++ c.bytes) (cs.flatMap Chunk.bytes ++ rest) :=
      ⟨h.ready, h.chunked, h.status, by rw [List.append_assoc]; exact h.incoming, rfl⟩
    obtain ⟨q, before', hwork, hin, hbody, hstatus, hlength⟩ := ih hnext (by
      rw [List.length_append]
      omega)
    refine ⟨q, before', (Machine.work_go (M := responses) hgo).trans hwork, hin, ?_, hstatus, ?_⟩
    · rw [hbody, List.flatMap_cons, List.append_assoc]
    · rw [hlength, List.flatMap_cons, List.length_append, List.length_append]
      omega

/-! ## Header blocks -/

/-- The parser is at `rest`, with no header block read since the last interim response. -/
structure AtHead (p : Parser) (rest : List UInt8) : Prop where
  ready : p.headersReady = false
  incoming : p.incoming = rest
  body : p.body = []

theorem outside_eq {q : Parser} (h : q.outside = p.outside) :
    q.incoming = p.incoming ∧ q.body = p.body ∧ q.interimResponses = p.interimResponses := by
  have hincoming := congrArg Parser.incoming h
  have hbody := congrArg Parser.body h
  have hinterim := congrArg Parser.interimResponses h
  exact ⟨hincoming, hbody, hinterim⟩

/-- An interim response is dropped. -/
theorem advance_interim {i : Head} {rest : List UInt8} (h : AtHead p (i.bytes ++ rest))
    (hframed : i.WellFramed n) (hcode : i.code < 200) (hsize : i.bytes.length ≤ kMaxHeader + 4)
    (hfew : p.interimResponses < 16) :
    ∃ q, advance p = .go q ∧ AtHead q rest ∧ q.interimResponses = p.interimResponses + 1 := by
  obtain ⟨q, hparse, hout, -, -, -⟩ := parseHeaders_accepts h.incoming hframed
  obtain ⟨hincoming, hbody, hinterim⟩ := outside_eq hout
  have hstatus : q.status = i.code := status_eq hout
  have hready : q.headersReady = false := by
    have hready := congrArg Parser.headersReady hout
    exact hready.trans h.ready
  have hincoming : q.incoming = i.bytes ++ rest := hincoming.trans h.incoming
  have hinterim : q.interimResponses = p.interimResponses := hinterim
  refine ⟨{ q with
    incoming := rest, interimResponses := q.interimResponses + 1 }, ?_, ⟨hready, rfl, ?_⟩, ?_⟩
  · have hlong : 4 ≤ i.bytes.length := by
      have hle := find_le (i.find_bytes [])
      have hfour : crlfcrlf.length = 4 := rfl
      rw [List.append_nil] at hle
      omega
    -- `parseHeaders` leaves the buffer alone; the block is erased with its empty line
    have hdrop : q.incoming.drop (i.bytes.length - 4 + 4) = rest := by
      rw [hincoming, Nat.sub_add_cancel hlong, List.drop_left]
    rw [advance_header h.ready, consumeHeader, h.incoming, i.find_bytes]
    dsimp only
    rw [if_neg (by omega), hparse]
    dsimp only
    rw [if_pos (by omega), if_neg (by omega), hdrop]
  · exact hbody.trans h.body
  · exact congrArg (· + 1) hinterim

/-- The final header block is read. -/
theorem advance_final {h : Head} {rest : List UInt8} (hat : AtHead p (h.bytes ++ rest))
    (hframed : h.WellFramed n) (hcode : 200 ≤ h.code) (hsize : h.bytes.length ≤ kMaxHeader + 4) :
    ∃ q, advance p = .go q ∧ q.headersReady = true ∧ q.incoming = h.bytes ++ rest ∧ q.body = [] ∧
      q.status = h.code ∧ q.headerBytes = h.bytes.length ∧ q.chunkPosition = h.bytes.length ∧
      q.hasLength = !h.lengths.isEmpty ∧ q.chunked = !h.codings.isEmpty ∧
      (q.hasLength = true → q.contentLength = n) := by
  obtain ⟨q, hparse, hout, hhas, hchunked, hn⟩ := parseHeaders_accepts hat.incoming hframed
  obtain ⟨hincoming, hbody, -⟩ := outside_eq hout
  have hstatus : q.status = h.code := status_eq hout
  have hlong : h.bytes.length - 4 + 4 = h.bytes.length := by
    have hle := find_le (h.find_bytes [])
    have hfour : crlfcrlf.length = 4 := rfl
    rw [List.append_nil] at hle
    omega
  refine ⟨{ q with
    headersReady := true, headerBytes := h.bytes.length, chunkPosition := h.bytes.length }, ?_, rfl,
    hincoming.trans hat.incoming, hbody.trans hat.body, hstatus, rfl, rfl, hhas, hchunked, hn⟩
  rw [advance_header hat.ready, consumeHeader, hat.incoming, h.find_bytes]
  dsimp only
  rw [if_neg (by omega), hparse]
  dsimp only
  rw [if_neg (by omega), hlong]

/-- A header block whose fields do not agree is refused. -/
theorem advance_refused {h : Head} {rest : List UInt8} (hat : AtHead p (h.bytes ++ rest))
    (hbad : ∀ n, ¬ h.WellFramed n) : ∃ q, advance p = .done (fail q .status) := by
  rw [advance_header hat.ready, consumeHeader, hat.incoming, h.find_bytes]
  dsimp only
  split
  · exact ⟨p, rfl⟩
  · cases hparse : parseHeaders p (h.bytes.length - 4) with
    | mk ok q =>
      cases ok with
      | false => exact ⟨q, rfl⟩
      | true => exact absurd (wellFramed_of_parse hat.incoming hparse) (hbad _)

/-- A run over interim responses. -/
theorem work_interims {interims : List Head} : ∀ {p : Parser} {rest : List UInt8},
    AtHead p (interims.flatMap Head.bytes ++ rest) →
    (∀ i ∈ interims, i.code < 200 ∧ (∃ n, i.WellFramed n) ∧ i.bytes.length ≤ kMaxHeader + 4) →
    p.interimResponses + interims.length ≤ 16 →
    ∃ q, responses.work p = responses.work q ∧ AtHead q rest := by
  induction interims with
  | nil =>
    intro p rest h _ _
    exact ⟨p, rfl, h⟩
  | cons i interims ih =>
    intro p rest h hall hfew
    obtain ⟨⟨hcode, ⟨n, hframed⟩, hsize⟩, hall⟩ := List.forall_mem_cons.1 hall
    rw [List.length_cons] at hfew
    rw [List.flatMap_cons, List.append_assoc] at h
    obtain ⟨r, hgo, hat, hcount⟩ := advance_interim h hframed hcode hsize (by omega)
    obtain ⟨q, hwork, hq⟩ := ih hat hall (by omega)
    exact ⟨q, (Machine.work_go (M := responses) hgo).trans hwork, hq⟩

/-! ## The response -/

/-- A header block with interim responses before it and other bytes behind it, within the limits. -/
structure Sent (interims : List Head) (h : Head) (rest : List UInt8) : Prop where
  interim : ∀ i ∈ interims,
    i.code < 200 ∧ (∃ n, i.WellFramed n) ∧ i.bytes.length ≤ kMaxHeader + 4
  few : interims.length ≤ 16
  header : h.bytes.length ≤ kMaxHeader + 4
  total : (interims.flatMap Head.bytes ++ (h.bytes ++ rest)).length ≤ kMaxHeader + kMaxBody

/-- The request succeeds with this body. The connection is kept only if nothing is left behind. -/
def Published (text : List UInt8) (close : Bool) (code : Nat) (body extra : List UInt8) : Prop :=
  ∃ f, receive beginResponse [text] close = some f ∧ f.bFail = false ∧ f.status = code ∧
    f.body = body ∧ (f.bClose = false → extra = [])

/-- The request fails and the connection is closed. -/
def Refused (text : List UInt8) (close : Bool) : Prop :=
  ∃ f, receive beginResponse [text] close = some f ∧ f.bFail = true ∧ f.bClose = true

/-- What `Consume` makes of a segment within the limit is what the request ends with. -/
theorem receive_whole {text : List UInt8} {f : Finish} (close : Bool)
    (htotal : text.length ≤ kMaxHeader + kMaxBody)
    (hwork : responses.work (beginResponse.append text) = .done f) :
    receive beginResponse [text] close = some f := by
  have hconsume : onDataIn beginResponse text = .done f := by
    rw [onDataIn, if_neg]
    · exact hwork
    · show ¬ 0 + text.length > _
      omega
  rw [receive, hconsume]

theorem succeed_kept {used : Nat} {before : List UInt8} (hincoming : p.incoming = before ++ extra)
    (hused : used = before.length) (hkept : (succeed p used).bClose = false) : extra = [] := by
  -- bytes behind the message set `bClose`
  have hall : ¬ used < p.incoming.length := by
    have hkept : (p.closeAfter || decide (used < p.incoming.length)) = false := hkept
    rw [Bool.or_eq_false_iff] at hkept
    exact of_decide_eq_false hkept.2
  rw [hincoming, hused, List.length_append] at hall
  exact List.length_eq_zero_iff.1 (by omega)

variable {interims : List Head} {h : Head} {rest : List UInt8} (close : Bool)

/-- A response is read up to its final header block. -/
theorem Sent.work_head (hsent : Sent interims h rest) :
    ∃ p, responses.work (beginResponse.append (interims.flatMap Head.bytes ++ (h.bytes ++ rest))) =
      responses.work p ∧ AtHead p (h.bytes ++ rest) :=
  work_interims ⟨rfl, rfl, rfl⟩ hsent.interim (by
    show 0 + interims.length ≤ 16
    have hfew := hsent.few
    omega)

theorem Sent.refused_of_advance (hsent : Sent interims h rest)
    (hwork : responses.work (beginResponse.append (interims.flatMap Head.bytes ++ (h.bytes ++ rest))) =
      responses.work p) (hfail : ∃ q why, advance p = .done (fail q why)) :
    Refused (interims.flatMap Head.bytes ++ (h.bytes ++ rest)) close := by
  obtain ⟨q, why, hfail⟩ := hfail
  refine ⟨fail q why, receive_whole close hsent.total ?_, rfl, rfl⟩
  rw [hwork]
  exact Machine.work_done (M := responses) hfail

theorem Sent.published_of_advance (hsent : Sent interims h rest) {q : Parser} {used : Nat}
    (before extra : List UInt8)
    (hwork : responses.work (beginResponse.append (interims.flatMap Head.bytes ++ (h.bytes ++ rest))) =
      responses.work p) (hdone : advance p = .done (succeed q used)) (hstatus : q.status = h.code)
    (hincoming : q.incoming = before ++ extra) (hused : used = before.length) :
    Published (interims.flatMap Head.bytes ++ (h.bytes ++ rest)) close h.code q.body extra := by
  refine ⟨succeed q used, receive_whole close hsent.total ?_, rfl, hstatus, rfl,
    succeed_kept hincoming hused⟩
  rw [hwork]
  exact Machine.work_done (M := responses) hdone

/-- Fields that do not agree make the response a failure. -/
theorem Sent.refused_fields (hsent : Sent interims h rest) (hbad : ∀ n, ¬ h.WellFramed n) :
    Refused (interims.flatMap Head.bytes ++ (h.bytes ++ rest)) close := by
  obtain ⟨p, hwork, hat⟩ := hsent.work_head
  obtain ⟨q, hfail⟩ := advance_refused hat hbad
  exact hsent.refused_of_advance close hwork ⟨q, _, hfail⟩

/-- A response without a body. -/
theorem Sent.published_empty (hsent : Sent interims h rest) (hframed : h.WellFramed n)
    (hcode : h.code = 204 ∨ h.code = 304) :
    Published (interims.flatMap Head.bytes ++ (h.bytes ++ rest)) close h.code [] rest := by
  obtain ⟨p, hwork, hat⟩ := hsent.work_head
  obtain ⟨q, hgo, hready, hincoming, hbody, hstatus, hused, -⟩ :=
    advance_final hat hframed (by omega) hsent.header
  have hdone := advance_empty hready (by rw [hstatus]; exact hcode)
  have hpublished := hsent.published_of_advance close h.bytes rest
    (hwork.trans (Machine.work_go (M := responses) hgo)) hdone hstatus hincoming hused
  rw [hbody] at hpublished
  exact hpublished

/-- A body of an announced length. -/
theorem Sent.published_length {body : List UInt8} (hsent : Sent interims h (body ++ extra))
    (hframed : h.WellFramed body.length) (hcode : 200 ≤ h.code)
    (hempty : ¬ (h.code = 204 ∨ h.code = 304)) (hlengths : h.lengths ≠ []) :
    Published (interims.flatMap Head.bytes ++ (h.bytes ++ (body ++ extra))) close h.code body
      extra := by
  obtain ⟨p, hwork, hat⟩ := hsent.work_head
  obtain ⟨q, hgo, hready, hincoming, -, hstatus, hused, -, hhas, hchunked, hn⟩ :=
    advance_final hat hframed hcode hsent.header
  have hhas : q.hasLength = true := by
    rw [hhas, List.isEmpty_eq_false_iff.2 hlengths]
    rfl
  have hchunked : q.chunked = false := by
    rw [hchunked, hframed.one.resolve_left hlengths]
    rfl
  have hlength : q.contentLength = body.length := hn hhas
  have hslice : slice q.incoming q.headerBytes (q.headerBytes + body.length) = body := by
    rw [hincoming, hused, slice_middle]
  have hdone := advance_plain hready hchunked (by rw [hstatus]; exact hempty)
  have hthere : ¬ q.incoming.length - q.headerBytes < q.contentLength := by
    rw [hincoming, hused, hlength, List.length_append, List.length_append]
    omega
  -- the length is announced, and all of the body is there
  rw [if_neg (by rw [hhas]; exact fun he => by cases he), if_neg hthere, hlength, hslice] at hdone
  refine hsent.published_of_advance close (h.bytes ++ body) extra
    (hwork.trans (Machine.work_go (M := responses) hgo)) hdone hstatus ?_ ?_
  · rw [List.append_assoc]
    exact hincoming
  · rw [hused, List.length_append]

/-- The parser is at the first chunk. -/
theorem Sent.work_chunked (hsent : Sent interims h rest) (hframed : h.WellFramed n)
    (hcode : 200 ≤ h.code) (hempty : ¬ (h.code = 204 ∨ h.code = 304)) (hcodings : h.codings ≠ []) :
    ∃ q, responses.work (beginResponse.append (interims.flatMap Head.bytes ++ (h.bytes ++ rest))) =
      responses.work q ∧ InChunks q h.bytes rest ∧ q.body = [] ∧ q.status = h.code := by
  obtain ⟨p, hwork, hat⟩ := hsent.work_head
  obtain ⟨q, hgo, hready, hincoming, hbody, hstatus, -, hposition, -, hchunked, -⟩ :=
    advance_final hat hframed hcode hsent.header
  have hchunked : q.chunked = true := by
    rw [hchunked, List.isEmpty_eq_false_iff.2 hcodings]
    rfl
  exact ⟨q, hwork.trans (Machine.work_go (M := responses) hgo),
    ⟨hready, hchunked, by rw [hstatus]; exact hempty, hincoming, hposition⟩, hbody, hstatus⟩

/-- After chunks within the limit, the parser is behind them. -/
theorem Sent.work_after_chunks {tail : List UInt8}
    (hsent : Sent interims h (cs.flatMap Chunk.bytes ++ tail)) (hframed : h.WellFramed n)
    (hcode : 200 ≤ h.code) (hempty : ¬ (h.code = 204 ∨ h.code = 304)) (hcodings : h.codings ≠ [])
    (hfits : (cs.flatMap Chunk.data).length ≤ kMaxBody) :
    ∃ q before, responses.work (beginResponse.append
        (interims.flatMap Head.bytes ++ (h.bytes ++ (cs.flatMap Chunk.bytes ++ tail)))) =
      responses.work q ∧ InChunks q before tail ∧ q.body = cs.flatMap Chunk.data ∧
      q.status = h.code := by
  obtain ⟨p, hwork, hin, hbody, hstatus⟩ := hsent.work_chunked hframed hcode hempty hcodings
  obtain ⟨q, before, hwork', hin', hbody', hstatus', -⟩ := work_chunks hin (by
    rw [hbody, List.length_nil, Nat.zero_add]
    exact hfits)
  rw [hbody, List.nil_append] at hbody'
  exact ⟨q, before, hwork.trans hwork', hin', hbody', hstatus'.trans hstatus⟩

/-- A body in chunks. -/
theorem Sent.published_chunks {last : LastChunk}
    (hsent : Sent interims h (cs.flatMap Chunk.bytes ++ (last.bytes ++ extra)))
    (hframed : h.WellFramed n) (hcode : 200 ≤ h.code) (hempty : ¬ (h.code = 204 ∨ h.code = 304))
    (hcodings : h.codings ≠ []) (hfits : (cs.flatMap Chunk.data).length ≤ kMaxBody) :
    Published (interims.flatMap Head.bytes ++
      (h.bytes ++ (cs.flatMap Chunk.bytes ++ (last.bytes ++ extra)))) close h.code
      (cs.flatMap Chunk.data) extra := by
  obtain ⟨q, before, hwork, hin, hbody, hstatus⟩ :=
    hsent.work_after_chunks hframed hcode hempty hcodings hfits
  have hpublished := hsent.published_of_advance close (before ++ last.bytes) extra
    hwork (advance_last hin) hstatus (by
      rw [List.append_assoc]
      exact hin.incoming) rfl
  rw [hbody] at hpublished
  exact hpublished

/-- Fields that cannot agree: both framings, two lengths, another coding, or too large a number. -/
def Disagrees (h : Head) : Prop :=
  (h.lengths ≠ [] ∧ h.codings ≠ []) ∨
  (∃ v ∈ h.lengths, ∃ w ∈ h.lengths, Decimal.value v ≠ Decimal.value w) ∨
  (∃ v ∈ h.codings, ¬ SaysChunked v) ∨ ∃ v ∈ h.lengths, 2 ^ 64 ≤ Decimal.value v

theorem not_wellFramed (hbad : Disagrees h) (n : Nat) : ¬ h.WellFramed n := by
  intro hframed
  rcases hbad with ⟨hlengths, hcodings⟩ | ⟨v, hv, w, hw, hne⟩ | ⟨v, hv, hother⟩ | ⟨v, hv, hover⟩
  · rcases hframed.one with hnone | hnone
    · exact hlengths hnone
    · exact hcodings hnone
  · exact hne ((hframed.lengths v hv).number.trans (hframed.lengths w hw).number.symm)
  · exact hother (hframed.codings v hv)
  · have hn := (hframed.lengths v hv).number
    have hfits := (hframed.lengths v hv).fits
    omega

/-- **Bodies are decoded exactly.** For a response within the limits that comes in one segment: no
body with 204 and 304; the announced number of bytes; the data of the chunks, whatever their sizes'
case, their extensions and the trailers. Fields that disagree, a chunk without its end and a size of
more than 64 bits are failures. -/
theorem bodies_exact (hsent : Sent interims h rest) (close : Bool) :
    (∀ n, h.WellFramed n → h.code = 204 ∨ h.code = 304 →
      Published (interims.flatMap Head.bytes ++ (h.bytes ++ rest)) close h.code [] rest) ∧
    (200 ≤ h.code → ¬ (h.code = 204 ∨ h.code = 304) →
      (∀ body extra, rest = body ++ extra → h.WellFramed body.length → h.lengths ≠ [] →
        Published (interims.flatMap Head.bytes ++ (h.bytes ++ rest)) close h.code body extra) ∧
      ∀ n, h.WellFramed n → h.codings ≠ [] →
        ∀ cs : List Chunk, (cs.flatMap Chunk.data).length ≤ kMaxBody →
        (∀ (last : LastChunk) (extra : List UInt8),
          rest = cs.flatMap Chunk.bytes ++ (last.bytes ++ extra) →
          Published (interims.flatMap Head.bytes ++ (h.bytes ++ rest)) close h.code
            (cs.flatMap Chunk.data) extra) ∧
        (∀ (l : ChunkLine) (data tail : List UInt8),
          rest = cs.flatMap Chunk.bytes ++ (l.text ++ 13 :: 10 :: (data ++ tail)) →
          l.number = data.length → data ≠ [] → 2 ≤ tail.length → tail.take 2 ≠ crlf →
          Refused (interims.flatMap Head.bytes ++ (h.bytes ++ rest)) close) ∧
        ∀ (l : ChunkLine) (tail : List UInt8),
          rest = cs.flatMap Chunk.bytes ++ (l.text ++ 13 :: 10 :: tail) → 2 ^ 64 ≤ l.number →
          Refused (interims.flatMap Head.bytes ++ (h.bytes ++ rest)) close) ∧
    (Disagrees h → Refused (interims.flatMap Head.bytes ++ (h.bytes ++ rest)) close) := by
  refine ⟨fun n hframed hcode => hsent.published_empty close hframed hcode, ?_,
    fun hbad => hsent.refused_fields close (not_wellFramed hbad)⟩
  intro hcode hempty
  refine ⟨?_, ?_⟩
  · rintro body extra rfl hframed hlengths
    exact hsent.published_length close hframed hcode hempty hlengths
  · intro n hframed hcodings cs hfits
    refine ⟨?_, ?_, ?_⟩
    · rintro last extra rfl
      exact hsent.published_chunks close hframed hcode hempty hcodings hfits
    · rintro l data tail rfl hnumber hsome htail hopen
      obtain ⟨q, before, hwork, hin, -, -⟩ :=
        hsent.work_after_chunks hframed hcode hempty hcodings hfits
      obtain ⟨why, hfail⟩ := advance_chunk_open hin hnumber hsome htail hopen
      exact hsent.refused_of_advance close hwork ⟨q, why, hfail⟩
    · rintro l tail rfl hover
      obtain ⟨q, before, hwork, hin, -, -⟩ :=
        hsent.work_after_chunks hframed hcode hempty hcodings hfits
      exact hsent.refused_of_advance close hwork ⟨q, _, advance_chunk_overflow hin hover⟩

/-- A chunked response with an interim one before it, in mixed case, with an extension and a
trailer. -/
def goOn : Head where
  modern := true
  code := 100
  reason := ascii " Continue"
  fields := []
  code_range := by decide
  code_switch := by decide
  reason_start := by decide +kernel
  reason_line := by decide +kernel

def inChunks : Head where
  modern := true
  code := 200
  reason := []
  fields := [{
    name := ascii "Transfer-Encoding"
    gap := 0
    left := ascii " "
    value := ascii "Chunked"
    right := []
    name_colon := by decide +kernel
    name_end := by decide +kernel
    left_blank := by decide +kernel
    right_blank := by decide +kernel
    value_start := by decide +kernel
    value_end := by decide +kernel
    line := by decide +kernel }]
  code_range := by decide
  code_switch := by decide
  reason_start := by decide +kernel
  reason_line := by decide +kernel

def tenLetters : Chunk where
  line := {
    size := ascii "0A"
    extension := ascii ";x"
    size_some := by decide +kernel
    size_digits := by decide +kernel
    extension_start := by decide +kernel
    extension_line := by decide +kernel }
  data := ascii "abcdefghij"
  data_length := by decide +kernel
  data_some := by decide +kernel

def noMore : LastChunk where
  line := {
    size := ascii "0"
    extension := []
    size_some := by decide +kernel
    size_digits := by decide +kernel
    extension_start := by decide +kernel
    extension_line := by decide +kernel }
  trailers := [ascii "T: 1"]
  zero := by decide +kernel
  trailer_lines := by decide +kernel

theorem bodies_exact_chunks :
    Published (goOn.bytes ++ (inChunks.bytes ++ (tenLetters.bytes ++ noMore.bytes))) false 200
      (ascii "abcdefghij") [] := by
  have hsent : Sent [goOn] inChunks (tenLetters.bytes ++ noMore.bytes) := by
    refine ⟨fun i hi => ?_, by decide, by decide +kernel, by decide +kernel⟩
    obtain rfl := List.mem_singleton.1 hi
    exact ⟨by decide, ⟨0, fun v hv => absurd hv List.not_mem_nil,
      fun v hv => absurd hv List.not_mem_nil, Nat.zero_le 1, Or.inl rfl⟩, by decide +kernel⟩
  have hframed : inChunks.WellFramed 0 := by
    refine ⟨fun v hv => ?_, fun v hv => ?_, by decide +kernel, Or.inl (by decide +kernel)⟩
    · have hnone : inChunks.lengths = [] := by decide +kernel
      rw [hnone] at hv
      exact absurd hv List.not_mem_nil
    · have hone : inChunks.codings = [ascii "Chunked"] := by decide +kernel
      rw [hone] at hv
      obtain rfl := List.mem_singleton.1 hv
      show _ = _
      decide +kernel
  have hpublished := (((bodies_exact hsent false).2.1 (by decide) (by decide)).2 0 hframed
    (by decide +kernel) [tenLetters] (by decide +kernel)).1 noMore [] (by simp)
  simp only [List.flatMap_cons, List.flatMap_nil, List.append_nil] at hpublished
  exact hpublished

end OpenIdea.Http
