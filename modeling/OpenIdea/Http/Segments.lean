import OpenIdea.Http.Response

/-!
# A response in segments

The bytes of a response come in segments of the network's choosing. `Consume` starts again with all
that has come, and what it has found stays found when more comes: header blocks, chunk lines and
chunks are where they were. The limits are another matter. They are tested on the bytes that happen
to be there, and three of these tests give up on responses that are accepted when they come in
larger or smaller pieces. Where none of the three does, the outcome is the same for all segments
(`published_of_clean`); `published_depends_on_segments` is a response for which it is not.
-/

set_option autoImplicit false

namespace OpenIdea.Http

open OpenIdea.Lib.Search OpenIdea.Lib.Rounds

/-! ## What was found stays where it is

The searches stop at the first occurrence, and more bytes do not move it. -/

@[simp] theorem append_incoming (p : Parser) (more : List UInt8) :
    (p.append more).incoming = p.incoming ++ more := rfl

theorem append_nil (p : Parser) : p.append [] = p := by
  rw [Parser.append, List.append_nil]

theorem append_append (p : Parser) (xs ys : List UInt8) :
    (p.append xs).append ys = p.append (xs ++ ys) := by
  simp only [Parser.append, List.append_assoc]

theorem slice_append {text : List UInt8} {a b : Nat} (h : b ≤ text.length) (more : List UInt8) :
    slice (text ++ more) a b = slice text a b := by
  rw [slice, slice, List.take_append_of_le_length h]

/-- The parser `o` with what `p` knows from a header block. -/
def Parser.within (p o : Parser) : Parser :=
  { o with
    status := p.status, hasLength := p.hasLength, chunked := p.chunked,
    contentLength := p.contentLength, closeAfter := p.closeAfter }

/-- A header line is read without the other fields. -/
theorem headerLine_within (p o : Parser) (line : List UInt8) :
    headerLine (p.within o) line =
      ((headerLine p line).1, (headerLine p line).2.within o) := by
  simp only [headerLine, noteConnection, Parser.within]
  split
  case h_1 => rfl
  case h_2 colon _ =>
    split
    case isTrue =>
      split
      case h_1 => rfl
      case h_2 length _ =>
        split
        case isTrue hbad => exact if_pos hbad
        case isFalse hgood => exact if_neg hgood
    case isFalse =>
      split
      case isTrue =>
        split
        case isTrue hbad => exact if_pos hbad
        case isFalse hgood => exact if_neg hgood
      case isFalse =>
        split
        case isTrue =>
          split
          · rfl
          · split
            · rfl
            · rfl
        case isFalse => rfl

theorem headerLine_self (p : Parser) (line : List UInt8) :
    (headerLine p line).2 = (headerLine p line).2.within p :=
  congrArg Prod.snd (headerLine_within p p line)

/-- A header line is read without the bytes that came in. -/
theorem headerLine_append (p : Parser) (line more : List UInt8) :
    headerLine (p.append more) line =
      ((headerLine p line).1, (headerLine p line).2.append more) := by
  have happend : (headerLine p line).2.append more =
      (headerLine p line).2.within (p.append more) := by
    rw [headerLine_self p line]
    rfl
  rw [happend]
  exact headerLine_within p (p.append more) line

theorem headerLines_within (text : List UInt8) (headerEnd : Nat) (o : Parser) :
    ∀ (fuel position : Nat) (p : Parser),
      headerLines text headerEnd fuel position (p.within o) =
        ((headerLines text headerEnd fuel position p).1,
          (headerLines text headerEnd fuel position p).2.within o) := by
  intro fuel
  induction fuel with
  | zero =>
    intro position p
    rfl
  | succ fuel ih =>
    intro position p
    simp only [headerLines]
    split
    case isFalse => rfl
    case isTrue =>
      split
      case h_1 => rfl
      case h_2 lineEnd _ =>
        split
        case isTrue => rfl
        case isFalse =>
          rw [headerLine_within]
          cases headerLine p (slice text position lineEnd) with
          | mk ok q =>
            cases ok with
            | false => rfl
            | true => exact ih (lineEnd + 2) q

variable {headerEnd : Nat} {f : Finish}

/-- The lines of a header block whose end is there. -/
theorem headerLines_append {text : List UInt8} (more : List UInt8)
    (hend : crlf <+: text.drop headerEnd) (hlen : headerEnd ≤ text.length) :
    ∀ (fuel position : Nat) (p : Parser),
      headerLines (text ++ more) headerEnd fuel position (p.append more) =
        ((headerLines text headerEnd fuel position p).1,
          (headerLines text headerEnd fuel position p).2.append more) := by
  intro fuel
  induction fuel with
  | zero =>
    intro position p
    rfl
  | succ fuel ih =>
    intro position p
    simp only [headerLines]
    by_cases hpos : position < headerEnd
    · rw [if_pos hpos, if_pos hpos]
      -- the line ends at the end of the block at the latest
      obtain ⟨lineEnd, hfound, hle⟩ := findFrom_of_prefix (Nat.le_of_lt hpos) hlen hend
      have hin := findFrom_le crlf_ne_nil hfound
      rw [findFrom_append crlf_ne_nil hfound, hfound]
      dsimp only
      rw [if_neg (Nat.not_lt.2 hle), if_neg (Nat.not_lt.2 hle), headerLine_append,
        slice_append (by omega)]
      cases hline : headerLine p (slice text position lineEnd) with
      | mk ok q =>
        cases ok with
        | false => rfl
        | true => exact ih (lineEnd + 2) q
    · rw [if_neg hpos, if_neg hpos]

theorem crlf_of_crlfcrlf {text : List UInt8} (h : crlfcrlf <+: text) : crlf <+: text :=
  List.IsPrefix.trans ⟨[13, 10], rfl⟩ h

variable {p q : Parser}

/-- `ParseHeaders` reads the header block only. -/
theorem parseHeaders_append (h : find crlfcrlf p.incoming = some headerEnd) (more : List UInt8) :
    parseHeaders (p.append more) headerEnd =
      ((parseHeaders p headerEnd).1, (parseHeaders p headerEnd).2.append more) := by
  obtain ⟨hpre, hlen, _⟩ := find_eq_some.1 h
  have hend := crlf_of_crlfcrlf hpre
  obtain ⟨lineEnd, hfound, hle⟩ := findFrom_of_prefix (Nat.zero_le headerEnd) hlen hend
  have hin := findFrom_le crlf_ne_nil hfound
  simp only [parseHeaders, append_incoming]
  rw [findFrom_append crlf_ne_nil hfound, hfound]
  dsimp only
  rw [if_neg (Nat.not_lt.2 hle), if_neg (Nat.not_lt.2 hle), slice_append (by omega)]
  cases hcode : statusCode (slice p.incoming 0 lineEnd) with
  | none => rfl
  | some code =>
    have hlines := headerLines_append more hend hlen headerEnd (lineEnd + 2)
      { p with
        status := code, hasLength := false, chunked := false, contentLength := 0,
        closeAfter := (slice p.incoming 0 lineEnd).take 9 == ascii "HTTP/1.0 " }
    dsimp only
    rw [Parser.append] at hlines ⊢
    dsimp only at hlines ⊢
    rw [hlines]
    cases headerLines p.incoming headerEnd headerEnd (lineEnd + 2)
      { p with
        status := code, hasLength := false, chunked := false, contentLength := 0,
        closeAfter := (slice p.incoming 0 lineEnd).take 9 == ascii "HTTP/1.0 " } with
    | mk ok q =>
      cases ok with
      | false => rfl
      | true => rfl

/-- What `ParseHeaders` leaves alone. -/
def Parser.frame (p : Parser) : List UInt8 × Bool := (p.incoming, p.headersReady)

theorem headerLines_frame (text : List UInt8) (headerEnd fuel position : Nat) (p : Parser) :
    (headerLines text headerEnd fuel position p).2.frame = p.frame := by
  have hself : (headerLines text headerEnd fuel position p).2 =
      (headerLines text headerEnd fuel position p).2.within p :=
    congrArg Prod.snd (headerLines_within text headerEnd p fuel position p)
  rw [hself]
  rfl

theorem parseHeaders_frame (p : Parser) (headerEnd : Nat) :
    (parseHeaders p headerEnd).2.frame = p.frame := by
  simp only [parseHeaders]
  split
  case h_1 => rfl
  case h_2 lineEnd _ =>
    split
    case isTrue => rfl
    case isFalse =>
      split
      case h_1 => rfl
      case h_2 code _ =>
        have hlines := headerLines_frame p.incoming headerEnd headerEnd (lineEnd + 2)
          { p with
            status := code, hasLength := false, chunked := false, contentLength := 0,
            closeAfter := (slice p.incoming 0 lineEnd).take 9 == ascii "HTTP/1.0 " }
        split
        case h_1 q hq =>
          rw [hq] at hlines
          exact hlines
        case h_2 q hq =>
          rw [hq] at hlines
          exact hlines

theorem parseHeaders_incoming (p : Parser) (headerEnd : Nat) :
    (parseHeaders p headerEnd).2.incoming = p.incoming :=
  congrArg Prod.fst (parseHeaders_frame p headerEnd)

/-! ## Where the code gives up too early -/

/-- The header block has no end yet, is over the limit, and may still end within it: `headerEnd` is
compared with the limit, the size of an open block with the same limit, and the end mark has four
bytes. -/
def openHeader (p : Parser) : Bool :=
  !p.headersReady && (find crlfcrlf p.incoming).isNone && decide (kMaxHeader < p.incoming.length) &&
    [1, 2, 3].any fun k => decide (p.incoming.length - k ≤ kMaxHeader) &&
      (p.incoming.drop (p.incoming.length - k)).isPrefixOf crlfcrlf

/-- A line without the first half of its end. -/
def stripCr (line : List UInt8) : List UInt8 :=
  if line.getLast? = some 13 then line.dropLast else line

/-- A chunk line has no end yet, is longer than an open line may be, and has a size: a line that has
come as a whole may be of any length. -/
def openLine (p : Parser) : Bool :=
  p.headersReady && p.chunked && decide (p.status ≠ 204 ∧ p.status ≠ 304) &&
    (findFrom crlf p.incoming p.chunkPosition).isNone &&
    decide (kMaxChunkLine < p.incoming.length - p.chunkPosition) &&
    (parseHex (stripCr (p.incoming.drop p.chunkPosition))).isSome

/-- The parser does not give up here on a response that may still be a good one. -/
def sure (p : Parser) : Bool := !openHeader p && !openLine p

/-- What no line can start with stays so. -/
theorem parseHexLoop_none_append {more : List UInt8} :
    ∀ {text : List UInt8} {value digits : Nat}, text ≠ [] ∨ 0 < digits →
      parseHexLoop value digits text = none → parseHexLoop value digits (text ++ more) = none := by
  intro text
  induction text with
  | nil =>
    intro value digits hne h
    rcases hne with hne | hpos
    · exact absurd rfl hne
    · rw [parseHexLoop, if_pos hpos] at h
      cases h
  | cons c rest ih =>
    intro value digits _ h
    rw [List.cons_append]
    rw [parseHexLoop] at h ⊢
    cases hd : hexDigit c with
    | none =>
      rw [hd] at h
      exact h
    | some d =>
      rw [hd] at h
      dsimp only at h ⊢
      split at h
      case isTrue hover => rw [if_pos hover]
      case isFalse hfits =>
        rw [if_neg hfits]
        exact ih (Or.inr (Nat.succ_pos digits)) h

/-! ## The header blocks -/

/-- A round after which more has come. -/
def appended (more : List UInt8) : Round Parser Finish → Round Parser Finish
  | .go q => .go (q.append more)
  | .more q => .more (q.append more)
  | .done f => .done f

/-- A header block that is there as a whole. -/
theorem consumeHeader_append (hfind : find crlfcrlf p.incoming = some headerEnd) (more : List UInt8)
    : consumeHeader (p.append more) = appended more (consumeHeader p) := by
  have hle : headerEnd + 4 ≤ p.incoming.length := find_le hfind
  have hincoming := parseHeaders_incoming p headerEnd
  rw [consumeHeader, consumeHeader, append_incoming, find_append hfind, hfind]
  dsimp only
  by_cases hmax : headerEnd > kMaxHeader
  · rw [if_pos hmax, if_pos hmax]
    rfl
  · rw [if_neg hmax, if_neg hmax, parseHeaders_append hfind]
    cases hres : parseHeaders p headerEnd with
    | mk ok r =>
      rw [hres] at hincoming
      cases ok with
      | false => rfl
      | true =>
        dsimp only at hincoming ⊢
        by_cases hinterim : r.status < 200
        · rw [if_pos hinterim, if_pos (show (r.append more).status < 200 from hinterim)]
          by_cases hmany : r.interimResponses + 1 > 16
          · have hmany' : (r.append more).interimResponses + 1 > 16 := hmany
            rw [if_pos hmany, if_pos hmany']
            rfl
          · have hmany' : ¬ (r.append more).interimResponses + 1 > 16 := hmany
            rw [if_neg hmany, if_neg hmany']
            simp only [Parser.append, appended]
            rw [List.drop_append_of_le_length (by rw [hincoming]; exact hle)]
        · rw [if_neg hinterim, if_neg (show ¬ (r.append more).status < 200 from hinterim)]
          rfl

theorem consumeHeader_size (h : consumeHeader p = .go q) : q.size < p.incoming.length + 1 := by
  rw [consumeHeader] at h
  split at h
  case h_1 =>
    split at h
    · cases h
    · cases h
  case h_2 headerEnd hfind =>
    have hle : headerEnd + 4 ≤ p.incoming.length := find_le hfind
    have hincoming := parseHeaders_incoming p headerEnd
    split at h
    case isTrue => cases h
    case isFalse =>
      split at h
      case h_1 => cases h
      case h_2 r hres =>
        rw [hres] at hincoming
        dsimp only at hincoming h
        split at h
        case isTrue =>
          split at h
          case isTrue => cases h
          case isFalse =>
            injection h with hq
            subst hq
            have hlen : (r.incoming.drop (headerEnd + 4)).length =
                p.incoming.length - (headerEnd + 4) := by
              rw [List.length_drop, hincoming]
            simp only [Parser.size]
            split
            · omega
            · omega
        case isFalse =>
          injection h with hq
          subst hq
          simp only [Parser.size, if_true, hincoming]
          omega

/-- An open header block waits, or fails. -/
theorem consumeHeader_none (hfind : find crlfcrlf p.incoming = none) :
    consumeHeader p =
      if p.incoming.length > kMaxHeader then .done (fail p .header) else .more p := by
  rw [consumeHeader, hfind]

/-- A block that is over the limit and cannot end within it fails for good. -/
theorem consumeHeader_over (hready : p.headersReady = false)
    (hfind : find crlfcrlf p.incoming = none) (hlong : p.incoming.length > kMaxHeader)
    (hsure : openHeader p = false) (more : List UInt8) :
    ∃ why, consumeHeader (p.append more) = .done (fail (p.append more) why) := by
  cases hnew : find crlfcrlf (p.incoming ++ more) with
  | none =>
    refine ⟨.header, ?_⟩
    rw [consumeHeader_none hnew, if_pos]
    rw [append_incoming, List.length_append]
    omega
  | some headerEnd =>
    have hreach := find_append_new hfind hnew
    have hreach : p.incoming.length < headerEnd + 4 := hreach
    refine ⟨.status, ?_⟩
    rw [consumeHeader, append_incoming, hnew]
    dsimp only
    rw [if_pos]
    -- else the open block has the first bytes of the end mark
    by_contra hle
    have hle : headerEnd ≤ kMaxHeader := Nat.not_lt.1 hle
    have hpre := (find_eq_some.1 hnew).1
    rw [List.drop_append_of_le_length (by omega)] at hpre
    have hpart : p.incoming.drop headerEnd <+: crlfcrlf := by
      apply List.prefix_of_prefix_length_le (List.prefix_append _ more) hpre
      rw [List.length_drop]
      show _ ≤ 4
      omega
    have htrue : openHeader p = true := by
      simp only [openHeader, hready, hfind, Option.isNone_none, Bool.not_false, Bool.and_true,
        Bool.true_and, Bool.and_eq_true, decide_eq_true_eq, List.any_eq_true]
      refine ⟨hlong, p.incoming.length - headerEnd, ?_, ?_, ?_⟩
      · have hcases : p.incoming.length - headerEnd = 1 ∨ p.incoming.length - headerEnd = 2 ∨
            p.incoming.length - headerEnd = 3 := by omega
        rcases hcases with he | he | he <;> rw [he] <;> decide
      · omega
      · have he : p.incoming.length - (p.incoming.length - headerEnd) = headerEnd := by omega
        rw [he]
        exact List.isPrefixOf_iff_prefix.2 hpart
    rw [htrue] at hsure
    cases hsure

/-! ## The chunks -/

theorem trailerEnd_append {text : List UInt8} (more : List UInt8) :
    ∀ {fuel fuel' position consumed : Nat}, fuel ≤ fuel' →
      trailerEnd text fuel position = some consumed →
      trailerEnd (text ++ more) fuel' position = some consumed := by
  intro fuel
  induction fuel with
  | zero =>
    intro fuel' position consumed _ h
    cases h
  | succ fuel ih =>
    intro fuel' position consumed hle h
    cases fuel' with
    | zero => exact absurd hle (Nat.not_succ_le_zero _)
    | succ fuel' =>
      rw [trailerEnd] at h ⊢
      cases hfound : findFrom crlf text position with
      | none =>
        rw [hfound] at h
        cases h
      | some lineEnd =>
        rw [hfound] at h
        rw [findFrom_append crlf_ne_nil hfound]
        dsimp only at h ⊢
        split at h
        case isTrue hempty =>
          rw [if_pos hempty]
          exact h
        case isFalse hline =>
          rw [if_neg hline]
          exact ih (Nat.le_of_succ_le_succ hle) h

theorem consumeChunk_more (h : consumeChunk p = .more q) : q = p := by
  rw [consumeChunk] at h
  split at h
  case h_1 =>
    split at h
    · cases h
    · injection h with he
      exact he.symm
  case h_2 lineEnd _ =>
    split at h
    case h_1 => cases h
    case h_2 size _ =>
      dsimp only at h
      split at h
      case isTrue =>
        split at h
        · injection h with he
          exact he.symm
        · cases h
      case isFalse =>
        split at h
        case isTrue => cases h
        case isFalse =>
          split at h
          case isTrue =>
            injection h with he
            exact he.symm
          case isFalse =>
            split at h
            · cases h
            · cases h

/-- A whole chunk. -/
theorem consumeChunk_go (h : consumeChunk p = .go q) (more : List UInt8) :
    consumeChunk (p.append more) = .go (q.append more) ∧ q.headersReady = p.headersReady ∧
      q.incoming.length - q.chunkPosition < p.incoming.length - p.chunkPosition := by
  rw [consumeChunk] at h
  split at h
  case h_1 =>
    split at h
    · cases h
    · cases h
  case h_2 lineEnd hfound =>
    have hin := findFrom_le crlf_ne_nil hfound
    split at h
    case h_1 => cases h
    case h_2 size hsize =>
      dsimp only at h
      split at h
      case isTrue =>
        split at h
        · cases h
        · cases h
      case isFalse hzero =>
        split at h
        case isTrue => cases h
        case isFalse hfits =>
          split at h
          case isTrue => cases h
          case isFalse hwhole =>
            split at h
            case isTrue => cases h
            case isFalse hend =>
              injection h with he
              subst he
              have hwhole : lineEnd + 2 + size + 2 ≤ p.incoming.length := Nat.not_lt.1 hwhole
              refine ⟨?_, rfl, ?_⟩
              · have hgrow : ¬ (p.incoming ++ more).length < lineEnd + 2 + size + 2 := by
                  rw [List.length_append]
                  omega
                have hat : (p.append more).chunkPosition = p.chunkPosition := rfl
                rw [consumeChunk, append_incoming, hat, findFrom_append crlf_ne_nil hfound]
                dsimp only
                rw [slice_append (by omega), hsize]
                dsimp only
                rw [if_neg hzero, if_neg (show ¬ (size > kMaxBody ∨
                    (p.append more).body.length + size > kMaxBody) from hfits), if_neg hgrow,
                  slice_append hwhole, if_neg hend, slice_append (by omega)]
                rfl
              · show p.incoming.length - (lineEnd + 2 + size + 2) < _
                omega

/-- An open line that is too long and has no size fails for good. -/
theorem parseHex_open {text more : List UInt8} {position lineEnd : Nat}
    (hnone : findFrom crlf text position = none) (hlong : 1 < text.length - position)
    (hnew : findFrom crlf (text ++ more) position = some lineEnd)
    (hbad : parseHex (stripCr (text.drop position)) = none) :
    parseHex (slice (text ++ more) position lineEnd) = none := by
  have hreach : text.length < lineEnd + 2 := findFrom_append_new (by omega) hnone hnew
  have hin := findFrom_le crlf_ne_nil hnew
  have hlen : (text.drop position).length = text.length - position := List.length_drop
  -- the line that has come as a whole starts with what was there, but for a carriage return
  have hstart : stripCr (text.drop position) <+: slice (text ++ more) position lineEnd ∧
      stripCr (text.drop position) ≠ [] := by
    have hslice : slice (text ++ more) position lineEnd =
        (text.drop position ++ more).take (lineEnd - position) := by
      rw [slice, List.drop_take, List.drop_append_of_le_length (by omega)]
    have hne : ∀ l : List UInt8, 1 ≤ l.length → l ≠ [] := by
      intro l hl he
      rw [he] at hl
      exact absurd hl (by decide)
    rw [stripCr]
    split
    case isTrue =>
      constructor
      · rw [hslice, List.dropLast_eq_take]
        rw [show (text.drop position).take ((text.drop position).length - 1) =
          (text.drop position ++ more).take ((text.drop position).length - 1) from
          (List.take_append_of_le_length (by omega)).symm]
        exact List.take_prefix_take_left (by omega)
      · apply hne
        rw [List.length_dropLast]
        omega
    case isFalse hlast =>
      refine ⟨?_, hne _ (by omega)⟩
      by_cases hcut : text.length ≤ lineEnd
      · have hall : (text.drop position ++ more).take (text.drop position).length =
            text.drop position := List.take_left
        rw [hslice]
        calc text.drop position
            = (text.drop position ++ more).take (text.drop position).length := hall.symm
          _ <+: (text.drop position ++ more).take (lineEnd - position) :=
              List.take_prefix_take_left (by omega)
      · -- the mark would start with the last byte that was there
        exfalso
        apply hlast
        have hat : lineEnd = text.length - 1 := by omega
        obtain ⟨_, hfind⟩ := findFrom_eq_some hnew
        have hpre := (find_eq_some.1 hfind).1
        rw [List.drop_drop, show position + (lineEnd - position) = text.length - 1 by omega,
          List.drop_append_of_le_length (by omega)] at hpre
        obtain ⟨tail, htail⟩ := hpre
        have hhead : (text.drop (text.length - 1) ++ more).head? = some 13 := by
          rw [← htail]
          rfl
        rw [List.head?_append_of_ne_nil _ (by
          apply hne
          rw [List.length_drop]
          omega)] at hhead
        rw [List.getLast?_drop, if_neg (by omega), List.getLast?_eq_getElem?]
        rw [List.head?_drop] at hhead
        exact hhead
  obtain ⟨⟨rest, hrest⟩, hne⟩ := hstart
  rw [← hrest, parseHex]
  exact parseHexLoop_none_append (Or.inl hne) hbad

/-- An open line fails for good, unless it gives up too early. -/
theorem consumeChunk_over (hready : p.headersReady = true) (hchunked : p.chunked = true)
    (hstatus : p.status ≠ 204 ∧ p.status ≠ 304)
    (hnone : findFrom crlf p.incoming p.chunkPosition = none)
    (hlong : p.incoming.length - p.chunkPosition > kMaxChunkLine) (hsure : openLine p = false)
    (more : List UInt8) : consumeChunk (p.append more) = .done (fail (p.append more) .chunk) := by
  have hat : (p.append more).chunkPosition = p.chunkPosition := rfl
  have hbad : parseHex (stripCr (p.incoming.drop p.chunkPosition)) = none := by
    by_contra hsome
    have htrue : openLine p = true := by
      simp only [openLine, hready, hchunked, hnone, Option.isNone_none, Bool.true_and,
        Bool.and_eq_true, decide_eq_true_eq]
      exact ⟨⟨⟨hstatus, trivial⟩, hlong⟩, Option.isSome_iff_ne_none.2 hsome⟩
    rw [htrue] at hsure
    cases hsure
  rw [consumeChunk, append_incoming, hat]
  cases hnew : findFrom crlf (p.incoming ++ more) p.chunkPosition with
  | none =>
    dsimp only
    rw [if_pos]
    rw [List.length_append]
    omega
  | some lineEnd =>
    have hlong' : 1 < p.incoming.length - p.chunkPosition := by
      have hmax : kMaxChunkLine = 1024 := rfl
      omega
    dsimp only
    rw [parseHex_open hnone hlong' hnew hbad]

/-- The end of a chunked body, or its failure. -/
theorem consumeChunk_done (h : consumeChunk p = .done f) (hready : p.headersReady = true)
    (hchunked : p.chunked = true) (hstatus : p.status ≠ 204 ∧ p.status ≠ 304)
    (hsure : openLine p = false) (more : List UInt8) :
    ∃ f', consumeChunk (p.append more) = .done f' ∧ f'.outcome = f.outcome := by
  have hat : (p.append more).chunkPosition = p.chunkPosition := rfl
  rw [consumeChunk] at h
  split at h
  case h_1 hnone =>
    split at h
    case isFalse => cases h
    case isTrue hlong =>
      injection h with he
      subst he
      exact ⟨_, consumeChunk_over hready hchunked hstatus hnone hlong hsure more, rfl⟩
  case h_2 lineEnd hfound =>
    have hin := findFrom_le crlf_ne_nil hfound
    have hline : slice (p.incoming ++ more) p.chunkPosition lineEnd =
        slice p.incoming p.chunkPosition lineEnd := slice_append (by omega) more
    rw [consumeChunk, append_incoming, hat, findFrom_append crlf_ne_nil hfound]
    dsimp only
    rw [hline]
    split at h
    case h_1 =>
      injection h with he
      subst he
      exact ⟨_, rfl, rfl⟩
    case h_2 size hsize =>
      dsimp only at h ⊢
      split at h
      case isTrue hzero =>
        rw [if_pos hzero]
        split at h
        case h_1 => cases h
        case h_2 consumed htrailer =>
          injection h with he
          subst he
          rw [trailerEnd_append more (by rw [List.length_append]; omega) htrailer]
          exact ⟨_, rfl, rfl⟩
      case isFalse hzero =>
        rw [if_neg hzero]
        split at h
        case isTrue hbig =>
          injection h with he
          subst he
          rw [if_pos (show size > kMaxBody ∨
            (p.append more).body.length + size > kMaxBody from hbig)]
          exact ⟨_, rfl, rfl⟩
        case isFalse hfits =>
          rw [if_neg (show ¬ (size > kMaxBody ∨
            (p.append more).body.length + size > kMaxBody) from hfits)]
          split at h
          case isTrue => cases h
          case isFalse hwhole =>
            split at h
            case isFalse => cases h
            case isTrue hend =>
              injection h with he
              subst he
              have hgrow : ¬ (p.incoming ++ more).length < lineEnd + 2 + size + 2 := by
                rw [List.length_append]
                omega
              rw [if_neg hgrow, slice_append (Nat.not_lt.1 hwhole), if_pos hend]
              exact ⟨_, rfl, rfl⟩

/-! ## The parser as a machine

A round of `Consume` goes on, waits for more, or is done; which of them does not change when more
has come, unless it waits. -/

theorem consumeHeader_more (h : consumeHeader p = .more q) : q = p := by
  rw [consumeHeader] at h
  split at h
  case h_1 =>
    split at h
    · cases h
    · injection h with he
      exact he.symm
  case h_2 =>
    split at h
    case isTrue => cases h
    case isFalse =>
      split at h
      case h_1 => cases h
      case h_2 =>
        dsimp only at h
        split at h
        · split at h
          · cases h
          · cases h
        · cases h

/-- A header block ends in no response. -/
theorem consumeHeader_done (h : consumeHeader p = .done f) : f.bFail = true := by
  rw [consumeHeader] at h
  split at h
  case h_1 =>
    split at h
    · injection h with he
      subst he
      rfl
    · cases h
  case h_2 =>
    split at h
    case isTrue =>
      injection h with he
      subst he
      rfl
    case isFalse =>
      split at h
      case h_1 =>
        injection h with he
        subst he
        rfl
      case h_2 =>
        dsimp only at h
        split at h
        · split at h
          · injection h with he
            subst he
            rfl
          · cases h
        · cases h

theorem advance_header (h : p.headersReady = false) : advance p = consumeHeader p := by
  rw [advance, if_pos h]

theorem advance_chunk (hready : p.headersReady = true) (hchunked : p.chunked = true)
    (hstatus : ¬ (p.status = 204 ∨ p.status = 304)) : advance p = consumeChunk p := by
  rw [advance, if_neg (by rw [hready]; exact fun he => by cases he), if_neg hstatus,
    if_pos hchunked]

/-- What a round with a body that is neither empty nor in chunks does. -/
theorem advance_plain (hready : p.headersReady = true) (hchunked : p.chunked = false)
    (hstatus : ¬ (p.status = 204 ∨ p.status = 304)) :
    advance p =
      if p.hasLength = false then .more { p with closeAfter := true }
      else if p.incoming.length - p.headerBytes < p.contentLength then .more p
      else .done (succeed
        { p with body := slice p.incoming p.headerBytes (p.headerBytes + p.contentLength) }
        (p.headerBytes + p.contentLength)) := by
  rw [advance, if_neg (by rw [hready]; exact fun he => by cases he), if_neg hstatus,
    if_neg (by rw [hchunked]; exact fun he => by cases he)]

theorem advance_empty (hready : p.headersReady = true) (hstatus : p.status = 204 ∨ p.status = 304) :
    advance p = .done (succeed p p.headerBytes) := by
  rw [advance, if_neg (by rw [hready]; exact fun he => by cases he), if_pos hstatus]

/-- A round that goes on has read a header block or a chunk. -/
inductive AdvanceGo (p q : Parser) : Prop
  | header (hready : p.headersReady = false) (hgo : consumeHeader p = .go q)
  | chunk (hready : p.headersReady = true) (hchunked : p.chunked = true)
      (hstatus : ¬ (p.status = 204 ∨ p.status = 304)) (hgo : consumeChunk p = .go q)

/-- A round that needs more changes nothing, but for the note that the connection ends with a body
without a length. -/
inductive AdvanceMore (p q : Parser) : Prop
  | same (hq : q = p)
  | toClose (hready : p.headersReady = true) (hchunked : p.chunked = false)
      (hstatus : ¬ (p.status = 204 ∨ p.status = 304)) (hlength : p.hasLength = false)
      (hq : q = { p with closeAfter := true })

/-- A round that ends the response ends a block or a chunk, or has its whole body. -/
inductive AdvanceDone (p : Parser) (f : Finish) : Prop
  | header (hready : p.headersReady = false) (hdone : consumeHeader p = .done f)
  | empty (hready : p.headersReady = true) (hstatus : p.status = 204 ∨ p.status = 304)
      (hf : f = succeed p p.headerBytes)
  | chunk (hready : p.headersReady = true) (hchunked : p.chunked = true)
      (hstatus : ¬ (p.status = 204 ∨ p.status = 304)) (hdone : consumeChunk p = .done f)
  | whole (hready : p.headersReady = true) (hchunked : p.chunked = false)
      (hstatus : ¬ (p.status = 204 ∨ p.status = 304)) (hlength : ¬ p.hasLength = false)
      (hwhole : ¬ p.incoming.length - p.headerBytes < p.contentLength)
      (hf : f = succeed
        { p with body := slice p.incoming p.headerBytes (p.headerBytes + p.contentLength) }
        (p.headerBytes + p.contentLength))

/-- What a round can do. -/
def AdvanceTo (p : Parser) : Round Parser Finish → Prop
  | .go q => AdvanceGo p q
  | .more q => AdvanceMore p q
  | .done f => AdvanceDone p f

theorem advance_to (p : Parser) : AdvanceTo p (advance p) := by
  cases hready : p.headersReady with
  | false =>
    rw [advance_header hready]
    cases hheader : consumeHeader p with
    | go q => exact .header hready hheader
    | more q => exact .same (consumeHeader_more hheader)
    | done f => exact .header hready hheader
  | true =>
    by_cases hstatus : p.status = 204 ∨ p.status = 304
    · rw [advance_empty hready hstatus]
      exact .empty hready hstatus rfl
    · cases hchunked : p.chunked with
      | true =>
        rw [advance_chunk hready hchunked hstatus]
        cases hchunk : consumeChunk p with
        | go q => exact .chunk hready hchunked hstatus hchunk
        | more q => exact .same (consumeChunk_more hchunk)
        | done f => exact .chunk hready hchunked hstatus hchunk
      | false =>
        rw [advance_plain hready hchunked hstatus]
        split
        case isTrue hlength => exact .toClose hready hchunked hstatus hlength rfl
        case isFalse hlength =>
          split
          case isTrue => exact .same rfl
          case isFalse hwhole => exact .whole hready hchunked hstatus hlength hwhole rfl

theorem advance_go (h : advance p = .go q) : AdvanceGo p q := by
  have hto := advance_to p
  rw [h] at hto
  exact hto

theorem advance_more (h : advance p = .more q) : AdvanceMore p q := by
  have hto := advance_to p
  rw [h] at hto
  exact hto

theorem advance_done (h : advance p = .done f) : AdvanceDone p f := by
  have hto := advance_to p
  rw [h] at hto
  exact hto

theorem advance_go_size (h : advance p = .go q) : q.size < p.size := by
  cases advance_go h with
  | header hready hgo =>
    have hsize : p.size = p.incoming.length + 1 := by
      rw [Parser.size, hready, if_neg Bool.false_ne_true]
    rw [hsize]
    exact consumeHeader_size hgo
  | chunk hready hchunked hstatus hgo =>
    obtain ⟨_, hq, hlt⟩ := consumeChunk_go hgo []
    rw [Parser.size, Parser.size, hq, hready, if_pos rfl, if_pos rfl]
    exact hlt

theorem advance_go_append (h : advance p = .go q) (more : List UInt8) :
    advance (p.append more) = .go (q.append more) := by
  cases advance_go h with
  | header hready hgo =>
    rw [advance_header (show (p.append more).headersReady = false from hready)]
    cases hfind : find crlfcrlf p.incoming with
    | none =>
      -- a block without its end waits, or fails
      rw [consumeHeader_none hfind] at hgo
      split at hgo
      · cases hgo
      · cases hgo
    | some headerEnd => rw [consumeHeader_append hfind, hgo, appended]
  | chunk hready hchunked hstatus hgo =>
    rw [advance_chunk (show (p.append more).headersReady = true from hready) hchunked hstatus]
    exact (consumeChunk_go hgo more).1

/-- A body without a length has no end before the close. -/
theorem advance_toClose (hready : p.headersReady = true) (hchunked : p.chunked = false)
    (hstatus : ¬ (p.status = 204 ∨ p.status = 304)) (hlength : p.hasLength = false) :
    advance p = .more { p with closeAfter := true } := by
  rw [advance_plain hready hchunked hstatus, if_pos hlength]

/-- A parser that needs more is as it was, when more has come. -/
theorem advance_more_append (h : advance p = .more q) (more : List UInt8) :
    advance (q.append more) = advance (p.append more) := by
  cases advance_more h with
  | same hq => rw [hq]
  | toClose hready hchunked hstatus hlength hq =>
    subst hq
    rw [advance_toClose (p := p.append more) hready hchunked hstatus hlength]
    exact advance_toClose (p := ({ p with closeAfter := true } : Parser).append more) hready
      hchunked hstatus hlength

/-- A response that is complete, or has failed for good. -/
theorem advance_done_append (h : advance p = .done f) (hsure : sure p = true) (more : List UInt8) :
    ∃ f', advance (p.append more) = .done f' ∧ f'.outcome = f.outcome := by
  rw [sure, Bool.and_eq_true, Bool.not_eq_true', Bool.not_eq_true'] at hsure
  obtain ⟨hheader, hline⟩ := hsure
  cases advance_done h with
  | header hready hdone =>
    rw [advance_header (show (p.append more).headersReady = false from hready)]
    cases hfind : find crlfcrlf p.incoming with
    | none =>
      rw [consumeHeader_none hfind] at hdone
      split at hdone
      case isTrue hlong =>
        injection hdone with he
        subst he
        obtain ⟨why, hwhy⟩ := consumeHeader_over hready hfind hlong hheader more
        exact ⟨_, hwhy, rfl⟩
      case isFalse => cases hdone
    | some headerEnd =>
      rw [consumeHeader_append hfind, hdone, appended]
      exact ⟨f, rfl, rfl⟩
  | empty hready hstatus hf =>
    have hready' : (p.append more).headersReady = true := hready
    exact ⟨_, advance_empty hready' hstatus, by rw [hf]; rfl⟩
  | chunk hready hchunked hstatus hdone =>
    have hready' : (p.append more).headersReady = true := hready
    rw [advance_chunk hready' hchunked hstatus]
    exact consumeChunk_done hdone hready hchunked (not_or.1 hstatus) hline more
  | whole hready hchunked hstatus hlength hwhole hf =>
    have hready' : (p.append more).headersReady = true := hready
    have hgrow : ¬ (p.append more).incoming.length - p.headerBytes < p.contentLength := by
      rw [append_incoming, List.length_append]
      omega
    refine ⟨_, (advance_plain hready' hchunked hstatus).trans
      ((if_neg hlength).trans (if_neg hgrow)), ?_⟩
    have hbody : slice (p.incoming ++ more) p.headerBytes (p.headerBytes + p.contentLength) =
        slice p.incoming p.headerBytes (p.headerBytes + p.contentLength) := by
      by_cases hin : p.headerBytes + p.contentLength ≤ p.incoming.length
      · exact slice_append hin more
      · -- only an empty body
        have hzero : p.contentLength = 0 := by omega
        simp only [slice, hzero, Nat.add_zero, List.drop_take, Nat.sub_self, List.take_zero]
    show (succeed { p.append more with
      body := slice (p.incoming ++ more) p.headerBytes (p.headerBytes + p.contentLength) }
      _).outcome = _
    rw [hbody, hf]
    rfl

/-- The response parser, fed in segments. -/
def responses : Machine Parser Finish Outcome UInt8 where
  advance := advance
  add := Parser.append
  size := Parser.size
  out := Finish.outcome
  sure := sure
  add_nil := append_nil
  add_add := append_append
  go_size := advance_go_size
  go_add := advance_go_append
  more_add := advance_more_append
  done_add := advance_done_append

/-! ## The outcome does not depend on the segments -/

/-- No call of `OnDataIn` gives up too early: what was there and what has come are within the limit,
and the parser is sure where it stops. -/
def clean : Parser → List (List UInt8) → Bool
  | _, [] => true
  | p, segment :: rest =>
      decide (p.incoming.length + segment.length ≤ kMaxHeader + kMaxBody) &&
      SettlesSure advance sure ((p.append segment).size + 1) (p.append segment) &&
      match consume (p.append segment) with
      | .more q => clean q rest
      | _ => true

/-- The close, or none, after the segments. -/
def closing (close : Bool) : Round Parser Finish → Option Finish
  | .go q => if close then some (finishEof q) else none
  | .more q => if close then some (finishEof q) else none
  | .done f => some f

/-- Without a test that gives up, the calls of `OnDataIn` feed the parser. -/
theorem receive_eq {close : Bool} {segments : List (List UInt8)} :
    ∀ {p : Parser}, clean p segments = true →
      receive p segments close = closing close (responses.feed p segments) ∧
        responses.FeedsSure p segments = true := by
  induction segments with
  | nil =>
    intro p _
    exact ⟨rfl, rfl⟩
  | cons segment rest ih =>
    intro p h
    rw [clean, Bool.and_eq_true, Bool.and_eq_true, decide_eq_true_eq] at h
    obtain ⟨⟨hfits, hsure⟩, hrest⟩ := h
    have hcall : onDataIn p segment = consume (p.append segment) := by
      rw [onDataIn, if_neg (Nat.not_lt.2 hfits)]
    have hwork : responses.work (responses.add p segment) = consume (p.append segment) := rfl
    have hsure' : responses.WorksSure (responses.add p segment) = true := hsure
    rw [receive, Machine.feed, Machine.FeedsSure, hcall, hwork, hsure', Bool.true_and]
    cases hc : consume (p.append segment) with
    | go q => exact absurd hc (Machine.work_ne_go (M := responses) (p.append segment) q)
    | more q =>
      rw [hc] at hrest
      exact ih hrest
    | done f => exact ⟨rfl, rfl⟩

theorem consume_begin : responses.work beginResponse = .more beginResponse := by
  decide +kernel

/-- Two ends that agree are published alike. -/
theorem closing_agree {close : Bool} {r r' s : Round Parser Finish} (h : responses.Agree r s)
    (h' : responses.Agree r' s) :
    (closing close r).map Finish.outcome = (closing close r').map Finish.outcome := by
  cases s with
  | go q => cases r <;> cases h
  | more q =>
    cases r with
    | go t => cases h
    | done f => cases h
    | more t =>
      cases r' with
      | go t => cases h'
      | done f => cases h'
      | more t' =>
        have he : t = q := h
        have he' : t' = q := h'
        rw [he, he']
  | done f =>
    cases r with
    | go t => cases h
    | more t => cases h
    | done g =>
      cases r' with
      | go t => cases h'
      | more t => cases h'
      | done g' =>
        have he : g.outcome = f.outcome := h
        have he' : g'.outcome = f.outcome := h'
        show some g.outcome = some g'.outcome
        rw [he, he']

/-- Where the parser is not sure, it fails. -/
theorem settle_unsure : ∀ {n : Nat} {p : Parser}, SettlesSure advance sure n p = false →
    ∃ q why, settle advance n p = .done (fail q why) := by
  intro n
  induction n with
  | zero =>
    intro p h
    cases h
  | succ n ih =>
    intro p h
    rw [SettlesSure] at h
    rw [settle]
    cases ha : advance p with
    | go q =>
      rw [ha] at h
      exact ih h
    | more q =>
      rw [ha] at h
      cases h
    | done f =>
      rw [ha] at h
      have hunsure : openHeader p = true ∨ openLine p = true := by
        by_contra hnot
        rw [not_or, Bool.not_eq_true, Bool.not_eq_true] at hnot
        have hsure : sure p = true := by
          rw [sure, hnot.1, hnot.2]
          rfl
        have h : sure p = false := h
        rw [hsure] at h
        cases h
      rcases hunsure with hopen | hopen
      · simp only [openHeader, Bool.and_eq_true, Bool.not_eq_true', Option.isNone_iff_eq_none,
          decide_eq_true_eq] at hopen
        obtain ⟨⟨⟨hready, hfind⟩, hlong⟩, _⟩ := hopen
        rw [advance_header hready, consumeHeader_none hfind, if_pos hlong] at ha
        injection ha with he
        exact ⟨p, .header, by rw [← he]⟩
      · simp only [openLine, Bool.and_eq_true, Option.isNone_iff_eq_none,
          decide_eq_true_eq] at hopen
        obtain ⟨⟨⟨⟨⟨hready, hchunked⟩, hstatus⟩, hfind⟩, hlong⟩, _⟩ := hopen
        rw [advance_chunk hready hchunked (not_or.2 hstatus), consumeChunk, hfind] at ha
        dsimp only at ha
        rw [if_pos hlong] at ha
        injection ha with he
        exact ⟨p, .chunk, by rw [← he]⟩

/-- A test that gives up early fails the request. -/
theorem receive_unclean {close : Bool} {segments : List (List UInt8)} :
    ∀ {p : Parser}, clean p segments = false →
      ∃ q why, receive p segments close = some (fail q why) := by
  induction segments with
  | nil =>
    intro p h
    cases h
  | cons segment rest ih =>
    intro p h
    rw [receive, onDataIn]
    by_cases hfits : p.incoming.length + segment.length > kMaxHeader + kMaxBody
    · rw [if_pos hfits]
      exact ⟨p, .size, rfl⟩
    · rw [if_neg hfits]
      rw [clean, decide_eq_true (Nat.not_lt.1 hfits), Bool.true_and] at h
      cases hsure : SettlesSure advance sure ((p.append segment).size + 1) (p.append segment) with
      | false =>
        obtain ⟨q, why, hq⟩ := settle_unsure hsure
        rw [consume, hq]
        exact ⟨q, why, rfl⟩
      | true =>
        rw [hsure, Bool.true_and] at h
        cases hc : consume (p.append segment) with
        | go q =>
          rw [hc] at h
          cases h
        | more q =>
          rw [hc] at h
          exact ih h
        | done f =>
          rw [hc] at h
          cases h

/-- **The outcome does not depend on the segments, where no test gives up early.** For every stream
of bytes and any two ways to cut it into segments of which none makes `OnDataIn` give up on a
response that may still be a good one, followed by the same close or none: the request is waiting in
both, or has finished with the same success or failure, status and body. -/
theorem published_of_clean {a b : List (List UInt8)} (close : Bool) (h : a.flatten = b.flatten)
    (ha : clean beginResponse a = true) (hb : clean beginResponse b = true) :
    published a close = published b close := by
  obtain ⟨hra, hsa⟩ := @receive_eq close a _ ha
  obtain ⟨hrb, hsb⟩ := @receive_eq close b _ hb
  have hagree := Machine.feed_eq consume_begin hsa
  have hagree' := Machine.feed_eq consume_begin hsb
  rw [h] at hagree
  rw [published, published, hra, hrb]
  exact closing_agree hagree hagree'

/-- The header of a chunked response. -/
def chunkedHeader : List UInt8 :=
  ascii "HTTP/1.1 200 OK\r\nTransfer-Encoding: chunked\r\n\r\n"

/-- A chunked response in two ways, neither of which meets a limit. -/
theorem published_of_clean_chunked :
    published [chunkedHeader.take 47, chunkedHeader.drop 47 ++ ascii "2;x\r\nab\r\n0\r\n\r\n"]
        false =
      published [chunkedHeader ++ ascii "2;x\r", ascii "\nab\r\n0\r", ascii "\n\r\n"] false ∧
    published [chunkedHeader ++ ascii "2;x\r", ascii "\nab\r\n0\r", ascii "\n\r\n"] false =
      some { bFailed := false, status := 200, body := ascii "ab" } :=
  ⟨published_of_clean false (by decide +kernel) (by decide +kernel) (by decide +kernel),
    by decide +kernel⟩

/-- A chunk line with an extension, longer than an open line may be. -/
def longLine : List UInt8 := ascii "1;" ++ List.replicate 1030 120

/-- **A response that is accepted or refused as the network cuts it.** The end of a chunk line with
a long extension comes with the line, or after it. -/
theorem published_depends_on_segments :
    [chunkedHeader ++ longLine ++ ascii "\r\nA\r\n0\r\n\r\n"].flatten =
      [chunkedHeader ++ longLine, ascii "\r\nA\r\n0\r\n\r\n"].flatten ∧
    published [chunkedHeader ++ longLine ++ ascii "\r\nA\r\n0\r\n\r\n"] false =
      some { bFailed := false, status := 200, body := ascii "A" } ∧
    published [chunkedHeader ++ longLine, ascii "\r\nA\r\n0\r\n\r\n"] false =
      some { bFailed := true, status := 200, body := [] } := by
  decide +kernel

end OpenIdea.Http
