import OpenIdea.Http.Segments

/-!
# The limit of the body

A published body is within the limit when its length was announced or when it came in chunks: the
one is tested in the header block, the other with every chunk. A body that ends with the connection
is tested by nothing but the limit of the buffer, which the header block shares. So a published body
is within the limit exactly where it does not end with the connection above it (`body_limit_iff`);
`body_over_limit` is one that does.
-/

set_option autoImplicit false

namespace OpenIdea.Http

open OpenIdea.Lib.Search OpenIdea.Lib.Rounds

/-! ## Header blocks are read alike in every state -/

variable {headerEnd : Nat} {p q : Parser} {f : Finish}

/-- `ParseHeaders` depends on nothing but the bytes. -/
theorem parseHeaders_within {o : Parser} (h : p.incoming = o.incoming)
    (hparse : parseHeaders p headerEnd = (true, q)) :
    parseHeaders o headerEnd = (true, q.within o) := by
  rw [parseHeaders] at hparse ⊢
  rw [← h]
  split at hparse
  case h_1 => cases hparse
  case h_2 lineEnd hfound =>
    dsimp only at hparse ⊢
    split at hparse
    case isTrue => cases hparse
    case isFalse hin =>
      rw [if_neg hin]
      split at hparse
      case h_1 => cases hparse
      case h_2 code hcode =>
        have hlines := headerLines_within p.incoming headerEnd o headerEnd (lineEnd + 2)
          { p with
            status := code, hasLength := false, chunked := false, contentLength := 0,
            closeAfter := (slice p.incoming 0 lineEnd).take 9 == ascii "HTTP/1.0 " }
        simp only [Parser.within, ← h] at hlines
        rw [hlines]
        split at hparse
        case h_1 => cases hparse
        case h_2 r hread =>
          rw [hread]
          obtain ⟨hone, rfl⟩ := Prod.mk.inj hparse
          refine Prod.ext hone ?_
          dsimp only [Parser.within]
          rw [← h]

/-! ## Bodies that end with the connection -/

/-- The bytes are interim responses and a final header block that announces no body, and what
follows it; `n` interim responses have come before. `size` is what is left without the interim
responses. -/
inductive UntilClose : Nat → List UInt8 → Nat → List UInt8 → Prop
  | interim {n headerEnd size : Nat} {text body : List UInt8} {q : Parser}
      (hfind : find crlfcrlf text = some headerEnd) (hmax : headerEnd ≤ kMaxHeader) (hfew : n < 16)
      (hparse : parseHeaders (beginResponse.append text) headerEnd = (true, q))
      (hstatus : q.status < 200) (hrest : UntilClose (n + 1) (text.drop (headerEnd + 4)) size body) :
      UntilClose n text size body
  | final {n headerEnd : Nat} {text : List UInt8} {q : Parser}
      (hfind : find crlfcrlf text = some headerEnd) (hmax : headerEnd ≤ kMaxHeader)
      (hparse : parseHeaders (beginResponse.append text) headerEnd = (true, q))
      (hstatus : 200 ≤ q.status) (hempty : ¬ (q.status = 204 ∨ q.status = 304))
      (hlength : q.hasLength = false) (hchunked : q.chunked = false) :
      UntilClose n text text.length (text.drop (headerEnd + 4))

/-- A body that ends with the connection, is over the limit, and fits into the buffer all the same. -/
def TooLong (text : List UInt8) : Prop :=
  ∃ size body, UntilClose 0 text size body ∧ size ≤ kMaxHeader + kMaxBody ∧ kMaxBody < body.length

/-! ## The other bodies -/

/-- The body so far is within the limit, and so is a length that will be waited for. -/
structure Limited (p : Parser) : Prop where
  body : p.body.length ≤ kMaxBody
  length : p.headersReady = true → p.hasLength = true → p.status ≠ 304 → p.contentLength ≤ kMaxBody

/-- The limit of an announced length holds when the status line has been read. -/
theorem headerLine_limited {line : List UInt8} {ok : Bool} (h : headerLine p line = (ok, q))
    (hp : p.hasLength = true → p.status ≠ 304 → 200 ≤ p.status → p.contentLength ≤ kMaxBody) :
    q.status = p.status ∧
      (q.hasLength = true → q.status ≠ 304 → 200 ≤ q.status → q.contentLength ≤ kMaxBody) := by
  rw [headerLine] at h
  split at h
  case h_1 =>
    obtain ⟨-, rfl⟩ := Prod.mk.inj h
    exact ⟨rfl, hp⟩
  case h_2 colon _ =>
    dsimp only at h
    split at h
    case isTrue =>
      split at h
      case h_1 =>
        obtain ⟨-, rfl⟩ := Prod.mk.inj h
        exact ⟨rfl, hp⟩
      case h_2 length _ =>
        split at h
        case isTrue =>
          obtain ⟨-, rfl⟩ := Prod.mk.inj h
          exact ⟨rfl, hp⟩
        case isFalse hgood =>
          obtain ⟨-, rfl⟩ := Prod.mk.inj h
          refine ⟨rfl, fun _ hne hfinal => ?_⟩
          by_contra hover
          exact hgood (Or.inl ⟨hne, hfinal, Nat.lt_of_not_le hover⟩)
    case isFalse =>
      split at h
      case isTrue =>
        split at h
        · obtain ⟨-, rfl⟩ := Prod.mk.inj h
          exact ⟨rfl, hp⟩
        · obtain ⟨-, rfl⟩ := Prod.mk.inj h
          exact ⟨rfl, hp⟩
      case isFalse =>
        split at h
        case isTrue =>
          obtain ⟨-, rfl⟩ := Prod.mk.inj h
          simp only [noteConnection]
          split
          · exact ⟨rfl, hp⟩
          · split
            · exact ⟨rfl, hp⟩
            · exact ⟨rfl, hp⟩
        case isFalse =>
          obtain ⟨-, rfl⟩ := Prod.mk.inj h
          exact ⟨rfl, hp⟩

theorem headerLines_limited (text : List UInt8) (headerEnd : Nat) :
    ∀ (fuel position : Nat) {p q : Parser} {ok : Bool},
      headerLines text headerEnd fuel position p = (ok, q) →
      (p.hasLength = true → p.status ≠ 304 → 200 ≤ p.status → p.contentLength ≤ kMaxBody) →
      q.hasLength = true → q.status ≠ 304 → 200 ≤ q.status → q.contentLength ≤ kMaxBody := by
  intro fuel
  induction fuel with
  | zero =>
    intro position p q ok h hp
    obtain ⟨-, rfl⟩ := Prod.mk.inj h
    exact hp
  | succ fuel ih =>
    intro position p q ok h hp
    simp only [headerLines] at h
    split at h
    case isFalse =>
      obtain ⟨-, rfl⟩ := Prod.mk.inj h
      exact hp
    case isTrue =>
      split at h
      case h_1 =>
        obtain ⟨-, rfl⟩ := Prod.mk.inj h
        exact hp
      case h_2 lineEnd _ =>
        split at h
        case isTrue =>
          obtain ⟨-, rfl⟩ := Prod.mk.inj h
          exact hp
        case isFalse =>
          split at h
          case h_1 r hline =>
            obtain ⟨-, rfl⟩ := Prod.mk.inj h
            exact (headerLine_limited hline hp).2
          case h_2 r hline => exact ih _ h (headerLine_limited hline hp).2

theorem parseHeaders_limited (h : parseHeaders p headerEnd = (true, q)) :
    q.hasLength = true → q.status ≠ 304 → 200 ≤ q.status → q.contentLength ≤ kMaxBody := by
  rw [parseHeaders] at h
  split at h
  case h_1 => cases h
  case h_2 lineEnd _ =>
    dsimp only at h
    split at h
    case isTrue => cases h
    case isFalse =>
      split at h
      case h_1 => cases h
      case h_2 code _ =>
        split at h
        case h_1 => cases h
        case h_2 r hread =>
          obtain ⟨-, rfl⟩ := Prod.mk.inj h
          exact headerLines_limited _ _ _ _ hread fun hhas => by cases hhas

/-- What a good header block leaves alone. -/
theorem parseHeaders_self (h : parseHeaders p headerEnd = (true, q)) :
    q.incoming = p.incoming ∧ q.body = p.body ∧ q.headersReady = p.headersReady ∧
      q.interimResponses = p.interimResponses := by
  have hself : q = q.within p := congrArg Prod.snd (h.symm.trans (parseHeaders_within rfl h))
  rw [hself]
  exact ⟨rfl, rfl, rfl, rfl⟩

/-- A round over a header block goes on with the rest of the bytes, or with the body. -/
theorem consumeHeader_go (h : consumeHeader p = .go q) :
    ∃ headerEnd r, find crlfcrlf p.incoming = some headerEnd ∧ headerEnd ≤ kMaxHeader ∧
      parseHeaders p headerEnd = (true, r) ∧
      ((r.status < 200 ∧ r.interimResponses < 16 ∧
          q = { r with
            incoming := r.incoming.drop (headerEnd + 4)
            interimResponses := r.interimResponses + 1 }) ∨
        (200 ≤ r.status ∧
          q = { r with
            headersReady := true, headerBytes := headerEnd + 4, chunkPosition := headerEnd + 4 })) := by
  rw [consumeHeader] at h
  split at h
  case h_1 =>
    split at h
    · cases h
    · cases h
  case h_2 headerEnd hfind =>
    split at h
    case isTrue => cases h
    case isFalse hmax =>
      split at h
      case h_1 => cases h
      case h_2 r hparse =>
        refine ⟨headerEnd, r, hfind, Nat.not_lt.1 hmax, hparse, ?_⟩
        split at h
        case isTrue hstatus =>
          dsimp only at h
          split at h
          case isTrue => cases h
          case isFalse hfew =>
            injection h with hq
            exact Or.inl ⟨hstatus, by omega, hq.symm⟩
        case isFalse hstatus =>
          injection h with hq
          exact Or.inr ⟨Nat.not_lt.1 hstatus, hq.symm⟩

/-- What a round over a chunk leaves alone. -/
structure LikeIn (p q : Parser) : Prop where
  ready : q.headersReady = p.headersReady
  status : q.status = p.status
  hasLength : q.hasLength = p.hasLength
  contentLength : q.contentLength = p.contentLength
  chunked : q.chunked = p.chunked
  incoming : q.incoming = p.incoming

/-- A round over a chunk keeps the body within the limit. -/
theorem consumeChunk_limited (hp : p.body.length ≤ kMaxBody) :
    (∀ q, consumeChunk p = .go q → q.body.length ≤ kMaxBody ∧ LikeIn p q) ∧
    ∀ f, consumeChunk p = .done f → f.bFail = false → f.body.length ≤ kMaxBody := by
  have hfail : ∀ (f : Finish) (why : Why),
      Round.done (σ := Parser) (fail p why) = .done f → f.bFail = false →
        f.body.length ≤ kMaxBody := by
    intro f why h hf
    injection h with hfail
    rw [← hfail] at hf
    cases hf
  rw [consumeChunk]
  split
  case h_1 =>
    split
    · exact ⟨fun q h => (by cases h), fun f h hf => hfail f _ h hf⟩
    · exact ⟨fun q h => (by cases h), fun f h => by cases h⟩
  case h_2 lineEnd _ =>
    split
    case h_1 => exact ⟨fun q h => (by cases h), fun f h hf => hfail f _ h hf⟩
    case h_2 size _ =>
      dsimp only
      split
      case isTrue =>
        split
        case h_1 => exact ⟨fun q h => (by cases h), fun f h => by cases h⟩
        case h_2 used _ =>
          refine ⟨fun q h => (by cases h), fun f h _ => ?_⟩
          injection h with hf
          rw [← hf]
          exact hp
      case isFalse =>
        split
        case isTrue => exact ⟨fun q h => (by cases h), fun f h hf => hfail f _ h hf⟩
        case isFalse hfits =>
          split
          case isTrue => exact ⟨fun q h => (by cases h), fun f h => by cases h⟩
          case isFalse =>
            split
            case isTrue => exact ⟨fun q h => (by cases h), fun f h hf => hfail f _ h hf⟩
            case isFalse =>
              refine ⟨fun q h => ?_, fun f h => by cases h⟩
              injection h with hq
              rw [← hq]
              refine ⟨?_, ⟨rfl, rfl, rfl, rfl, rfl, rfl⟩⟩
              have hslice : (slice p.incoming (lineEnd + 2) (lineEnd + 2 + size)).length ≤ size := by
                rw [slice, List.length_drop, List.length_take]
                omega
              rw [List.length_append]
              omega

/-- **One round keeps the limit.** -/
theorem advance_go_limited (h : advance p = .go q) (hp : Limited p) : Limited q := by
  cases advance_go h with
  | header hready hgo =>
    obtain ⟨headerEnd, r, -, -, hparse, ⟨-, -, rfl⟩ | ⟨hfinal, rfl⟩⟩ := consumeHeader_go hgo
    · obtain ⟨-, hbody, hready', -⟩ := parseHeaders_self hparse
      refine ⟨hbody ▸ hp.body, fun hnow => ?_⟩
      have hnow : r.headersReady = true := hnow
      rw [hready', hready] at hnow
      cases hnow
    · obtain ⟨-, hbody, -, -⟩ := parseHeaders_self hparse
      have hlength := parseHeaders_limited hparse
      exact ⟨hbody ▸ hp.body, fun _ hhas hne => hlength hhas hne hfinal⟩
  | chunk hready hchunked hempty hgo =>
    obtain ⟨hbody, hlike⟩ := (consumeChunk_limited hp.body).1 q hgo
    refine ⟨hbody, ?_⟩
    rw [hlike.ready, hlike.hasLength, hlike.status, hlike.contentLength]
    exact hp.length

theorem advance_done_limited (h : advance p = .done f) (hp : Limited p) (hf : f.bFail = false) :
    f.body.length ≤ kMaxBody := by
  cases advance_done h with
  | header hready hdone =>
    rw [consumeHeader_done hdone] at hf
    cases hf
  | empty hready hempty he =>
    rw [he]
    exact hp.body
  | chunk hready hchunked hempty hdone => exact (consumeChunk_limited hp.body).2 f hdone hf
  | whole hready hchunked hempty hhas hwhole he =>
    rw [he]
    have hlimit := hp.length hready (Bool.not_eq_false _ ▸ hhas) fun h304 => hempty (Or.inr h304)
    show (slice p.incoming p.headerBytes (p.headerBytes + p.contentLength)).length ≤ _
    rw [slice, List.length_drop, List.length_take]
    omega

/-- A response that ends by itself has a body within the limit. -/
theorem work_done_limited (h : responses.work p = .done f) (hf : f.bFail = false) (hp : Limited p) :
    f.body.length ≤ kMaxBody := by
  induction p using (Machine.work_induct (M := responses)) with
  | hgo p q hgo ih =>
    rw [Machine.work_go hgo] at h
    exact ih h (advance_go_limited hgo hp)
  | hmore p q hmore =>
    rw [Machine.work_more hmore] at h
    cases h
  | hdone p g hdone =>
    rw [Machine.work_done hdone] at h
    injection h with hg
    rw [hg] at hdone
    exact advance_done_limited hdone hp hf

/-! ## Where the limit is not tested -/

/-- A body in chunks stays one. -/
theorem work_chunked (h : responses.work p = .more q) (hready : p.headersReady = true)
    (hempty : ¬ (p.status = 204 ∨ p.status = 304)) (hchunked : p.chunked = true)
    (hbody : p.body.length ≤ kMaxBody) : q.chunked = true := by
  induction p using (Machine.work_induct (M := responses)) with
  | hgo p r hgo ih =>
    rw [Machine.work_go hgo] at h
    have hgo : advance p = .go r := hgo
    rw [advance_chunk hready hchunked hempty] at hgo
    obtain ⟨hlimit, hlike⟩ := (consumeChunk_limited hbody).1 r hgo
    exact ih h (hlike.ready.trans hready) (by rw [hlike.status]; exact hempty)
      (hlike.chunked.trans hchunked) hlimit
  | hmore p r hmore =>
    rw [Machine.work_more hmore] at h
    injection h with hq
    have hmore : advance p = .more r := hmore
    rw [advance_chunk hready hchunked hempty] at hmore
    rw [← hq, consumeChunk_more hmore]
    exact hchunked
  | hdone p f hdone =>
    rw [Machine.work_done hdone] at h
    cases h

/-- A body that waits for the connection to end, and what it has come from. -/
theorem work_body (h : responses.work p = .more q) (hready : p.headersReady = true)
    (hbody : p.body.length ≤ kMaxBody) (hlength : q.hasLength = false)
    (hchunked : q.chunked = false) :
    ¬ (p.status = 204 ∨ p.status = 304) ∧ p.hasLength = false ∧ p.chunked = false ∧
      q.incoming = p.incoming ∧ q.headerBytes = p.headerBytes := by
  have hempty : ¬ (p.status = 204 ∨ p.status = 304) := by
    intro hempty
    rw [Machine.work_done (advance_empty hready hempty)] at h
    cases h
  have hplain : p.chunked = false := by
    cases hnow : p.chunked with
    | false => rfl
    | true => exact (work_chunked h hready hempty hnow hbody).symm.trans hchunked
  have hround := advance_plain hready hplain hempty
  cases hhas : p.hasLength with
  | false =>
    rw [if_pos hhas] at hround
    rw [Machine.work_more hround] at h
    injection h with hq
    rw [← hq]
    exact ⟨hempty, rfl, hplain, rfl, rfl⟩
  | true =>
    rw [if_neg (by rw [hhas]; exact fun he => by cases he)] at hround
    split at hround
    · rw [Machine.work_more hround] at h
      injection h with hq
      rw [← hq, hhas] at hlength
      cases hlength
    · rw [Machine.work_done hround] at h
      cases h

/-- A parser that waits for the connection to end has read such a response. -/
theorem untilClose_of_work (h : responses.work p = .more q) (hready : p.headersReady = false)
    (hbody : p.body.length ≤ kMaxBody) (hready' : q.headersReady = true)
    (hlength : q.hasLength = false) (hchunked : q.chunked = false) :
    UntilClose p.interimResponses p.incoming q.incoming.length (q.incoming.drop q.headerBytes) := by
  induction p using (Machine.work_induct (M := responses)) with
  | hgo p r hgo ih =>
    rw [Machine.work_go hgo] at h
    have hgo : advance p = .go r := hgo
    rw [advance_header hready] at hgo
    obtain ⟨headerEnd, s, hfind, hmax, hparse, hcases⟩ := consumeHeader_go hgo
    obtain ⟨hincoming, hbody', hsame, hinterim⟩ := parseHeaders_self hparse
    have hfresh := parseHeaders_within
      (show p.incoming = (beginResponse.append p.incoming).incoming from rfl) hparse
    rcases hcases with ⟨hstatus, hfew, rfl⟩ | ⟨hfinal, rfl⟩
    · refine .interim hfind hmax (hinterim ▸ hfew) hfresh hstatus ?_
      have hrest := ih h (hsame.trans hready) (hbody' ▸ hbody)
      dsimp only at hrest
      rw [hinterim, hincoming] at hrest
      exact hrest
    · obtain ⟨hempty, hhas, hplain, hin, hat⟩ := work_body h rfl (hbody' ▸ hbody) hlength hchunked
      dsimp only at hempty hhas hplain hin hat
      rw [hin, hat, hincoming]
      exact .final hfind hmax hfresh hfinal hempty hhas hplain
  | hmore p r hmore =>
    rw [Machine.work_more hmore] at h
    injection h with hq
    have hmore : advance p = .more r := hmore
    rw [advance_header hready] at hmore
    rw [← hq, consumeHeader_more hmore, hready] at hready'
    cases hready'
  | hdone p f hdone =>
    rw [Machine.work_done hdone] at h
    cases h

theorem advance_go_incoming (h : advance p = .go q) (hp : Limited p) :
    q.incoming.length ≤ p.incoming.length := by
  cases advance_go h with
  | header hready hgo =>
    obtain ⟨headerEnd, r, -, -, hparse, ⟨-, -, rfl⟩ | ⟨-, rfl⟩⟩ := consumeHeader_go hgo
    · obtain ⟨hincoming, -⟩ := parseHeaders_self hparse
      rw [← hincoming, List.length_drop]
      exact Nat.sub_le _ _
    · obtain ⟨hincoming, -⟩ := parseHeaders_self hparse
      exact Nat.le_of_eq (congrArg List.length hincoming)
  | chunk hready hchunked hempty hgo =>
    obtain ⟨-, hlike⟩ := (consumeChunk_limited hp.body).1 q hgo
    exact Nat.le_of_eq (congrArg List.length hlike.incoming)

theorem advance_more_incoming (h : advance p = .more q) : q.incoming = p.incoming := by
  cases advance_more h with
  | same hq => rw [hq]
  | toClose hready hchunked hempty hlength hq => rw [hq]

theorem advance_more_limited (h : advance p = .more q) (hp : Limited p) : Limited q := by
  cases advance_more h with
  | same hq =>
    rw [hq]
    exact hp
  | toClose hready hchunked hempty hlength hq =>
    rw [hq]
    exact ⟨hp.body, hp.length⟩

/-- Rounds only drop bytes. -/
theorem work_more_limited (h : responses.work p = .more q) (hp : Limited p) :
    Limited q ∧ q.incoming.length ≤ p.incoming.length := by
  induction p using (Machine.work_induct (M := responses)) with
  | hgo p r hgo ih =>
    rw [Machine.work_go hgo] at h
    obtain ⟨hq, hle⟩ := ih h (advance_go_limited hgo hp)
    exact ⟨hq, Nat.le_trans hle (advance_go_incoming hgo hp)⟩
  | hmore p r hmore =>
    rw [Machine.work_more hmore] at h
    injection h with hq
    rw [← hq]
    exact ⟨advance_more_limited hmore hp,
      Nat.le_of_eq (congrArg List.length (advance_more_incoming hmore))⟩
  | hdone p f hdone =>
    rw [Machine.work_done hdone] at h
    cases h

/-- What is in the buffer after a run over segments that meets no limit. -/
theorem feed_incoming {segments : List (List UInt8)} : ∀ {p q : Parser}, clean p segments = true →
    responses.feed p segments = .more q → Limited p →
    p.incoming.length ≤ kMaxHeader + kMaxBody → q.incoming.length ≤ kMaxHeader + kMaxBody := by
  induction segments with
  | nil =>
    intro p q _ h _ hle
    injection h with hq
    rw [← hq]
    exact hle
  | cons segment rest ih =>
    intro p q hclean h hp _
    rw [clean, Bool.and_eq_true, Bool.and_eq_true, decide_eq_true_eq] at hclean
    obtain ⟨⟨hbuffer, -⟩, hlater⟩ := hclean
    rw [Machine.feed] at h
    cases hwork : responses.work (p.append segment) with
    | go r => exact absurd hwork (Machine.work_ne_go _ r)
    | done f =>
      rw [show responses.work (responses.add p segment) = .done f from hwork] at h
      cases h
    | more r =>
      have hp' : Limited (p.append segment) := ⟨hp.body, hp.length⟩
      obtain ⟨hr, hle⟩ := work_more_limited hwork hp'
      rw [show responses.work (responses.add p segment) = .more r from hwork] at h
      rw [show consume (p.append segment) = .more r from hwork] at hlater
      refine ih hlater h hr (Nat.le_trans hle ?_)
      rw [append_incoming, List.length_append]
      exact hbuffer

theorem limited_begin (text : List UInt8) : Limited (beginResponse.append text) :=
  ⟨Nat.zero_le _, fun h => by cases h⟩

/-- **A body over the limit has ended with the connection.** -/
theorem tooLong_of_published {text : List UInt8} {segments : List (List UInt8)} {close : Bool}
    (htext : segments.flatten = text) (h : receive beginResponse segments close = some f)
    (hf : f.bFail = false) (hover : kMaxBody < f.body.length) : TooLong text := by
  have hclean : clean beginResponse segments = true := by
    cases hc : clean beginResponse segments with
    | true => rfl
    | false =>
      obtain ⟨q, why, hfail⟩ := @receive_unclean close _ _ hc
      rw [hfail] at h
      obtain rfl := Option.some.inj h
      cases hf
  obtain ⟨hreceive, hsure⟩ := @receive_eq close _ _ hclean
  have hagree := Machine.feed_eq consume_begin hsure
  rw [hreceive] at h
  rw [htext] at hagree
  have hadd : responses.add beginResponse text = beginResponse.append text := rfl
  rw [hadd] at hagree
  cases hfeed : responses.feed beginResponse segments with
  | go q => rw [hfeed] at hagree; cases hagree
  | done g =>
    rw [hfeed] at h hagree
    obtain rfl := Option.some.inj h
    cases hwork : responses.work (beginResponse.append text) with
    | go q => rw [hwork] at hagree; cases hagree
    | more q => rw [hwork] at hagree; cases hagree
    | done e =>
      rw [hwork] at hagree
      have hout : g.outcome = e.outcome := hagree
      have hbody : g.body = e.body := congrArg Outcome.body hout
      have hfail : g.bFail = e.bFail := congrArg Outcome.bFailed hout
      have hle := work_done_limited hwork (hfail ▸ hf) (limited_begin text)
      rw [hbody] at hover
      omega
  | more q =>
    rw [hfeed] at h hagree
    cases hwork : responses.work (beginResponse.append text) with
    | go r => rw [hwork] at hagree; cases hagree
    | done g => rw [hwork] at hagree; cases hagree
    | more r =>
      rw [hwork] at hagree
      have hqr : q = r := hagree
      rw [← hqr] at hwork
      cases close with
      | false => cases h
      | true =>
        obtain rfl := Option.some.inj h
        -- the parser stays where it is when the connection ends
        have hsettled : consume q = .more q := by
          have hsame := Machine.work_of_more hwork []
          rw [responses.add_nil, responses.add_nil, hwork] at hsame
          exact hsame
        rw [finishEof, hsettled] at hf hover
        dsimp only at hf hover
        split at hf
        case isTrue => cases hf
        case isFalse hopen =>
          rw [if_neg hopen] at hover
          rw [not_or, not_or, Bool.not_eq_false, Bool.not_eq_true, Bool.not_eq_true] at hopen
          obtain ⟨hready, hlength, hchunked⟩ := hopen
          refine ⟨q.incoming.length, q.incoming.drop q.headerBytes, ?_, ?_, hover⟩
          · exact untilClose_of_work hwork rfl (Nat.zero_le _) hready hlength hchunked
          · exact feed_incoming hclean hfeed (limited_begin []) (Nat.zero_le _)

/-! ## Such a body is published -/

theorem consumeHeader_interim (hfind : find crlfcrlf p.incoming = some headerEnd)
    (hmax : headerEnd ≤ kMaxHeader) (hparse : parseHeaders p headerEnd = (true, q))
    (hstatus : q.status < 200) (hfew : q.interimResponses < 16) :
    consumeHeader p = .go { q with
      incoming := q.incoming.drop (headerEnd + 4), interimResponses := q.interimResponses + 1 } := by
  rw [consumeHeader, hfind]
  dsimp only
  rw [if_neg (Nat.not_lt.2 hmax), hparse]
  dsimp only
  rw [if_pos hstatus, if_neg (by omega)]

/-- The parser behind the final header block. -/
def Parser.atBody (q : Parser) (headerEnd : Nat) : Parser :=
  { q with headersReady := true, headerBytes := headerEnd + 4, chunkPosition := headerEnd + 4 }

theorem consumeHeader_final (hfind : find crlfcrlf p.incoming = some headerEnd)
    (hmax : headerEnd ≤ kMaxHeader) (hparse : parseHeaders p headerEnd = (true, q))
    (hstatus : 200 ≤ q.status) : consumeHeader p = .go (q.atBody headerEnd) := by
  rw [consumeHeader, hfind]
  dsimp only
  rw [if_neg (Nat.not_lt.2 hmax), hparse]
  dsimp only
  rw [if_neg (Nat.not_lt.2 hstatus), Parser.atBody]

/-- An empty buffer waits. -/
theorem advance_nothing (hready : p.headersReady = false) (hnone : p.incoming = []) :
    advance p = .more p := by
  have hshort : ¬ p.incoming.length > kMaxHeader := by
    rw [hnone]
    exact Nat.not_lt_zero _
  rw [advance_header hready, consumeHeader_none (by rw [hnone]; rfl), if_neg hshort]

/-- An interim response that is all there is. -/
theorem work_interim (hready : p.headersReady = false)
    (hfind : find crlfcrlf p.incoming = some headerEnd) (hall : p.incoming.length ≤ headerEnd + 4)
    (hmax : headerEnd ≤ kMaxHeader) (hparse : parseHeaders p headerEnd = (true, q))
    (hstatus : q.status < 200) (hfew : p.interimResponses < 16) :
    ∃ s, responses.work p = .more s ∧ s.headersReady = false ∧ s.incoming = [] ∧
      s.interimResponses = p.interimResponses + 1 := by
  obtain ⟨hincoming, -, hsame, hcount⟩ := parseHeaders_self hparse
  have hround := consumeHeader_interim hfind hmax hparse hstatus (hcount ▸ hfew)
  rw [← advance_header hready] at hround
  have hnone : q.incoming.drop (headerEnd + 4) = [] := by
    rw [hincoming]
    exact List.drop_eq_nil_of_le hall
  refine ⟨_, (Machine.work_go (M := responses) hround).trans
    (Machine.work_more (M := responses) (advance_nothing (hsame.trans hready) hnone)),
    hsame.trans hready, hnone, congrArg (· + 1) hcount⟩

/-- A body without a length waits for the connection to end. -/
theorem work_waits (hready : p.headersReady = true) (hlength : p.hasLength = false)
    (hchunked : p.chunked = false) (hempty : ¬ (p.status = 204 ∨ p.status = 304)) :
    responses.work p = .more { p with closeAfter := true } := by
  refine Machine.work_more (M := responses) ?_
  show advance p = _
  rw [advance_plain hready hchunked hempty, if_pos hlength]

/-- The final header block, and the body up to the close. -/
theorem work_final (hready : p.headersReady = false)
    (hfind : find crlfcrlf p.incoming = some headerEnd) (hmax : headerEnd ≤ kMaxHeader)
    (hparse : parseHeaders p headerEnd = (true, q)) (hstatus : 200 ≤ q.status)
    (hempty : ¬ (q.status = 204 ∨ q.status = 304)) (hlength : q.hasLength = false)
    (hchunked : q.chunked = false) :
    ∃ s, responses.work p = .more s ∧ (finishEof s).bFail = false ∧
      (finishEof s).status = q.status ∧ (finishEof s).body = p.incoming.drop (headerEnd + 4) := by
  obtain ⟨hincoming, -, -, -⟩ := parseHeaders_self hparse
  have hround := consumeHeader_final hfind hmax hparse hstatus
  rw [← advance_header hready] at hround
  have hwaits := work_waits (p := q.atBody headerEnd) rfl hlength hchunked hempty
  -- it still waits when the connection ends
  have hwaits' : consume { q.atBody headerEnd with closeAfter := true } =
      .more { q.atBody headerEnd with closeAfter := true } :=
    work_waits (p := { q.atBody headerEnd with closeAfter := true }) rfl hlength hchunked hempty
  have hopen : ¬ ((true : Bool) = false ∨ q.hasLength = true ∨ q.chunked = true) := by
    rw [hlength, hchunked]
    decide
  have hend : finishEof { q.atBody headerEnd with closeAfter := true } =
      succeed { q.atBody headerEnd with
        closeAfter := true, body := q.incoming.drop (headerEnd + 4) } q.incoming.length := by
    rw [finishEof, hwaits']
    exact if_neg hopen
  refine ⟨_, (Machine.work_go (M := responses) hround).trans hwaits, ?_⟩
  rw [hend]
  exact ⟨rfl, rfl, congrArg (List.drop (headerEnd + 4)) hincoming⟩

/-- A segment that comes to an empty buffer. -/
theorem onDataIn_first {s : Parser} {text : List UInt8} (hnone : p.incoming = [])
    (hsize : text.length ≤ kMaxHeader + kMaxBody) (hwork : responses.work (p.append text) = .more s)
    : onDataIn p text = .more s := by
  rw [onDataIn, if_neg]
  · exact hwork
  · rw [hnone, List.length_nil]
    omega

/-- The final header block and the body in one segment, and the close. -/
theorem receive_final {text : List UInt8} (hready : p.headersReady = false)
    (hnone : p.incoming = []) (hfind : find crlfcrlf text = some headerEnd)
    (hmax : headerEnd ≤ kMaxHeader)
    (hparse : parseHeaders (beginResponse.append text) headerEnd = (true, q))
    (hstatus : 200 ≤ q.status) (hempty : ¬ (q.status = 204 ∨ q.status = 304))
    (hlength : q.hasLength = false) (hchunked : q.chunked = false)
    (hsize : text.length ≤ kMaxHeader + kMaxBody) :
    ∃ f, receive p [text] true = some f ∧ f.bFail = false ∧ f.status = q.status ∧
      f.body = text.drop (headerEnd + 4) := by
  have hincoming : (p.append text).incoming = text := by
    rw [append_incoming, hnone, List.nil_append]
  have hparse' := parseHeaders_within
    (show (beginResponse.append text).incoming = (p.append text).incoming from hincoming.symm) hparse
  obtain ⟨s, hwork, hf, hstatus', hbody⟩ := work_final (p := p.append text) hready
    (by rw [hincoming]; exact hfind) hmax hparse' hstatus hempty hlength hchunked
  refine ⟨finishEof s, ?_, hf, hstatus', ?_⟩
  · rw [receive, onDataIn_first hnone hsize hwork]
    rfl
  · rw [hbody, hincoming]

/-- A header block is read without what follows it. -/
theorem parseHeaders_take {text : List UInt8} (hfind : find crlfcrlf text = some headerEnd)
    (hparse : parseHeaders (beginResponse.append text) headerEnd = (true, q)) :
    ∃ r, parseHeaders (beginResponse.append (text.take (headerEnd + 4))) headerEnd = (true, r) ∧
      r.status = q.status := by
  have hfind' : find crlfcrlf (text.take (headerEnd + 4)) = some headerEnd := find_take hfind
  have htext : (beginResponse.append (text.take (headerEnd + 4))).append
      (text.drop (headerEnd + 4)) = beginResponse.append text := by
    rw [append_append, List.take_append_drop]
  have hread := parseHeaders_append (p := beginResponse.append (text.take (headerEnd + 4)))
    hfind' (text.drop (headerEnd + 4))
  rw [htext, hparse] at hread
  obtain ⟨hok, hq⟩ := Prod.mk.inj hread
  exact ⟨_, Prod.ext hok.symm rfl, (congrArg Parser.status hq).symm⟩

/-- Interim responses each in a segment of its own, and the rest in one. -/
theorem published_of_untilClose {n size : Nat} {text body : List UInt8}
    (h : UntilClose n text size body) (hsize : size ≤ kMaxHeader + kMaxBody) :
    ∀ {p : Parser}, p.headersReady = false → p.incoming = [] → p.interimResponses = n →
      ∃ segments f, segments.flatten = text ∧ receive p segments true = some f ∧ f.bFail = false ∧
        f.body = body := by
  induction h with
  | @final n headerEnd text q hfind hmax hparse hstatus hempty hlength hchunked =>
    intro p hready hnone _
    obtain ⟨f, hreceive, hf, -, hbody⟩ :=
      receive_final hready hnone hfind hmax hparse hstatus hempty hlength hchunked hsize
    exact ⟨[text], f, List.append_nil text, hreceive, hf, hbody⟩
  | @interim n headerEnd size text body q hfind hmax hfew hparse hstatus _ ih =>
    intro p hready hnone hcount
    obtain ⟨r, hpart, hsame⟩ := parseHeaders_take hfind hparse
    have hincoming : (p.append (text.take (headerEnd + 4))).incoming =
        text.take (headerEnd + 4) := by
      rw [append_incoming, hnone, List.nil_append]
    have hparse' := parseHeaders_within
      (show (beginResponse.append (text.take (headerEnd + 4))).incoming =
        (p.append (text.take (headerEnd + 4))).incoming from hincoming.symm) hpart
    have hle := List.length_take_le (headerEnd + 4) text
    obtain ⟨s, hwork, hready', hnone', hcount'⟩ := work_interim
      (p := p.append (text.take (headerEnd + 4))) hready
      (by rw [hincoming]; exact find_take hfind) (by rw [hincoming]; exact hle) hmax hparse'
      (show r.status < 200 by omega) (show p.interimResponses < 16 by omega)
    have hcount' : s.interimResponses = n + 1 := hcount'.trans (congrArg (· + 1) hcount)
    have hroom : 4 ≤ kMaxBody := by decide
    obtain ⟨segments, f, hflat, hreceive, hf, hbody⟩ := ih hsize hready' hnone' hcount'
    refine ⟨text.take (headerEnd + 4) :: segments, f, ?_, ?_, hf, hbody⟩
    · rw [List.flatten_cons, hflat, List.take_append_drop]
    · rw [receive, onDataIn_first hnone (by omega) hwork]
      exact hreceive

/-- **Published bodies are within the limit exactly where they do not end with the connection above
it.** For every stream of bytes: in all segmentations, closed or not, a published body has at most
`kMaxBody` bytes, if and only if the stream is not interim responses, a header block that announces
no body, and more than `kMaxBody` bytes that fit into the buffer with it. -/
theorem body_limit_iff (text : List UInt8) :
    (∀ (segments : List (List UInt8)) (close : Bool) (o : Outcome), segments.flatten = text →
      published segments close = some o → o.bFailed = false → o.body.length ≤ kMaxBody) ↔
    ¬ TooLong text := by
  constructor
  · rintro hall ⟨size, body, huntil, hsize, hover⟩
    obtain ⟨segments, f, hflat, hreceive, hf, rfl⟩ :=
      published_of_untilClose huntil hsize (p := beginResponse) rfl rfl rfl
    have hpublished : published segments true = some f.outcome := by
      rw [published, hreceive]
      rfl
    have hle := hall segments true f.outcome hflat hpublished hf
    have hle : f.body.length ≤ kMaxBody := hle
    omega
  · intro hnot segments close o hflat hpublished ho
    obtain ⟨f, hreceive, rfl⟩ := Option.map_eq_some_iff.1 hpublished
    by_contra hover
    exact hnot (tooLong_of_published hflat hreceive ho (Nat.lt_of_not_le hover))

/-- A header block that announces no body. -/
def plainHeader : List UInt8 := ascii "HTTP/1.1 200 OK\r\n\r\n"

/-- **A published body over the limit**: one byte more than `kMaxBody`, and then the close. -/
theorem body_over_limit :
    published [plainHeader ++ List.replicate (kMaxBody + 1) 120] true =
      some { bFailed := false, status := 200, body := List.replicate (kMaxBody + 1) 120 } ∧
    kMaxBody < (List.replicate (kMaxBody + 1) (120 : UInt8)).length := by
  have hfind : find crlfcrlf (beginResponse.append plainHeader).incoming = some 15 := by
    decide +kernel
  have hgood : (parseHeaders (beginResponse.append plainHeader) 15).1 = true ∧
      (parseHeaders (beginResponse.append plainHeader) 15).2.status = 200 ∧
      (parseHeaders (beginResponse.append plainHeader) 15).2.hasLength = false ∧
      (parseHeaders (beginResponse.append plainHeader) 15).2.chunked = false := by
    decide +kernel
  obtain ⟨hok, hstatus, hlength, hchunked⟩ := hgood
  have hparse := parseHeaders_append hfind (List.replicate (kMaxBody + 1) 120)
  rw [append_append, hok] at hparse
  have hlong : plainHeader.length = 19 := by decide +kernel
  have hlarge : (List.replicate (kMaxBody + 1) (120 : UInt8)).length = kMaxBody + 1 :=
    List.length_replicate
  have hfew : 20 ≤ kMaxHeader := by decide
  have hsmall : 15 ≤ kMaxHeader := by decide
  obtain ⟨f, hreceive, hf, hstatus', hbody⟩ := receive_final (p := beginResponse) rfl rfl
    (find_append hfind _) hsmall hparse (Nat.le_of_eq hstatus.symm)
    (by
      show ¬ ((parseHeaders (beginResponse.append plainHeader) 15).2.status = 204 ∨
        (parseHeaders (beginResponse.append plainHeader) 15).2.status = 304)
      rw [hstatus]
      decide)
    hlength hchunked (by
      show (plainHeader ++ _).length ≤ _
      rw [List.length_append, hlong, hlarge]
      omega)
  have hdrop : (plainHeader ++ List.replicate (kMaxBody + 1) (120 : UInt8)).drop (15 + 4) =
      List.replicate (kMaxBody + 1) 120 := by
    rw [show 15 + 4 = plainHeader.length from hlong.symm, List.drop_left]
  refine ⟨?_, by rw [hlarge]; exact Nat.lt_succ_self _⟩
  have hstatus' : f.status = 200 := hstatus'.trans hstatus
  have hbody : f.body = List.replicate (kMaxBody + 1) 120 := hbody.trans hdrop
  rw [published, show receive beginResponse [plainHeader ++ List.replicate (kMaxBody + 1) 120] true =
    some f from hreceive, Option.map_some, Finish.outcome, hf, hstatus', hbody]

end OpenIdea.Http
