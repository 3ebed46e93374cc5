import OpenIdea.Http.ClientSteps

/-!
# The results of the HTTP client

A request gets one result, from the bytes that came on its session between `BeginResponse` and the
end of its message (`one_result`). The parser takes the first whole response it finds, and any byte
after that shows in `bClose`, so that the session is not used again.
-/

set_option autoImplicit false

namespace OpenIdea.Http

open OpenIdea.Lib.Runs OpenIdea.Lib.Rounds OpenIdea.Lib.Search

/-! ## Whole responses -/

/-- The header block that was read is still there. -/
def Fits (p : Parser) : Prop := p.headersReady = true → p.headerBytes ≤ p.incoming.length

variable {p : Parser} {f : Finish} {sp : Span} {s : Impl}

variable {q : Parser} {more : List UInt8} {i : Nat}

theorem consumeHeader_fits (hready : p.headersReady = false) (h : consumeHeader p = .go q) :
    Fits q := by
  rw [consumeHeader] at h
  split at h
  case h_1 =>
    split at h
    · cases h
    · cases h
  case h_2 headerEnd hfind =>
    have hle : headerEnd + 4 ≤ p.incoming.length := find_le hfind
    have hframe := parseHeaders_frame p headerEnd
    split at h
    case isTrue => cases h
    case isFalse =>
      split at h
      case h_1 => cases h
      case h_2 r hres =>
        rw [hres] at hframe
        simp only [Parser.frame, Prod.mk.injEq] at hframe
        obtain ⟨hincoming, hsame⟩ := hframe
        dsimp only at h
        split at h
        case isTrue =>
          split at h
          case isTrue => cases h
          case isFalse =>
            -- an interim response: the next block is still to be read
            injection h with hq
            subst hq
            intro hon
            have hon' : r.headersReady = true := hon
            rw [hsame, hready] at hon'
            cases hon'
        case isFalse =>
          injection h with hq
          subst hq
          intro _
          show headerEnd + 4 ≤ r.incoming.length
          rw [hincoming]
          exact hle

theorem consumeChunk_header (h : consumeChunk p = .go q) :
    q.headerBytes = p.headerBytes ∧ q.incoming = p.incoming := by
  rw [consumeChunk] at h
  split at h
  case h_1 =>
    split at h
    · cases h
    · cases h
  case h_2 =>
    split at h
    case h_1 => cases h
    case h_2 =>
      dsimp only at h
      split at h
      case isTrue =>
        split at h
        · cases h
        · cases h
      case isFalse =>
        split at h
        case isTrue => cases h
        case isFalse =>
          split at h
          case isTrue => cases h
          case isFalse =>
            split at h
            case isTrue => cases h
            case isFalse =>
              injection h with hq
              subst hq
              exact ⟨rfl, rfl⟩

theorem advance_fits (hfits : Fits p) (h : advance p = .go q) : Fits q := by
  cases advance_go h with
  | header hready hgo => exact consumeHeader_fits hready hgo
  | chunk hready hchunked hstatus hgo =>
    obtain ⟨hheader, hincoming⟩ := consumeChunk_header hgo
    intro _
    rw [hheader, hincoming]
    exact hfits hready

theorem trailerEnd_le {text : List UInt8} : ∀ {fuel position consumed : Nat},
    trailerEnd text fuel position = some consumed → consumed ≤ text.length := by
  intro fuel
  induction fuel with
  | zero =>
    intro position consumed h
    cases h
  | succ fuel ih =>
    intro position consumed h
    rw [trailerEnd] at h
    cases hfound : findFrom crlf text position with
    | none =>
      rw [hfound] at h
      cases h
    | some lineEnd =>
      have hin : lineEnd + 2 ≤ text.length := (findFrom_le crlf_ne_nil hfound).2
      rw [hfound] at h
      dsimp only at h
      split at h
      case isTrue =>
        obtain rfl := Option.some.inj h
        exact hin
      case isFalse => exact ih h

/-- Bytes after a whole response make the connection useless. -/
theorem succeed_spare {consumed : Nat} (h : consumed < p.incoming.length) :
    (succeed p consumed).bClose = true := by
  rw [succeed]
  dsimp only
  rw [decide_eq_true h, Bool.or_true]

theorem length_lt_append {text : List UInt8} (hne : more ≠ []) {n : Nat} (h : n ≤ text.length) :
    n < (text ++ more).length := by
  have hpos := List.length_pos_of_ne_nil hne
  rw [List.length_append]
  omega

/-- A chunked body that is whole ends at the same place when more has come. -/
theorem consumeChunk_success (h : consumeChunk p = .done f) (hok : f.bFail = false) :
    ∃ consumed ≤ p.incoming.length, f = succeed p consumed ∧
      ∀ more, consumeChunk (p.append more) = .done (succeed (p.append more) consumed) := by
  rw [consumeChunk] at h
  split at h
  case h_1 =>
    split at h
    case isTrue =>
      injection h with he
      subst he
      cases hok
    case isFalse => cases h
  case h_2 lineEnd hfound =>
    have hin := findFrom_le crlf_ne_nil hfound
    split at h
    case h_1 =>
      injection h with he
      subst he
      cases hok
    case h_2 size hsize =>
      dsimp only at h
      split at h
      case isTrue hzero =>
        split at h
        case h_1 => cases h
        case h_2 consumed htrailer =>
          injection h with he
          refine ⟨consumed, trailerEnd_le htrailer, he.symm, fun more => ?_⟩
          have hat : (p.append more).chunkPosition = p.chunkPosition := rfl
          have hline : slice (p.incoming ++ more) p.chunkPosition lineEnd =
              slice p.incoming p.chunkPosition lineEnd := slice_append (by omega) more
          rw [consumeChunk, append_incoming, hat, findFrom_append crlf_ne_nil hfound]
          dsimp only
          rw [hline, hsize]
          dsimp only
          rw [if_pos hzero, trailerEnd_append more (by rw [List.length_append]; omega) htrailer]
      case isFalse =>
        split at h
        case isTrue =>
          injection h with he
          subst he
          cases hok
        case isFalse =>
          split at h
          case isTrue => cases h
          case isFalse =>
            split at h
            case isFalse => cases h
            case isTrue =>
              injection h with he
              subst he
              cases hok

/-- **A round that ends a response ends it when more has come as well**, and the rest is noticed. -/
theorem advance_success (hfits : Fits p) (h : advance p = .done f) (hok : f.bFail = false)
    (hne : more ≠ []) :
    ∃ f', advance (p.append more) = .done f' ∧ f'.outcome = f.outcome ∧ f'.bClose = true := by
  cases advance_done h with
  | header hready hdone =>
    rw [consumeHeader_done hdone] at hok
    cases hok
  | empty hready hstatus hf =>
    subst hf
    have hready' : (p.append more).headersReady = true := hready
    exact ⟨_, advance_empty hready' hstatus, rfl,
      succeed_spare (length_lt_append hne (hfits hready))⟩
  | chunk hready hchunked hstatus hdone =>
    have hready' : (p.append more).headersReady = true := hready
    obtain ⟨consumed, hin, rfl, hmore⟩ := consumeChunk_success hdone hok
    refine ⟨_, (advance_chunk hready' hchunked hstatus).trans (hmore more), rfl, ?_⟩
    exact succeed_spare (length_lt_append hne hin)
  | whole hready hchunked hstatus hlength hwhole hf =>
    subst hf
    have hready' : (p.append more).headersReady = true := hready
    have hle := hfits hready
    have hin : p.headerBytes + p.contentLength ≤ p.incoming.length := by omega
    have hgrow : ¬ (p.append more).incoming.length - p.headerBytes < p.contentLength := by
      rw [append_incoming, List.length_append]
      omega
    refine ⟨_, (advance_plain hready' hchunked hstatus).trans
      ((if_neg hlength).trans (if_neg hgrow)), ?_, ?_⟩
    · show (succeed { p.append more with
        body := slice (p.incoming ++ more) p.headerBytes (p.headerBytes + p.contentLength) }
        _).outcome = _
      rw [slice_append hin]
      rfl
    · exact succeed_spare (length_lt_append hne hin)

/-- **A whole response is whole when more has come**, and the rest is noticed. -/
theorem work_success (hfits : Fits p) (h : responses.work p = .done f) (hok : f.bFail = false)
    (hne : more ≠ []) :
    ∃ f', responses.work (p.append more) = .done f' ∧ f'.outcome = f.outcome ∧
      f'.bClose = true := by
  induction p using (Machine.work_induct (M := responses)) with
  | hgo p q ha ih =>
    rw [Machine.work_go ha] at h
    have hnext := Machine.work_go (responses.go_add ha more)
    obtain ⟨f', hwork, hrest⟩ := ih (advance_fits hfits ha) h
    exact ⟨f', hnext.trans hwork, hrest⟩
  | hmore p q ha =>
    rw [Machine.work_more ha] at h
    cases h
  | hdone p g ha =>
    rw [Machine.work_done ha] at h
    injection h with he
    subst he
    obtain ⟨f', hadvance, hrest⟩ := advance_success hfits ha hok hne
    exact ⟨f', Machine.work_done hadvance, hrest⟩

/-- The bytes begin with a whole response, or are one. -/
def Whole (bytes : List UInt8) (f : Finish) : Prop :=
  responses.work (beginResponse.append bytes) = .done f ∧ f.bFail = false

theorem Whole.append {head tail : List UInt8} (h : Whole head f) (hne : tail ≠ []) :
    ∃ f', Whole (head ++ tail) f' ∧ f'.outcome = f.outcome ∧ f'.bClose = true := by
  have hfits : Fits (beginResponse.append head) := fun he => by cases he
  obtain ⟨f', hwork, hout, hclose⟩ := work_success hfits h.1 h.2 hne
  rw [append_append] at hwork
  have hfail : f'.bFail = f.bFail := congrArg Outcome.bFailed hout
  exact ⟨f', ⟨hwork, hfail.trans h.2⟩, hout, hclose⟩

/-- The result is that of the first whole response in the bytes. -/
def FirstOf (bytes : List UInt8) (x : Request) : Prop :=
  ∃ n ≤ bytes.length, ∃ f, Whole (bytes.take n) f ∧
    (∀ m < n, ∀ g, ¬ Whole (bytes.take m) g) ∧ x.iStatus = f.status ∧ x.sBody = f.body

/-- The result is that of a response that only the close has ended. -/
def EndedByClose (bytes : List UInt8) (x : Request) : Prop :=
  ∃ p, responses.work (beginResponse.append bytes) = .more p ∧ (finishEof p).bFail = false ∧
    x.iStatus = (finishEof p).status ∧ x.sBody = (finishEof p).body

theorem Whole.firstOf {bytes : List UInt8} (h : Whole bytes f) {x : Request}
    (hstatus : x.iStatus = f.status) (hbody : x.sBody = f.body) : FirstOf bytes x := by
  classical
  have hexists : ∃ n, ∃ g, Whole (bytes.take n) g := by
    refine ⟨bytes.length, f, ?_⟩
    rw [List.take_length]
    exact h
  obtain ⟨g, hg⟩ := Nat.find_spec hexists
  have hle : Nat.find hexists ≤ bytes.length := by
    apply Nat.find_min' hexists
    refine ⟨f, ?_⟩
    rw [List.take_length]
    exact h
  have hout : g.outcome = f.outcome := by
    have hsplit := List.take_append_drop (Nat.find hexists) bytes
    by_cases hrest : bytes.drop (Nat.find hexists) = []
    · rw [hrest, List.append_nil] at hsplit
      rw [hsplit] at hg
      have hsame := hg.1.symm.trans h.1
      injection hsame with he
      rw [he]
    · obtain ⟨f', hf', hout, _⟩ := hg.append hrest
      rw [hsplit] at hf'
      have hsame := hf'.1.symm.trans h.1
      injection hsame with he
      rw [← he, hout]
  have hgstatus : g.status = f.status := congrArg Outcome.status hout
  have hgbody : g.body = f.body := congrArg Outcome.body hout
  refine ⟨Nat.find hexists, hle, g, hg, ?_, ?_, ?_⟩
  · intro m hm g' hg'
    exact Nat.find_min hexists hm ⟨g', hg'⟩
  · rw [hstatus, hgstatus]
  · rw [hbody, hgbody]

/-- A result from a span is that of a whole response, or of one that the close has ended. -/
theorem FromSpan.cases {x : Request} {sp : Span} (h : FromSpan x sp) :
    FirstOf sp.bytes x ∨ EndedByClose sp.bytes x := by
  obtain ⟨close, f, hclosing, hok, hstatus, hbody⟩ := h
  cases hwork : responses.work (beginResponse.append sp.bytes) with
  | go p => exact absurd hwork (Machine.work_ne_go _ p)
  | done g =>
    rw [hwork] at hclosing
    obtain rfl := Option.some.inj hclosing
    exact Or.inl ((show Whole sp.bytes g from ⟨hwork, hok⟩).firstOf hstatus hbody)
  | more p =>
    rw [hwork] at hclosing
    cases close with
    | false => cases hclosing
    | true =>
      obtain rfl := Option.some.inj hclosing
      exact Or.inr ⟨p, hwork, hok, hstatus, hbody⟩

/-- More has come than a whole response. -/
def Surplus (sp : Span) : Prop :=
  ∃ head tail, sp.bytes ++ sp.after = head ++ tail ∧ tail ≠ [] ∧ ∃ f, Whole head f

theorem Exact.not_surplus (h : Exact sp) : ¬ Surplus sp := by
  obtain ⟨hafter, f, hwork, _, hclose⟩ := h
  rintro ⟨head, tail, hsplit, hne, g, hg⟩
  obtain ⟨f', hf', _, hclose'⟩ := hg.append hne
  rw [hafter, List.append_nil] at hsplit
  rw [← hsplit] at hf'
  have hsame := hf'.1.symm.trans hwork
  injection hsame with he
  rw [he, hclose] at hclose'
  cases hclose'

theorem Awaits.not_surplus {r : Nat} {x : HttpSession} (h : Awaits r x)
    (hsp : x.spans.getLast? = some sp) : ¬ Surplus sp := by
  obtain ⟨bytes, hlast, hwork⟩ := h
  rw [hlast] at hsp
  obtain rfl := Option.some.inj hsp
  rintro ⟨head, tail, hsplit, hne, g, hg⟩
  obtain ⟨f', hf', _⟩ := hg.append hne
  rw [← hsplit, List.append_nil] at hf'
  have hsame := hf'.1.symm.trans hwork
  cases hsame

/-! ## Where the client is done -/

/-- The last span of an open session is complete, or is that of the request in flight. -/
theorem Done.open_cases (h : Done s) (hi : (s.sessions i).isOpen = true) :
    Idle (s.sessions i) ∨ ∃ r, s.flight = some r ∧ Awaits r (s.sessions i) := by
  cases hactive : (s.sessions i).active with
  | false => exact Or.inl (h.good.clean i hi hactive)
  | true =>
    right
    obtain ⟨hsession, hsome⟩ := h.good.base.wired.active i hactive
    obtain ⟨r, hf⟩ := Option.isSome_iff_exists.1 hsome
    obtain ⟨j, hj, hawaits⟩ := h.good.serving r hf
    rw [hsession] at hj
    obtain rfl := Option.some.inj hj
    exact ⟨r, hf, hawaits⟩

/-- A result that needed the close is on a session that is closed. -/
theorem Done.closed_of_ended (h : Done s) {r : Nat} (hsp : sp ∈ (s.sessions i).spans)
    (hr : sp.request = r) (hdone : (s.requests r).iDone = true) {x : Request}
    (hended : EndedByClose sp.bytes x) : (s.sessions i).isOpen = false := by
  obtain ⟨p, hmore, _⟩ := hended
  -- the bytes are no whole response
  have hopen : ¬ Exact sp := by
    rintro ⟨_, f, hwork, _⟩
    rw [hmore] at hwork
    cases hwork
  by_contra hne
  have hi : (s.sessions i).isOpen = true := by simpa using hne
  have hlast : (s.sessions i).spans.getLast? = some sp := by
    obtain ⟨last, hlast⟩ := Option.isSome_iff_exists.1
      (List.getLast?_isSome.2 (List.ne_nil_of_mem hsp))
    rw [spans_eq hlast] at hsp
    rcases List.mem_append.1 hsp with hin | hin
    · exact absurd ((h.good.base.sessions i).isolated sp hin) hopen
    · rw [List.mem_singleton.1 hin]
      exact hlast
  rcases h.open_cases hi with hidle | ⟨q, hf, bytes, hlast', _⟩
  · exact hopen (hidle.2 sp hlast)
  · rw [hlast] at hlast'
    obtain rfl := Option.some.inj hlast'
    have hwait := h.good.base.account.waiting (holders_pos_of_flight hf)
    rw [show (s.requests q).iDone = true by rw [show q = r from hr]; exact hdone] at hwait
    cases hwait

/-- A span that is neither complete nor that of the request in flight is the last of its session,
which is closed. -/
theorem Done.last_of (h : Done s) {before later : List Span}
    (hspans : (s.sessions i).spans = before ++ sp :: later) (hexact : ¬ Exact sp)
    (hawaits : ∀ r, Awaits r (s.sessions i) → (s.sessions i).spans.getLast? ≠ some sp) :
    later = [] ∧ (s.sessions i).isOpen = false := by
  have hnil : later = [] := by
    by_contra hne
    refine hexact ((h.good.base.sessions i).isolated sp ?_)
    rw [hspans, List.dropLast_append_of_ne_nil (List.cons_ne_nil _ _),
      List.dropLast_cons_of_ne_nil hne]
    exact List.mem_append_right _ List.mem_cons_self
  subst hnil
  have hlast : (s.sessions i).spans.getLast? = some sp := by
    rw [hspans]
    exact List.getLast?_concat
  refine ⟨rfl, ?_⟩
  by_contra hne
  rcases h.open_cases (show (s.sessions i).isOpen = true by simpa using hne) with hidle | hserved
  · exact hexact (hidle.2 sp hlast)
  · obtain ⟨r, _, hserved⟩ := hserved
    exact hawaits r hserved hlast

/-! ## The results -/

/-- **The results of the client.** -/
structure Answered (s : Impl) : Prop where
  /-- Only the request in flight waits for a response, on the session of use. -/
  inFlight : ∀ r, s.flight = some r → ∃ i, s.session = some i ∧ Awaits r (s.sessions i)
  active : ∀ i, (s.sessions i).active = true → s.session = some i ∧ s.flight.isSome = true
  /-- An awaited request waits in one place, or it has been published, once. -/
  once : ∀ r, s.holders r + (s.requests r).publishes =
    if (s.requests r).bAwaitStarted then 1 else 0
  resumed : ∀ r, (s.requests r).resumes =
    if (s.requests r).publishes = 1 ∧ (s.requests r).suspended = true then 1 else 0
  /-- A success is the first whole response among the bytes of the request's own span, or the
  response that the close of its session has ended. -/
  own : ∀ r, (s.requests r).iDone = true → (s.requests r).bFailed = false →
    ∃ i, ∃ sp ∈ (s.sessions i).spans, sp.request = r ∧
      (FirstOf sp.bytes (s.requests r) ∨
        EndedByClose sp.bytes (s.requests r) ∧ (s.sessions i).isOpen = false)
  /-- The bytes of a session are those of its spans; what came before a request or after a whole
  response is of no later span, and the session is closed. -/
  received : ∀ i, (s.sessions i).received =
    (s.sessions i).early ++ (s.sessions i).spans.flatMap fun sp => sp.bytes ++ sp.after
  early : ∀ i, (s.sessions i).early ≠ [] →
    (s.sessions i).spans = [] ∧ (s.sessions i).isOpen = false
  after : ∀ i before sp later, (s.sessions i).spans = before ++ sp :: later → sp.after ≠ [] →
    later = [] ∧ (s.sessions i).isOpen = false
  surplus : ∀ i before sp later, (s.sessions i).spans = before ++ sp :: later → Surplus sp →
    later = [] ∧ (s.sessions i).isOpen = false

theorem Done.answered (h : Done s) : Answered s where
  inFlight := h.good.serving
  active := h.good.base.wired.active
  once := h.good.base.account.total
  resumed := by
    intro r
    have hok := h.good.base.account.request r
    rw [hok.resumes, hok.publishes]
    cases (s.requests r).iDone with
    | false => simp
    | true => simp
  own := by
    intro r hdone hfailed
    obtain ⟨i, _, sp, hsp, hr, hfrom⟩ := h.good.base.told r hdone hfailed
    refine ⟨i, sp, hsp, hr, ?_⟩
    rcases hfrom.cases with hfirst | hended
    · exact Or.inl hfirst
    · exact Or.inr ⟨hended, h.closed_of_ended hsp hr hdone hended⟩
  received := fun i => (h.good.base.sessions i).received
  early := by
    intro i hearly
    have hnil : (s.sessions i).spans = [] := by
      by_contra hne
      exact hearly ((h.good.base.sessions i).early hne)
    refine ⟨hnil, ?_⟩
    by_contra hne
    rcases h.open_cases (show (s.sessions i).isOpen = true by simpa using hne) with hidle | hawaits
    · exact hearly hidle.1
    · obtain ⟨r, _, bytes, hlast, _⟩ := hawaits
      rw [hnil] at hlast
      cases hlast
  after := by
    intro i before sp later hspans hafter
    apply h.last_of hspans
    · exact fun hexact => hafter hexact.1
    · intro r hserved hsp
      obtain ⟨bytes, hlast, _⟩ := hserved
      rw [hlast] at hsp
      obtain rfl := Option.some.inj hsp
      exact hafter rfl
  surplus := by
    intro i before sp later hspans hsurplus
    apply h.last_of hspans
    · exact fun hexact => hexact.not_surplus hsurplus
    · exact fun r hserved hlast => hserved.not_surplus hlast hsurplus

/-- **One result per request, from its own response.** After each call of the poll thread, in
whatever order they come and whatever the network answers: one request at most is in flight; an
awaited request has been published once when it waits nowhere; a success comes from the bytes of the
request's own response; and bytes that follow a whole response are of no later request. -/
theorem one_result {env : Env} {es : List Event} {s : Impl}
    (h : runFrom (step env) init es = some s) : Answered s :=
  (run_done h).answered

/-- The network answers everything at once. -/
def steady : Env where
  sHost := "h"
  iPort := 80
  bReuse := true
  hostEndpoint := "h:80"
  sends := fun _ => true
  resolve := fun _ => .done true "h:80"
  connect := fun _ => .connected

/-- Three requests. The second is sent on the session of the first; its response comes with the
begin of another one, which is not taken for the third, on a new session that the close ends. -/
def threeRequests : List Event :=
  [.await 0, .suspend 0, .await 1, .await 2, .enqueue 0, .enqueue 1, .enqueue 2,
    .dataIn 1 (ascii "HTTP/1.1 200 OK\r\nContent-Length: 2\r\n\r\na"), .dataIn 1 (ascii "b"),
    .dataIn 1 (ascii "HTTP/1.1 204 No\r\n\r\nHTTP/1.1 500 X"),
    .dataIn 2 (ascii "HTTP/1.1 200 OK\r\n\r\nxy"), .passiveClose 2]

theorem one_result_threeRequests : ∃ s, runFrom (step steady) init threeRequests = some s ∧
    Answered s ∧
    (s.requests 0).sBody = ascii "ab" ∧ (s.requests 0).resumes = 1 ∧
    (s.requests 1).iStatus = 204 ∧ (s.requests 1).bFailed = false ∧
    (s.requests 2).sBody = ascii "xy" ∧ (s.requests 2).bFailed = false ∧
    (s.sessions 1).sent = [0, 1] ∧ (s.sessions 2).sent = [2] := by
  have hrun : (runFrom (step steady) init threeRequests).map (fun s => decide (
      (s.requests 0).sBody = ascii "ab" ∧ (s.requests 0).resumes = 1 ∧
      (s.requests 1).iStatus = 204 ∧ (s.requests 1).bFailed = false ∧
      (s.requests 2).sBody = ascii "xy" ∧ (s.requests 2).bFailed = false ∧
      (s.sessions 1).sent = [0, 1] ∧ (s.sessions 2).sent = [2])) = some true := by
    decide +kernel
  obtain ⟨s, hs, hfacts⟩ := Option.map_eq_some_iff.1 hrun
  exact ⟨s, hs, one_result hs, of_decide_eq_true hfacts⟩

end OpenIdea.Http
