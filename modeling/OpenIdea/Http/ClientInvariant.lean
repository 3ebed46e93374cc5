import OpenIdea.Http.Client
import OpenIdea.Http.Segments

/-!
# What holds of the HTTP client

Four things hold wherever one function of the client calls another: how the session, the connect
attempt and the flags belong together (`Wired`), where each request is (`Account`), what has come on
each session for which request (`SessionOk`), and where each result comes from (`Told`). A request
in flight waits for its response (`Serving`).

When a function returns to the poll thread, more holds: the request in flight is on an open session,
an open session without a request has nothing left over, and a queue that is not empty waits for
something (`Done`). A segment that comes is noted without harm to what has come before
(`SessionOk.note`, `SessionOk.noteIdle`).
-/

set_option autoImplicit false

namespace OpenIdea.Http

open OpenIdea.Lib.Runs OpenIdea.Lib.Rounds

/-! ## Updates of the state -/

@[simp] theorem setSession_self (s : Impl) (i : Nat) (x : HttpSession) :
    (s.setSession i x).sessions i = x := Function.update_self _ _ _

theorem setSession_ne (s : Impl) {i j : Nat} (x : HttpSession) (h : j ≠ i) :
    (s.setSession i x).sessions j = s.sessions j := Function.update_of_ne h _ _

theorem setSession_setSession (s : Impl) (i : Nat) (x y : HttpSession) :
    (s.setSession i x).setSession i y = s.setSession i y := by
  simp only [Impl.setSession, Function.update_idem]

@[simp] theorem setRequest_self (s : Impl) (r : Nat) (x : Request) :
    (s.setRequest r x).requests r = x := Function.update_self _ _ _

variable {r : Nat} {s s' : Impl} {x : HttpSession} {sp : Span}

theorem setRequest_ne (s : Impl) {q : Nat} (x : Request) (h : q ≠ r) :
    (s.setRequest r x).requests q = s.requests q := Function.update_of_ne h _ _

/-- What `Publish` does to a request that is not done. -/
def Request.published (x : Request) (bFail : Bool) (why : Option Why) : Request :=
  { x with
    iDone := true
    bFailed := bFail
    sError := if bFail ∧ x.sError = none then why else x.sError
    iGate := .ready
    publishes := x.publishes + 1
    resumes := if x.iGate = .waiting then x.resumes + 1 else x.resumes }

theorem publish_eq (h : (s.requests r).iDone = false) (bFail : Bool) (why : Option Why) :
    publish s r bFail why = s.setRequest r ((s.requests r).published bFail why) := by
  simp only [publish, h]
  rfl

/-! ## How things belong together -/

/-- **The session, the connect attempt and the flags.** -/
structure Wired (s : Impl) : Prop where
  depth : s.overrun = false
  opened : ∀ i, (s.sessions i).isOpen = true ↔ i ∈ s.sessionMap
  /-- Every session that is not closed is the session of use. -/
  one : ∀ i ∈ s.sessionMap, s.session = some i
  known : ∀ i, s.session = some i → i ≤ s.iCurrentSessionId
  nodup : s.sessionMap.Nodup
  connected : s.connected = s.session.isSome
  own : s.sessionId = s.session
  active : ∀ i, (s.sessions i).active = true → s.session = some i ∧ s.flight.isSome = true
  serving : ∀ r, s.flight = some r → ∃ i, s.session = some i ∧ (s.sessions i).active = true
  pending : s.bConnectPending = true →
    s.connecting = true ∧ s.closed = false ∧ s.sessionMap = []
  trying : s.stopRequested = false → s.closed = false → s.connecting = true →
    s.bConnectPending = true
  shut : s.closed = true → s.queue = [] ∧ s.flight = none

/-! ## Where each request is -/

/-- In how many places a request waits. -/
def Impl.holders (s : Impl) (r : Nat) : Nat :=
  s.posted.count r + s.queue.count r + if s.flight = some r then 1 else 0

/-- A request's own record. -/
structure RequestOk (x : Request) : Prop where
  publishes : x.publishes = if x.iDone then 1 else 0
  resumes : x.resumes = if x.iDone = true ∧ x.suspended = true then 1 else 0
  gate : x.iGate =
    if x.suspended then (if x.iDone then x.iGate else .waiting)
    else (if x.iDone then .ready else .idle)
  suspended : x.suspended = true → x.bAwaitStarted = true

/-- **An awaited request waits in one place, or it is published, once.** -/
structure Account (s : Impl) : Prop where
  request : ∀ r, RequestOk (s.requests r)
  total : ∀ r, s.holders r + (s.requests r).publishes =
    if (s.requests r).bAwaitStarted then 1 else 0

/-! ## What has come on a session -/

/-- The bytes of a span are a response, and nothing more came. -/
def Exact (sp : Span) : Prop :=
  sp.after = [] ∧ ∃ f, responses.work (beginResponse.append sp.bytes) = .done f ∧
    f.bFail = false ∧ f.bClose = false

/-- **A session's record.** Only the last response may be incomplete, failed or followed by more. -/
structure SessionOk (x : HttpSession) : Prop where
  isolated : ∀ sp ∈ x.spans.dropLast, Exact sp
  early : x.spans ≠ [] → x.early = []
  received : x.received = x.early ++ x.spans.flatMap fun sp => sp.bytes ++ sp.after

/-- Nothing is left over on a session without a request. -/
def Idle (x : HttpSession) : Prop :=
  x.early = [] ∧ ∀ sp, x.spans.getLast? = some sp → Exact sp

/-- The session waits for the rest of the response to a request. -/
def Awaits (r : Nat) (x : HttpSession) : Prop :=
  ∃ bytes, x.spans.getLast? = some { request := r, bytes := bytes, after := [] } ∧
    responses.work (beginResponse.append bytes) = .more x.parser

/-- The result of a request comes from its own span: from the bytes alone, or from their end. -/
def FromSpan (x : Request) (sp : Span) : Prop :=
  ∃ close f, closing close (responses.work (beginResponse.append sp.bytes)) = some f ∧
    f.bFail = false ∧ x.iStatus = f.status ∧ x.sBody = f.body

/-- **Where the results come from.** -/
def Told (s : Impl) : Prop :=
  ∀ r, (s.requests r).iDone = true → (s.requests r).bFailed = false →
    ∃ i ≤ s.iCurrentSessionId, ∃ sp ∈ (s.sessions i).spans,
      sp.request = r ∧ FromSpan (s.requests r) sp

/-! ## The invariants -/

/-- What holds wherever a function calls another. -/
structure Base (s : Impl) : Prop where
  wired : Wired s
  account : Account s
  sessions : ∀ i, SessionOk (s.sessions i)
  told : Told s

/-- The request in flight waits on the session of use. -/
def Serving (s : Impl) : Prop :=
  ∀ r, s.flight = some r → ∃ i, s.session = some i ∧ Awaits r (s.sessions i)

/-- The request in flight was sent on the session of use, which is open. -/
def Flying (s : Impl) : Prop :=
  ∀ r, s.flight = some r → ∃ i, s.session = some i ∧ (s.sessions i).isOpen = true ∧
    r ∈ (s.sessions i).sent

/-- An open session without a request has nothing left over. -/
def Clean (s : Impl) : Prop :=
  ∀ i, (s.sessions i).isOpen = true → (s.sessions i).active = false → Idle (s.sessions i)

/-- A queue that is not empty waits for something. -/
def Settled (s : Impl) : Prop := s.queue ≠ [] → s.flight.isSome = true ∨ s.connecting = true

/-- Where a function of the client may pump the queue. -/
structure Good (s : Impl) : Prop where
  base : Base s
  serving : Serving s
  flying : Flying s
  clean : Clean s

/-- **What holds when a function has returned.** -/
structure Done (s : Impl) : Prop where
  good : Good s
  settled : Settled s

/-- What a function leaves behind, as seen by its caller. -/
structure After (s s' : Impl) : Prop where
  queue : s'.queue.length ≤ s.queue.length
  known : s.iCurrentSessionId ≤ s'.iCurrentSessionId
  /-- A session that is closed stays so. -/
  closed : ∀ i ≤ s.iCurrentSessionId, (s'.sessions i).isOpen = true → (s.sessions i).isOpen = true

theorem After.refl (s : Impl) : After s s := ⟨Nat.le_refl _, Nat.le_refl _, fun _ _ h => h⟩

theorem After.trans {t u : Impl} (h : After s t) (h' : After t u) : After s u where
  queue := Nat.le_trans h'.queue h.queue
  known := Nat.le_trans h.known h'.known
  closed := fun i hi ho => h.closed i hi (h'.closed i (Nat.le_trans hi h.known) ho)

/-! ## The record of a request -/

theorem requestOk_new : RequestOk newRequest := by
  constructor <;> decide

theorem RequestOk.published {x : Request} (h : RequestOk x) (hdone : x.iDone = false) (bFail : Bool)
    (why : Option Why) : RequestOk (x.published bFail why) := by
  have hpub := h.publishes
  have hres := h.resumes
  have hgate := h.gate
  rw [hdone] at hpub hres hgate
  constructor
  · show x.publishes + 1 = 1
    rw [hpub]
    rfl
  · show (if x.iGate = .waiting then x.resumes + 1 else x.resumes) =
      if true = true ∧ x.suspended = true then 1 else 0
    have hzero : x.resumes = 0 := by simpa using hres
    cases hs : x.suspended with
    | false =>
      rw [hs] at hgate
      have hidle : x.iGate = .idle := hgate
      rw [hidle, hzero]
      rfl
    | true =>
      rw [hs] at hgate
      have hwait : x.iGate = .waiting := hgate
      rw [hwait, hzero]
      rfl
  · show Gate.ready = if x.suspended then (if true then Gate.ready else .waiting) else _
    cases x.suspended with
    | false => rfl
    | true => rfl
  · exact h.suspended

/-- The status and the body are no matter of the record. -/
theorem RequestOk.answer {x : Request} (h : RequestOk x) (status : Nat) (body : List UInt8) :
    RequestOk { x with iStatus := status, sBody := body } :=
  { h with }

/-! ## A request gets its result -/

theorem Account.started (h : Account s) (r : Nat) : s.holders r + (s.requests r).publishes ≤ 1 := by
  rw [h.total r]
  split
  · exact Nat.le_refl 1
  · exact Nat.zero_le 1

/-- A request that waits somewhere is not done. -/
theorem Account.waiting (h : Account s) (hr : 0 < s.holders r) : (s.requests r).iDone = false := by
  have hle := h.started r
  have hpub := (h.request r).publishes
  cases hd : (s.requests r).iDone with
  | false => rfl
  | true =>
    rw [hd, if_pos rfl] at hpub
    omega

theorem holders_pos_of_flight (h : s.flight = some r) : 0 < s.holders r := by
  rw [Impl.holders, if_pos h]
  omega

theorem holders_pos_of_queue (h : r ∈ s.queue) : 0 < s.holders r := by
  have hpos := List.count_pos_iff.2 h
  rw [Impl.holders]
  omega

theorem holders_pos_of_posted (h : r ∈ s.posted) : 0 < s.holders r := by
  have hpos := List.count_pos_iff.2 h
  rw [Impl.holders]
  omega

/-- A request leaves the place where it waits, and is published. -/
theorem Account.retire (h : Account s) {status : Nat} {body : List UInt8} {bFail : Bool}
    {why : Option Why} (hreq : s'.requests = Function.update s.requests r
      (({ s.requests r with iStatus := status, sBody := body } : Request).published bFail why))
    (hself : s.holders r = s'.holders r + 1) (hother : ∀ q, q ≠ r → s'.holders q = s.holders q) :
    Account s' := by
  have hdone : (s.requests r).iDone = false := h.waiting (by omega)
  constructor
  · intro q
    rw [hreq]
    by_cases hq : q = r
    · subst hq
      rw [Function.update_self]
      exact ((h.request q).answer status body).published hdone bFail why
    · rw [Function.update_of_ne hq]
      exact h.request q
  · intro q
    rw [hreq]
    by_cases hq : q = r
    · subst hq
      rw [Function.update_self]
      have ht := h.total q
      rw [hself] at ht
      show s'.holders q + ((s.requests q).publishes + 1) =
        if (s.requests q).bAwaitStarted then 1 else 0
      omega
    · rw [Function.update_of_ne hq, hother q hq]
      exact h.total q

/-- A step that leaves requests and their places alone. -/
theorem Account.congr (h : Account s) (hreq : s'.requests = s.requests)
    (hholders : ∀ r, s'.holders r = s.holders r) : Account s' := by
  constructor
  · intro r
    rw [hreq]
    exact h.request r
  · intro r
    rw [hreq, hholders]
    exact h.total r

/-- What a request has been told. -/
def Request.result (x : Request) : Bool × Bool × Nat × List UInt8 :=
  (x.iDone, x.bFailed, x.iStatus, x.sBody)

/-- Results stay where they come from, if no span of a request with a result changes. -/
theorem Told.keep (h : Told s) (hknown : s.iCurrentSessionId ≤ s'.iCurrentSessionId)
    (hreq : ∀ r, (s'.requests r).iDone = true → (s'.requests r).bFailed = false →
      (s'.requests r).result = (s.requests r).result)
    (hspans : ∀ i ≤ s.iCurrentSessionId, ∀ sp ∈ (s.sessions i).spans,
      (s.requests sp.request).iDone = true →
      ∃ sp' ∈ (s'.sessions i).spans, sp'.request = sp.request ∧ sp'.bytes = sp.bytes) :
    Told s' := by
  intro r hdone hfailed
  have he := hreq r hdone hfailed
  simp only [Request.result, Prod.mk.injEq] at he
  obtain ⟨hedone, hefailed, hestatus, hebody⟩ := he
  rw [hedone] at hdone
  rw [hefailed] at hfailed
  obtain ⟨i, hi, sp, hsp, hr, hfrom⟩ := h r hdone hfailed
  subst hr
  obtain ⟨sp', hsp', hr', hbytes⟩ := hspans i hi sp hsp hdone
  refine ⟨i, Nat.le_trans hi hknown, sp', hsp', hr', ?_⟩
  rw [FromSpan, hbytes, hestatus, hebody]
  exact hfrom

/-- The spans are the same. -/
theorem Told.congr (h : Told s) (hknown : s.iCurrentSessionId ≤ s'.iCurrentSessionId)
    (hreq : s'.requests = s.requests)
    (hspans : ∀ i ≤ s.iCurrentSessionId, (s'.sessions i).spans = (s.sessions i).spans) :
    Told s' := by
  apply h.keep hknown
  · intro r _ _
    rw [hreq]
  · intro i hi sp hsp _
    rw [hspans i hi]
    exact ⟨sp, hsp, rfl, rfl⟩

/-- A request is published: as a failure, or with what its span has. -/
theorem Told.retire (h : Told s) {status : Nat} {body : List UInt8} {bFail : Bool}
    {why : Option Why} (hknown : s'.iCurrentSessionId = s.iCurrentSessionId)
    (hreq : s'.requests = Function.update s.requests r
      (({ s.requests r with iStatus := status, sBody := body } : Request).published bFail why))
    (hspans : ∀ i, (s'.sessions i).spans = (s.sessions i).spans)
    (hfrom : bFail = false → ∃ i ≤ s.iCurrentSessionId, ∃ sp ∈ (s.sessions i).spans,
      sp.request = r ∧ ∃ close f,
        closing close (responses.work (beginResponse.append sp.bytes)) = some f ∧
          f.bFail = false ∧ status = f.status ∧ body = f.body) : Told s' := by
  intro q hdone hfailed
  by_cases hq : q = r
  · subst hq
    rw [hreq, Function.update_self] at hfailed ⊢
    obtain ⟨i, hi, sp, hsp, hr, hspan⟩ := hfrom hfailed
    rw [← hknown] at hi
    refine ⟨i, hi, sp, ?_, hr, hspan⟩
    rw [hspans]
    exact hsp
  · rw [hreq, Function.update_of_ne hq] at hdone hfailed ⊢
    obtain ⟨i, hi, sp, hsp, hrest⟩ := h q hdone hfailed
    rw [← hknown] at hi
    refine ⟨i, hi, sp, ?_, hrest⟩
    rw [hspans]
    exact hsp

/-- A failed request leaves the place where it waits. -/
theorem Base.fail {s s' : Impl} (h : Base s) {r : Nat} {why : Option Why}
    (hknown : s'.iCurrentSessionId = s.iCurrentSessionId)
    (hreq : s'.requests = Function.update s.requests r ((s.requests r).published true why))
    (hself : s.holders r = s'.holders r + 1) (hother : ∀ q, q ≠ r → s'.holders q = s.holders q)
    (hwired : Wired s') (hsessions : ∀ i, SessionOk (s'.sessions i))
    (hspans : ∀ i, (s'.sessions i).spans = (s.sessions i).spans) : Base s' where
  wired := hwired
  account := h.account.retire hreq hself hother
  sessions := hsessions
  told := h.told.retire hknown hreq hspans fun he => by cases he

/-! ## The records of a session -/

theorem sessionOk_new (endpoint : String) : SessionOk (newSession endpoint) := by
  constructor
  · intro sp hsp
    cases hsp
  · exact fun h => absurd rfl h
  · rfl

theorem idle_new (endpoint : String) : Idle (newSession endpoint) :=
  ⟨rfl, fun sp hsp => by cases hsp⟩

/-- A change of the session that is no matter of its spans. -/
theorem SessionOk.congr {y : HttpSession} (h : SessionOk x) (hspans : y.spans = x.spans)
    (hearly : y.early = x.early) (hreceived : y.received = x.received) : SessionOk y := by
  constructor
  · rw [hspans]
    exact h.isolated
  · rw [hspans, hearly]
    exact h.early
  · rw [hspans, hearly, hreceived]
    exact h.received

/-- A request begins its response on a session with nothing left over. -/
theorem SessionOk.beginResponse (h : SessionOk x) (hidle : Idle x) (r : Nat) :
    SessionOk (x.beginResponse r) := by
  constructor
  · have hspans : (x.beginResponse r).spans =
        x.spans ++ [{ request := r, bytes := [], after := [] }] := rfl
    rw [hspans, List.dropLast_concat]
    intro sp hsp
    -- the last one so far, or one of those before
    rcases List.eq_nil_or_concat x.spans with hnil | ⟨front, last, hlast⟩
    · rw [hnil] at hsp
      cases hsp
    · have hfront : x.spans.dropLast = front := by
        rw [hlast, List.concat_eq_append, List.dropLast_concat]
      rw [hlast, List.concat_eq_append] at hsp
      rcases List.mem_append.1 hsp with hin | hin
      · apply h.isolated
        rw [hfront]
        exact hin
      · obtain rfl := List.mem_singleton.1 hin
        apply hidle.2
        rw [hlast, List.concat_eq_append, List.getLast?_concat]
  · exact fun _ => hidle.1
  · show x.received = x.early ++ (x.spans ++ [_]).flatMap _
    rw [List.flatMap_append, h.received]
    simp

theorem beginResponse_awaits (x : HttpSession) (r : Nat) : Awaits r (x.beginResponse r) := by
  refine ⟨[], ?_, ?_⟩
  · show (x.spans ++ [_]).getLast? = _
    rw [List.getLast?_concat]
  · exact consume_begin

/-- Bytes of the response that is awaited. -/
theorem note_eq (h : x.spans.getLast? = some sp) (segment : List UInt8) : x.note segment = { x with
      received := x.received ++ segment
      spans := x.spans.dropLast ++ [{ sp with bytes := sp.bytes ++ segment }] } := by
  simp only [HttpSession.note, h]

theorem noteIdle_eq (h : x.spans.getLast? = some sp) (segment : List UInt8) :
    x.noteIdle segment = { x with
      received := x.received ++ segment
      spans := x.spans.dropLast ++ [{ sp with after := sp.after ++ segment }] } := by
  simp only [HttpSession.noteIdle, h]

/-- The last span is put in place of itself. -/
theorem spans_eq (h : x.spans.getLast? = some sp) : x.spans = x.spans.dropLast ++ [sp] := by
  rw [List.dropLast_append_getLast? sp h]

theorem SessionOk.note (h : SessionOk x) (hlast : x.spans.getLast? = some sp)
    (hafter : sp.after = []) (segment : List UInt8) : SessionOk (x.note segment) := by
  have hspans := spans_eq hlast
  rw [note_eq hlast]
  constructor
  · dsimp only
    rw [List.dropLast_concat]
    exact h.isolated
  · intro _
    apply h.early
    intro hnil
    rw [hnil] at hlast
    cases hlast
  · show x.received ++ segment = x.early ++ (x.spans.dropLast ++ [_]).flatMap _
    rw [h.received]
    conv_lhs => rw [hspans]
    simp [hafter]

theorem SessionOk.noteIdle (h : SessionOk x) (segment : List UInt8) :
    SessionOk (x.noteIdle segment) := by
  cases hlast : x.spans.getLast? with
  | none =>
    have hnil := List.getLast?_eq_none_iff.1 hlast
    have he : x.noteIdle segment =
        { x with received := x.received ++ segment, early := x.early ++ segment } := by
      simp only [HttpSession.noteIdle, hlast]
    rw [he]
    constructor
    · exact h.isolated
    · exact fun hne => absurd hnil hne
    · show x.received ++ segment = (x.early ++ segment) ++ x.spans.flatMap _
      rw [h.received, hnil]
      simp
  | some sp =>
    have hspans := spans_eq hlast
    rw [noteIdle_eq hlast]
    constructor
    · dsimp only
      rw [List.dropLast_concat]
      exact h.isolated
    · intro _
      apply h.early
      intro hnil
      rw [hnil] at hlast
      cases hlast
    · show x.received ++ segment = x.early ++ (x.spans.dropLast ++ [_]).flatMap _
      rw [h.received]
      conv_lhs => rw [hspans]
      simp

end OpenIdea.Http
