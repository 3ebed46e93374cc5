import OpenIdea.Lib.Runs
import OpenIdea.Http.Response

/-!
# The HTTP client

`Client::Impl` is a session manager with one session of use: requests wait in a queue, one is in
flight on the session, and the next is sent when its response has ended. All of this happens on the
poll thread, in calls that call each other: the end of a response closes the session, the close ends
a response without a length and pumps the queue, and the pump connects, sends, or fails the next
request, each of which may close and pump again.

The functions are those of the source, in the order of its calls. Where they call `Pump` or
`CloseSession` they take the functions from `Calls`, and `calls` ties the knot: a level is a depth
of nested calls. `overrun` would say that the depth was not enough.

What the network answers at once comes from `Env`: whether a send is accepted, whether a name is
resolved without waiting, and what `connect` says. `pumpSend_eq` takes the choice of the next
request apart.
-/

set_option autoImplicit false

namespace OpenIdea.Http

open OpenIdea.Lib.Rounds

/-! ## The state -/

/-- `OI::Coro::Gate`. -/
inductive Gate where
  | idle
  | waiting
  | ready
  deriving DecidableEq, Repr

/-- `Call::Request`. -/
structure Request where
  iStatus : Nat
  sBody : List UInt8
  sError : Option Why
  iGate : Gate
  iDone : Bool
  bAwaitStarted : Bool
  bFailed : Bool
  /-- Ghost: the caller has exchanged the gate. -/
  suspended : Bool
  /-- Ghost: how often `Publish` has gone past `iDone`. -/
  publishes : Nat
  /-- Ghost: how often the caller was scheduled, or did not suspend. -/
  resumes : Nat
  deriving DecidableEq, Repr

def newRequest : Request where
  iStatus := 0
  sBody := []
  sError := none
  iGate := .idle
  iDone := false
  bAwaitStarted := false
  bFailed := false
  suspended := false
  publishes := 0
  resumes := 0

/-- Ghost: what has come on a session since a request began its response. -/
structure Span where
  request : Nat
  /-- The bytes that came while the response was awaited. -/
  bytes : List UInt8
  /-- The bytes that came after it. -/
  after : List UInt8
  deriving DecidableEq, Repr

/-- `HttpSession`. -/
structure HttpSession where
  /-- `iStatus` is `IO_ST_CONNECTED`. -/
  isOpen : Bool
  endpoint : String
  parser : Parser
  active : Bool
  /-- Ghost: the requests that were sent on the session. -/
  sent : List Nat
  /-- Ghost: all bytes that `OnDataIn` was given. -/
  received : List UInt8
  /-- Ghost: the bytes that came before any request. -/
  early : List UInt8
  /-- Ghost: the bytes that came since, by request. -/
  spans : List Span
  deriving DecidableEq, Repr

def newSession (endpoint : String) : HttpSession where
  isOpen := true
  endpoint := endpoint
  parser := beginResponse
  active := false
  sent := []
  received := []
  early := []
  spans := []

/-- `Client::Impl`, with its `SessionManager`, the sessions and the requests. A session is known by
its number, which it has for life. -/
structure Impl where
  queue : List Nat
  flight : Option Nat
  session : Option Nat
  sessionId : Option Nat
  connected : Bool
  connecting : Bool
  closed : Bool
  /-- `mSessionMap`. -/
  sessionMap : List Nat
  iConnectGeneration : Nat
  bConnectPending : Bool
  iCurrentSessionId : Nat
  /-- `NetAddr::Endpoint(sIpAddress, sPort)`. -/
  endpoint : String
  sessions : Nat → HttpSession
  requests : Nat → Request
  /-- Enqueued from another thread. -/
  posted : List Nat
  /-- `ThreadPool::StopRequested`. -/
  stopRequested : Bool
  /-- Ghost: how often the network was asked. -/
  tick : Nat
  /-- Ghost: nested calls were cut off. -/
  overrun : Bool

/-- What `NetAddr::Resolve` does. -/
inductive Resolve where
  /-- It calls back later. -/
  | later
  /-- It has called back with this result. -/
  | done (bOk : Bool) (endpoint : String)

/-- What `CreateSocket` and `connect` say. -/
inductive Connect where
  | noSocket
  | inProgress
  | connected
  | refused

/-- The client's own data, and the network's answers. -/
structure Env where
  sHost : String
  iPort : Int
  bReuse : Bool
  /-- `NetAddr::Endpoint(m_sHost, m_iPort)`. -/
  hostEndpoint : String
  sends : Nat → Bool
  resolve : Nat → Resolve
  connect : Nat → Connect

def init : Impl where
  queue := []
  flight := none
  session := none
  sessionId := none
  connected := false
  connecting := false
  closed := false
  sessionMap := []
  iConnectGeneration := 0
  bConnectPending := false
  iCurrentSessionId := 0
  endpoint := ""
  sessions := fun _ => { newSession "" with isOpen := false }
  requests := fun _ => newRequest
  posted := []
  stopRequested := false
  tick := 0
  overrun := false

def Impl.setSession (s : Impl) (i : Nat) (x : HttpSession) : Impl :=
  { s with sessions := Function.update s.sessions i x }

def Impl.setRequest (s : Impl) (r : Nat) (x : Request) : Impl :=
  { s with requests := Function.update s.requests r x }

/-- The functions that are called from below. -/
structure Calls where
  pump : Impl → Impl
  closeSession : Nat → Impl → Impl

/-! ## `HttpSession` -/

/-- `HttpSession::BeginResponse`. -/
def HttpSession.beginResponse (x : HttpSession) (r : Nat) : HttpSession :=
  { x with
    parser := Http.beginResponse, active := true
    spans := x.spans ++ [{ request := r, bytes := [], after := [] }] }

/-- `Abandon`, and what `Succeed` and `Fail` do to the session: the bytes are released. The other
fields are set by `BeginResponse` before they are read again. -/
def HttpSession.abandon (x : HttpSession) : HttpSession :=
  { x with parser := { x.parser with incoming := [] }, active := false }

/-- Ghost: bytes have come for the response that is awaited. -/
def HttpSession.note (x : HttpSession) (segment : List UInt8) : HttpSession :=
  let x := { x with received := x.received ++ segment }
  match x.spans.getLast? with
  | some sp => { x with spans := x.spans.dropLast ++ [{ sp with bytes := sp.bytes ++ segment }] }
  | none => x

/-- Ghost: bytes have come for nobody. -/
def HttpSession.noteIdle (x : HttpSession) (segment : List UInt8) : HttpSession :=
  let x := { x with received := x.received ++ segment }
  match x.spans.getLast? with
  | some sp => { x with spans := x.spans.dropLast ++ [{ sp with after := sp.after ++ segment }] }
  | none => { x with early := x.early ++ segment }

/-! ## `Client::Impl` -/

/-- `Publish`. -/
def publish (s : Impl) (r : Nat) (bFail : Bool) (why : Option Why) : Impl :=
  let x := s.requests r
  if x.iDone then s
  else
    s.setRequest r { x with
      iDone := true
      bFailed := bFail
      sError := if bFail ∧ x.sError = none then why else x.sError
      iGate := .ready
      publishes := x.publishes + 1
      resumes := if x.iGate = .waiting then x.resumes + 1 else x.resumes }

/-- `FailFront`. -/
def failFront (s : Impl) (why : Why) : Impl :=
  match s.queue with
  | [] => s
  | r :: rest => publish { s with queue := rest } r true (some why)

/-- `m_bConnected && m_pSession && !m_pSession->IsClosed()`. -/
def Impl.ready (s : Impl) : Option Nat :=
  match s.session with
  | some i => if s.connected ∧ (s.sessions i).isOpen = true then some i else none
  | none => none

/-- `CloseSession(m_iSessionId)`. -/
def closeOwn (k : Calls) (s : Impl) : Impl :=
  match s.sessionId with
  | some i => k.closeSession i s
  | none => s

/-- `OnHttpFinished`. -/
def onHttpFinished (env : Env) (k : Calls) (i : Nat) (f : Finish) (s : Impl) : Impl :=
  let s :=
    match s.flight with
    | some r =>
        if s.session = some i then
          let s := { s with flight := none }
          let x := { s.requests r with iStatus := f.status }
          let x := if f.bFail then x else { x with sBody := f.body }
          publish (s.setRequest r x) r f.bFail f.why
        else s
    | none => s
  let bDrop := f.bFail || f.bClose || !env.bReuse
  if bDrop = true ∧ s.session = some i ∧ (s.sessions i).isOpen = true then
    k.closeSession i (s.setSession i (s.sessions i).abandon)
  else if s.closed then s
  else k.pump s

/-- `OnIdleBytes`. -/
def onIdleBytes (k : Calls) (i : Nat) (s : Impl) : Impl :=
  if s.session = some i ∧ (s.sessions i).isOpen = true then k.closeSession i s else s

/-- `Succeed` and `Fail` of a session: its response is over. -/
def finishResponse (env : Env) (k : Calls) (i : Nat) (f : Finish) (s : Impl) : Impl :=
  onHttpFinished env k i f (s.setSession i (s.sessions i).abandon)

/-- `FinishEof` of a session. -/
def finishEofOf (env : Env) (k : Calls) (i : Nat) (s : Impl) : Impl :=
  let x := s.sessions i
  if x.active then finishResponse env k i (finishEof x.parser) s else s

/-- `OnDataIn` of a session that was given a segment. -/
def onDataInOf (env : Env) (k : Calls) (i : Nat) (segment : List UInt8) (s : Impl) : Impl :=
  let x := s.sessions i
  if x.active then
    let s := s.setSession i (x.note segment)
    match onDataIn x.parser segment with
    | .done f => finishResponse env k i f s
    | .go p => s.setSession i { s.sessions i with parser := p }
    | .more p => s.setSession i { s.sessions i with parser := p }
  else if segment = [] then s
  else onIdleBytes k i (s.setSession i (x.noteIdle segment))

/-- `OnDelSession`, and the end of `OnSessionClosed`. -/
def clearSession (i : Nat) (s : Impl) : Impl :=
  if s.session = some i then { s with session := none, connected := false, sessionId := none }
  else s

/-- `OnSessionClosed`. -/
def onSessionClosed (env : Env) (k : Calls) (i : Nat) (s : Impl) : Impl :=
  let s := if s.session = some i then clearSession i (finishEofOf env k i s) else s
  if s.closed then s else k.pump s

/-- `SessionManager::CloseSession`. -/
def closeSessionBody (env : Env) (k : Calls) (i : Nat) (s : Impl) : Impl :=
  if i ∈ s.sessionMap then
    let s := { s with sessionMap := s.sessionMap.erase i }
    onSessionClosed env k i (s.setSession i { s.sessions i with isOpen := false })
  else s

/-- `OnConnectFailed`. -/
def onConnectFailed (k : Calls) (s : Impl) : Impl :=
  let s := { s with connecting := false, connected := false, session := none, sessionId := none }
  if s.closed then s else k.pump (failFront s .connect)

/-- `OnAddSession`. -/
def onAddSession (k : Calls) (i : Nat) (s : Impl) : Impl :=
  let s := { s with session := some i, sessionId := some i, connected := true, connecting := false }
  if s.closed then closeOwn k s else k.pump s

/-! ## `SessionManager` -/

def hasEndpoint (s : Impl) (endpoint : String) : Bool :=
  s.sessionMap.any fun i => (s.sessions i).endpoint == endpoint

/-- `AddSession` of a new socket. -/
def addSession (k : Calls) (s : Impl) : Impl :=
  let i := s.iCurrentSessionId + 1
  let s := { s with iCurrentSessionId := i, sessionMap := i :: s.sessionMap }
  onAddSession k i (s.setSession i (newSession s.endpoint))

/-- `CompleteConnect`. -/
def completeConnect (k : Calls) (generation : Nat) (s : Impl) : Impl :=
  if generation ≠ s.iConnectGeneration ∨ s.bConnectPending = false then s
  else addSession k { s with bConnectPending := false }

/-- `AbortSession`. -/
def abortSession (k : Calls) (generation : Nat) (s : Impl) : Impl :=
  if generation ≠ s.iConnectGeneration ∨ s.bConnectPending = false then s
  else
    onConnectFailed k
      { s with bConnectPending := false, iCurrentSessionId := s.iCurrentSessionId + 1 }

/-- `ConnectResolver::OnResolved`. -/
def onResolved (env : Env) (k : Calls) (generation : Nat) (bOk : Bool) (endpoint : String)
    (s : Impl) : Impl :=
  if generation ≠ s.iConnectGeneration ∨ s.bConnectPending = false then s
  else if bOk = false then abortSession k generation s
  else
    let s := { s with endpoint := endpoint }
    if hasEndpoint s endpoint then { s with bConnectPending := false }
    else
      let answer := env.connect s.tick
      let s := { s with tick := s.tick + 1 }
      match answer with
      | .noSocket => abortSession k generation s
      | .inProgress => s
      | .connected => completeConnect k s.iConnectGeneration s
      -- `SocketConnect` gives up, and so does its caller
      | .refused => abortSession k generation (abortSession k s.iConnectGeneration s)

/-- `StartConnect`. -/
def startConnect (env : Env) (k : Calls) (s : Impl) : Impl :=
  if s.stopRequested then s
  else if s.bConnectPending = false ∧ hasEndpoint s s.endpoint = true then s
  else if s.bConnectPending then s
  else
    let generation := s.iConnectGeneration + 1
    let answer := env.resolve s.tick
    let s := { s with
      bConnectPending := true, iConnectGeneration := generation, tick := s.tick + 1 }
    match answer with
    | .later => s
    | .done bOk endpoint => onResolved env k generation bOk endpoint s

/-- `SendBytes`. -/
def sendBytes (env : Env) (i : Option Nat) (s : Impl) : Bool × Impl :=
  match i with
  | some i =>
      if i ∈ s.sessionMap ∧ (s.sessions i).isOpen = true then
        (env.sends s.tick, { s with tick := s.tick + 1 })
      else (false, s)
  | none => (false, s)

/-- `BeginConnect`. -/
def beginConnect (env : Env) (k : Calls) (s : Impl) : Impl :=
  startConnect env k { s with endpoint := env.hostEndpoint }

/-- The branch of `Pump` that sends the front of the queue on the session `i`. -/
def pumpSend (env : Env) (k : Calls) (i r : Nat) (rest : List Nat) (s : Impl) : Impl :=
  let s := { s with queue := rest, flight := some r }
  let s := s.setSession i ((s.sessions i).beginResponse r)
  match sendBytes env s.sessionId s with
  | (true, s) => s.setSession i { s.sessions i with sent := (s.sessions i).sent ++ [r] }
  | (false, s) =>
      let s := { s with flight := none }
      let s := s.setSession i (s.sessions i).abandon
      let s := publish s r true (some .send)
      match s.session with
      | some j => if (s.sessions j).isOpen then closeOwn k s else s
      | none => s

/-- The request has begun when its bytes are handed over. -/
theorem pumpSend_eq (env : Env) (k : Calls) (i r : Nat) (rest : List Nat) (s : Impl) :
    pumpSend env k i r rest s =
      match sendBytes env s.sessionId (({ s with queue := rest, flight := some r } :
          Impl).setSession i ((s.sessions i).beginResponse r)) with
      | (true, s) => s.setSession i { s.sessions i with sent := (s.sessions i).sent ++ [r] }
      | (false, s) =>
        let s := { s with flight := none }
        let s := s.setSession i (s.sessions i).abandon
        let s := publish s r true (some .send)
        match s.session with
        | some j => if (s.sessions j).isOpen then closeOwn k s else s
        | none => s := rfl

/-- `Pump`. -/
def pumpBody (env : Env) (k : Calls) (s : Impl) : Impl :=
  if s.closed ∨ s.flight.isSome = true then s
  else
    match s.queue with
    | [] => s
    | r :: rest =>
        match s.ready with
        | some i => pumpSend env k i r rest s
        | none =>
            if s.connecting then s else beginConnect env k { s with connecting := true }

/-- The functions, with at most so many calls in each other. -/
def calls (env : Env) : Nat → Calls
  | 0 =>
      { pump := fun s => { s with overrun := true }
        closeSession := fun _ s => { s with overrun := true } }
  | n + 1 =>
      { pump := pumpBody env (calls env n)
        closeSession := closeSessionBody env (calls env n) }

/-- Deep enough for the requests in the queue. -/
def Impl.calls (s : Impl) (env : Env) : Calls := Http.calls env (3 * s.queue.length + 3)

/-! ## What the poll thread is called with -/

/-- `OnTimeout`. -/
def onTimeout (k : Calls) (r : Nat) (s : Impl) : Impl :=
  if (s.requests r).iDone then s
  else if s.flight = some r then
    let s :=
      match s.session with
      | some i => s.setSession i (s.sessions i).abandon
      | none => s
    let s := publish { s with flight := none } r true (some .timeout)
    if (s.session.any fun i => (s.sessions i).isOpen) = true then closeOwn k s
    else if s.closed then s
    else k.pump s
  else if r ∈ s.queue then
    publish { s with queue := s.queue.erase r } r true (some .timeout)
  else s

/-- `EnqueueOnLoop`. -/
def enqueueOnLoop (env : Env) (r : Nat) (s : Impl) : Impl :=
  if s.closed then publish s r true (some .closed)
  else if env.iPort ≤ 0 ∨ 65535 < env.iPort ∨ env.sHost = "" then publish s r true (some .host)
  else
    let s := { s with queue := s.queue ++ [r] }
    (s.calls env).pump s

/-- `CancelConnect`. -/
def cancelConnect (s : Impl) : Impl :=
  if s.bConnectPending then
    { s with iConnectGeneration := s.iConnectGeneration + 1, bConnectPending := false }
  else s

/-- `CloseAllSessions`. -/
def closeAllSessions (k : Calls) (s : Impl) : Impl :=
  s.sessionMap.foldl (fun s i => k.closeSession i s) s

/-- `Shutdown`. -/
def shutdown (env : Env) (s : Impl) : Impl :=
  if s.closed then s
  else
    let s := { s with closed := true }
    let s :=
      match s.session with
      | some i => s.setSession i (s.sessions i).abandon
      | none => s
    let all := s.flight.toList ++ s.queue
    let s := { s with flight := none, queue := [] }
    let s := all.foldl (fun s r => publish s r true (some .closed)) s
    let s := cancelConnect s
    closeAllSessions (s.calls env) s

inductive Event where
  /-- `Call::await_suspend`, up to `Enqueue`. -/
  | await (r : Nat)
  /-- The poll thread runs an `EnqueueOnLoop`. -/
  | enqueue (r : Nat)
  /-- `Call::await_suspend`: the exchange of the gate. -/
  | suspend (r : Nat)
  /-- A session is given what was read from its socket. -/
  | dataIn (i : Nat) (segment : List UInt8)
  /-- `PassiveClose`: the remote side or an error closes a session. -/
  | passiveClose (i : Nat)
  /-- The channel of a closed session is destroyed: `OnClose`. -/
  | onClose (i : Nat)
  | timeout (r : Nat)
  /-- A name was resolved, or not. -/
  | resolved (generation : Nat) (bOk : Bool) (endpoint : String)
  /-- A connect channel is connected. -/
  | connected (generation : Nat)
  /-- A connect channel has failed. -/
  | connectFailed (generation : Nat)
  | shutdown
  /-- The process is told to stop. -/
  | requestStop
  deriving DecidableEq, Repr

def step (env : Env) (s : Impl) : Event → Option Impl
  | .await r =>
      let x := s.requests r
      -- a second await throws
      if x.bAwaitStarted then none
      else some { s.setRequest r { x with bAwaitStarted := true } with posted := s.posted ++ [r] }
  | .enqueue r =>
      if r ∈ s.posted then some (enqueueOnLoop env r { s with posted := s.posted.erase r })
      else none
  | .suspend r =>
      let x := s.requests r
      if x.bAwaitStarted = true ∧ x.suspended = false then
        some (s.setRequest r { x with
          suspended := true
          resumes := if x.iGate = .ready then x.resumes + 1 else x.resumes
          iGate := .waiting })
      else none
  | .dataIn i segment => some (onDataInOf env (s.calls env) i segment s)
  | .passiveClose i =>
      some ((s.calls env).closeSession i
        (s.setSession i { s.sessions i with isOpen := false }))
  | .onClose i =>
      if (s.sessions i).isOpen then none
      else some (clearSession i (finishEofOf env (s.calls env) i s))
  | .timeout r => some (onTimeout (s.calls env) r s)
  | .resolved generation bOk endpoint =>
      some (onResolved env (s.calls env) generation bOk endpoint s)
  | .connected generation => some (completeConnect (s.calls env) generation s)
  | .connectFailed generation => some (abortSession (s.calls env) generation s)
  | .shutdown => some (shutdown env s)
  | .requestStop => some { s with stopRequested := true }

end OpenIdea.Http
