import Mathlib.Data.List.Count
import Mathlib.Data.List.DropRight
import Mathlib.Data.List.Nodup
import OpenIdea.Lib.Runs

/-!
# Connecting (oi_session_manager.cpp, oi_connect_channel.cpp)

A client's `SessionManager` has at most one connect attempt pending. Attempts are numbered by
`iConnectGeneration`; who waits for the current one stands in `m_vConnectWaiters`. Resolver results
and connect results arrive later and carry the number of their attempt.

Everything here runs on the poll thread, but not one operation after the other: `OnAddSession`,
`OnConnectFailed`, `OnServiceDown` and `OnSessionClosed` are called in the middle of an operation
and may start others. The state has a stack: what an interrupted operation has still to do lies
below the callback that interrupted it. Every step keeps the invariant `Wf`, and a wait ends with
success only where its attempt was connected (`reasoned_step`); `connect_generations` is the result
about runs.
-/

set_option autoImplicit false

namespace OpenIdea.Net.Connect

open OpenIdea.Lib.Runs

/-- `ConnectWait`. -/
structure Wait where
  bDone : Bool
  bResult : Bool
  /-- Somebody holds the shared pointer, so that the weak one in the list still leads to it. -/
  alive : Bool
  /-- The attempt it was registered for. -/
  iGeneration : ℕ
  /-- How often `Finish` has been called. -/
  calls : ℕ
  deriving DecidableEq, Repr

/-- `ConnectWait::Finish`; the coroutines it wakes are scheduled, not run. -/
def Wait.finish (stWait : Wait) (bResult : Bool) : Wait :=
  if stWait.bDone then { stWait with calls := stWait.calls + 1 }
  else { stWait with bDone := true, bResult := bResult, calls := stWait.calls + 1 }

/-- A new one, with the awaiter that holds it. -/
def Wait.fresh : Wait := ⟨false, false, true, 0, 0⟩

/-- The callbacks of a manager, written by its users. -/
inductive Callback where
  | OnAddSession
  | OnConnectFailed
  | OnServiceDown
  | OnSessionClosed
  deriving DecidableEq, Repr

/-- What lies on the stack. -/
inductive Frame (E : Type) where
  /-- A callback is running. -/
  | callback (stCallback : Callback)
  /-- `CompleteConnect` after `AddSession`: the list taken out of the manager is finished. -/
  | finishConnected (vWaiters : List ℕ)
  /-- `OnResolved` after a failed `ConnectChannel::StartConnect`. -/
  | abort (iGeneration : ℕ)
  /-- `CloseEndpoint`: the sessions still to close. -/
  | closeSessions (vIds : List ℕ)
  /-- `ApplyService` of a name that has gone: `OnServiceDown`. -/
  | serviceDown
  /-- `ApplyService` of a new address: the connect to it. -/
  | reconnect (sEndpoint : E)

/-- The waiters in a frame's hands. -/
def Frame.waiters {E : Type} : Frame E → List ℕ
  | .finishConnected vWaiters => vWaiters
  | _ => []

/-- The manager. An address and a port are one value `E`, their text; `none` is the empty one. The
generation (a `uint64_t`) and the session id (an `int32_t`) are natural numbers: runs in which one
of them wraps are out of scope. -/
structure State (E : Type) where
  m_vConnectWaiters : List ℕ
  iConnectGeneration : ℕ
  bConnectPending : Bool
  bServiceDown : Bool
  bServiceSeen : Bool
  sServiceName : Option E
  /-- `sIpAddress` and `sPort`. -/
  sAddress : E
  sEndpoint : Option E
  mSessionMap : List (ℕ × E)
  iCurrentSessionId : ℕ
  /-- The waits are numbered as they are made. -/
  wait : ℕ → Wait
  waits : ℕ
  /-- The attempts that have installed a session. -/
  installed : List ℕ
  /-- The descriptors that `CompleteConnect` has closed. -/
  closed : List ℕ
  stack : List (Frame E)

/-- Before anybody has asked for the connection. -/
def init {E : Type} (sServiceName : Option E) (sAddress : E) : State E where
  m_vConnectWaiters := []
  iConnectGeneration := 0
  bConnectPending := false
  bServiceDown := false
  bServiceSeen := false
  sServiceName := sServiceName
  sAddress := sAddress
  sEndpoint := some sAddress
  mSessionMap := []
  iCurrentSessionId := 0
  wait := fun _ => ⟨false, false, false, 0, 0⟩
  waits := 0
  installed := []
  closed := []
  stack := []

variable {E : Type}

/-- `FinishConnectWaiters` on a list that has been moved out: each wait that is still there. -/
def finishAll (wait : ℕ → Wait) (bResult : Bool) : List ℕ → ℕ → Wait
  | [] => wait
  | w :: vWaiters =>
      finishAll
        (if (wait w).alive then Function.update wait w ((wait w).finish bResult) else wait)
        bResult vWaiters

/-- `FinishConnectWaiters`. -/
def State.finishConnectWaiters (s : State E) (bResult : Bool) : State E :=
  { s with
    wait := finishAll s.wait bResult s.m_vConnectWaiters
    m_vConnectWaiters := [] }

/-- `pWait->Finish`. -/
def State.finish (s : State E) (w : ℕ) (bResult : Bool) : State E :=
  { s with wait := Function.update s.wait w ((s.wait w).finish bResult) }

/-- A callback is entered. -/
def State.push (s : State E) (vFrames : List (Frame E)) : State E :=
  { s with stack := vFrames ++ s.stack }

/-- `CancelConnect`. -/
def State.cancelConnect (s : State E) : State E :=
  if !s.bConnectPending then s
  else
    { s.finishConnectWaiters false with
      iConnectGeneration := s.iConnectGeneration + 1
      bConnectPending := false }

/-- `AbortSession`. -/
def State.abortSession (s : State E) (iGeneration : ℕ) : State E :=
  if iGeneration ≠ s.iConnectGeneration ∨ !s.bConnectPending then s
  else
    { (s.finishConnectWaiters false).push [.callback .OnConnectFailed] with
      bConnectPending := false
      iCurrentSessionId := s.iCurrentSessionId + 1 }

/-- `CompleteConnect`. -/
def State.completeConnect (s : State E) (iDescriptor iGeneration : ℕ) : State E :=
  if iGeneration ≠ s.iConnectGeneration ∨ !s.bConnectPending ∨ s.bServiceDown then
    { s with closed := s.closed ++ [iDescriptor] }
  else
    { s.push [.callback .OnAddSession, .finishConnected s.m_vConnectWaiters] with
      m_vConnectWaiters := []
      bConnectPending := false
      iCurrentSessionId := s.iCurrentSessionId + 1
      mSessionMap := s.mSessionMap ++ [(s.iCurrentSessionId + 1, s.sAddress)]
      installed := s.installed ++ [iGeneration] }

/-- `CloseSession`. -/
def State.closeSession (s : State E) (iSessionId : ℕ) : State E :=
  if iSessionId ∈ s.mSessionMap.map Prod.fst then
    { s.push [.callback .OnSessionClosed] with
      mSessionMap := s.mSessionMap.filter fun stEntry => stEntry.1 ≠ iSessionId }
  else s

section Operations

variable [DecidableEq E]

/-- `HasEndpoint`. -/
def State.hasEndpoint (s : State E) (sEndpoint : E) : Bool :=
  s.mSessionMap.any fun stEntry => stEntry.2 = sEndpoint

/-- The sessions `CloseEndpoint` collects; none for the empty text. -/
def State.endpointIds (s : State E) (sEndpoint : Option E) : List ℕ :=
  match sEndpoint with
  | none => []
  | some sEndpoint =>
      (s.mSessionMap.filter fun stEntry => stEntry.2 = sEndpoint).map Prod.fst

/-- The registration of a wait, behind those that are still there. -/
def State.registerWait (s : State E) (w : ℕ) : State E :=
  { s with
    m_vConnectWaiters := s.m_vConnectWaiters.rdropWhile (fun v => !(s.wait v).alive) ++ [w]
    wait := Function.update s.wait w { s.wait w with
      iGeneration := if s.bConnectPending then s.iConnectGeneration else s.iConnectGeneration + 1 }
    iConnectGeneration :=
      if s.bConnectPending then s.iConnectGeneration else s.iConnectGeneration + 1
    bConnectPending := true }

/-- `StartConnect`; `NetAddr::Resolve`, its last call, calls back at once or later. -/
def State.startConnect (s : State E) (w : ℕ) (bStop : Bool) : State E :=
  if bStop || s.bServiceDown then s.finish w false
  else if !s.bConnectPending && s.hasEndpoint s.sAddress then s.finish w true
  else s.registerWait w

/-- A `ConnectWait` is made. -/
def State.newWait (s : State E) : State E :=
  { s with
    wait := Function.update s.wait s.waits Wait.fresh
    waits := s.waits + 1 }

/-- `StartClient` on the poll thread. -/
def State.startClient (s : State E) (bStop : Bool) : State E :=
  s.newWait.startConnect s.waits bStop

/-- How `ConnectChannel::StartConnect` ends. -/
inductive Outcome where
  /-- No socket. -/
  | notCreated
  /-- `EINPROGRESS`: a `ConnectChannel` waits. -/
  | inProgress
  /-- Connected at once. -/
  | connected (iDescriptor : ℕ)
  /-- `connect` fails. -/
  | refused
  deriving DecidableEq, Repr

/-- `ConnectResolver::OnResolved`. -/
def State.onResolved (s : State E) (iGeneration : ℕ) (bOk : Bool) (stAddr : E)
    (stOutcome : Outcome) : State E :=
  if iGeneration ≠ s.iConnectGeneration ∨ !s.bConnectPending then s
  else if s.bServiceDown || !bOk then s.abortSession iGeneration
  else
    let s := { s with sAddress := stAddr, sEndpoint := some stAddr }
    if s.hasEndpoint stAddr then
      { s.finishConnectWaiters true with bConnectPending := false }
    else
      match stOutcome with
      | .notCreated => s.abortSession iGeneration
      | .inProgress => s
      | .connected iDescriptor => s.completeConnect iDescriptor s.iConnectGeneration
      | .refused => (s.push [.abort iGeneration]).abortSession s.iConnectGeneration

/-- `ApplyService` on the poll thread, up to the first session it closes. -/
def State.applyService (s : State E) (stAddr : E) (bOnline : Bool) : State E :=
  if s.sServiceName.isNone then s
  else if !bOnline then
    if !s.bServiceSeen || s.bServiceDown then s
    else
      { (s.finishConnectWaiters false).push
          [.closeSessions (s.endpointIds s.sEndpoint), .serviceDown] with
        iConnectGeneration := s.iConnectGeneration + 1
        bConnectPending := false
        bServiceDown := true
        sEndpoint := none }
  else if !s.bServiceDown && s.sEndpoint = some stAddr then { s with bServiceSeen := true }
  else
    { (s.finishConnectWaiters false).push
        [.closeSessions (if s.sEndpoint = some stAddr then [] else s.endpointIds s.sEndpoint),
          .reconnect stAddr] with
      bServiceSeen := true
      iConnectGeneration := s.iConnectGeneration + 1
      bConnectPending := false
      bServiceDown := false
      sEndpoint := some stAddr
      sAddress := stAddr }

/-- What the loop or a callback may call. -/
inductive Op (E : Type) where
  | startClient (bStop : Bool)
  | resolved (iGeneration : ℕ) (bOk : Bool) (stAddr : E) (stOutcome : Outcome)
  /-- A `ConnectChannel` finds its socket connected. -/
  | connected (iDescriptor iGeneration : ℕ)
  /-- A `ConnectChannel` finds that the connect has failed. -/
  | failed (iGeneration : ℕ)
  | cancelConnect
  | applyService (stAddr : E) (bOnline : Bool)
  | closeSession (iSessionId : ℕ)
  deriving DecidableEq

def State.call (s : State E) : Op E → State E
  | .startClient bStop => s.startClient bStop
  | .resolved iGeneration bOk stAddr stOutcome => s.onResolved iGeneration bOk stAddr stOutcome
  | .connected iDescriptor iGeneration => s.completeConnect iDescriptor iGeneration
  | .failed iGeneration => s.abortSession iGeneration
  | .cancelConnect => s.cancelConnect
  | .applyService stAddr bOnline => s.applyService stAddr bOnline
  | .closeSession iSessionId => s.closeSession iSessionId

/-- An interrupted operation goes on; the frame is off the stack. -/
def State.resume (s : State E) (bStop : Bool) : Frame E → State E
  | .callback _ => s
  | .finishConnected vWaiters => { s with wait := finishAll s.wait true vWaiters }
  | .abort iGeneration => s.abortSession iGeneration
  | .closeSessions [] => s
  | .closeSessions (iSessionId :: vIds) => (s.push [.closeSessions vIds]).closeSession iSessionId
  | .serviceDown => s.push [.callback .OnServiceDown]
  | .reconnect sEndpoint => if s.hasEndpoint sEndpoint then s else s.startClient bStop

inductive Event (E : Type) where
  /-- From the loop, or from the callback that is running. -/
  | call (stOp : Op E)
  /-- The callback that is running returns, or the operation below it goes on. -/
  | resume (bStop : Bool)
  /-- The last shared pointer to a wait goes, on any thread. -/
  | drop (w : ℕ)
  /-- Another thread closes a session. -/
  | closed (iSessionId : ℕ)
  deriving DecidableEq

/-- The loop is idle, or a callback is running. -/
def State.callable (s : State E) : Bool :=
  match s.stack with
  | [] => true
  | .callback _ :: _ => true
  | _ => false

def step (s : State E) : Event E → Option (State E)
  | .call stOp => if s.callable then some (s.call stOp) else none
  | .resume bStop =>
      match s.stack with
      | [] => none
      | stFrame :: stack => some (({ s with stack := stack } : State E).resume bStop stFrame)
  | .drop w =>
      if w < s.waits then
        some { s with wait := Function.update s.wait w { s.wait w with alive := false } }
      else none
  | .closed iSessionId =>
      some { s with
        mSessionMap := s.mSessionMap.filter fun stEntry => stEntry.1 ≠ iSessionId }

end Operations

/-! ## Finishing a list

All waiters of a list get the same result, each one call of `Finish`. -/

@[simp] theorem Wait.finish_alive (stWait : Wait) (bResult : Bool) :
    (stWait.finish bResult).alive = stWait.alive := by
  unfold Wait.finish
  split <;> rfl

@[simp] theorem Wait.finish_iGeneration (stWait : Wait) (bResult : Bool) :
    (stWait.finish bResult).iGeneration = stWait.iGeneration := by
  unfold Wait.finish
  split <;> rfl

@[simp] theorem Wait.finish_calls (stWait : Wait) (bResult : Bool) :
    (stWait.finish bResult).calls = stWait.calls + 1 := by
  unfold Wait.finish
  split <;> rfl

@[simp] theorem Wait.finish_bDone (stWait : Wait) (bResult : Bool) :
    (stWait.finish bResult).bDone = true := by
  unfold Wait.finish
  split
  · assumption
  · rfl

/-- The first `Finish` sets the result. -/
theorem Wait.finish_bResult {stWait : Wait} (hdone : stWait.bDone = false) (bResult : Bool) :
    (stWait.finish bResult).bResult = bResult := by
  rw [Wait.finish, if_neg (by rw [hdone]; decide)]

/-- What finishing a list makes of one wait. -/
structure Finished (stWait stWait' : Wait) (bResult : Bool) (times : ℕ) : Prop where
  alive : stWait'.alive = stWait.alive
  iGeneration : stWait'.iGeneration = stWait.iGeneration
  calls : stWait'.calls = stWait.calls + if stWait.alive then times else 0
  bDone : stWait'.bDone = (stWait.bDone || (stWait.alive && decide (times ≠ 0)))
  bResult : stWait.bDone = false → stWait'.bDone = true → stWait'.bResult = bResult
  kept : stWait.bDone = true → stWait'.bResult = stWait.bResult

theorem finished_zero (stWait : Wait) (bResult : Bool) : Finished stWait stWait bResult 0 where
  alive := rfl
  iGeneration := rfl
  calls := by simp
  bDone := by simp
  bResult := fun hnot hdone => by rw [hnot] at hdone; cases hdone
  kept := fun _ => rfl

/-- **Each wait of the list that is still there is finished as often as it stands there.** -/
theorem finishAll_spec (vWaiters : List ℕ) (bResult : Bool) (w : ℕ) (wait : ℕ → Wait) :
    Finished (wait w) (finishAll wait bResult vWaiters w) bResult (vWaiters.count w) := by
  induction vWaiters generalizing wait with
  | nil => exact finished_zero _ _
  | cons v vWaiters ih =>
    rw [finishAll]
    have hrest := ih (if (wait v).alive then Function.update wait v ((wait v).finish bResult)
      else wait)
    by_cases hv : w = v
    · subst hv
      rw [List.count_cons_self]
      cases halive : (wait w).alive with
      | false =>
        rw [halive, if_neg (by decide)] at hrest
        rw [if_neg (by decide)]
        obtain ⟨h₁, h₂, h₃, h₄, h₅, h₆⟩ := hrest
        rw [halive] at h₃ h₄
        exact ⟨h₁, h₂, by rw [h₃, halive]; rfl, by rw [h₄, halive]; rfl, h₅, h₆⟩
      | true =>
        rw [halive, if_pos rfl, Function.update_self] at hrest
        rw [if_pos rfl]
        obtain ⟨h₁, h₂, h₃, h₄, -, h₆⟩ := hrest
        rw [Wait.finish_alive, halive] at h₃ h₄
        rw [Wait.finish_alive] at h₁
        rw [Wait.finish_iGeneration] at h₂
        rw [Wait.finish_calls, if_pos rfl] at h₃
        rw [Wait.finish_bDone] at h₄
        have hkept := h₆ (Wait.finish_bDone _ _)
        refine ⟨h₁, h₂, ?_, ?_, fun hnot _ => ?_, fun hdone => ?_⟩
        · rw [h₃, halive, if_pos rfl]
          omega
        · rw [h₄, halive]
          simp
        · rw [hkept, Wait.finish_bResult hnot]
        · rw [hkept, Wait.finish, if_pos hdone]
    · have hsame : (if (wait v).alive then Function.update wait v ((wait v).finish bResult)
          else wait) w = wait w := by
        split
        · exact Function.update_of_ne hv _ _
        · rfl
      rw [hsame] at hrest
      rw [List.count_cons_of_ne (Ne.symm hv)]
      exact hrest

/-! ## The invariant -/

/-- The waiters that interrupted operations hold. -/
def State.inFlight (s : State E) : List ℕ := s.stack.flatMap Frame.waiters

/-- The places of a wait: the manager's list, the list of an interrupted operation, or finished. -/
def State.places (s : State E) (w : ℕ) : ℕ :=
  s.m_vConnectWaiters.count w + s.inFlight.count w + (s.wait w).calls

/-- What holds of one wait. -/
structure WaitWf (s : State E) (w : ℕ) : Prop where
  /-- It is in one place at most, and in one while somebody holds it. -/
  place : s.places w ≤ 1
  somewhere : (s.wait w).alive = true → s.places w = 1
  bDone : (s.wait w).bDone = decide ((s.wait w).calls ≠ 0)

/-- **The invariant.** -/
structure Wf (s : State E) : Prop where
  idle : s.bConnectPending = false → s.m_vConnectWaiters = []
  down : s.bConnectPending = true → s.bServiceDown = false
  /-- The list belongs to the current attempt. -/
  current : ∀ w ∈ s.m_vConnectWaiters, (s.wait w).iGeneration = s.iConnectGeneration
  /-- The lists taken out belong to attempts that installed a session. -/
  connected : ∀ w ∈ s.inFlight, (s.wait w).iGeneration ∈ s.installed
  made : ∀ w ∈ s.m_vConnectWaiters ++ s.inFlight, w < s.waits
  waits : ∀ w < s.waits, WaitWf s w
  once : s.installed.Nodup
  past : ∀ iGeneration ∈ s.installed, iGeneration ≤ s.iConnectGeneration ∧
    (s.bConnectPending = true → iGeneration ≠ s.iConnectGeneration)

theorem wf_init (sServiceName : Option E) (sAddress : E) : Wf (init sServiceName sAddress) where
  idle := fun _ => rfl
  down := fun h => by cases h
  current := fun w hw => by cases hw
  connected := fun w hw => by cases hw
  made := fun w hw => by cases hw
  waits := fun w hw => absurd hw (Nat.not_lt_zero w)
  once := List.nodup_nil
  past := fun g hg => by cases hg

/-- The fields that the waits and the attempts are about. -/
structure SameConnect (s s' : State E) : Prop where
  m_vConnectWaiters : s'.m_vConnectWaiters = s.m_vConnectWaiters
  inFlight : s'.inFlight = s.inFlight
  wait : s'.wait = s.wait
  waits : s'.waits = s.waits
  iConnectGeneration : s'.iConnectGeneration = s.iConnectGeneration
  bConnectPending : s'.bConnectPending = s.bConnectPending
  bServiceDown : s'.bServiceDown = s.bServiceDown
  installed : s'.installed = s.installed

variable {s : State E}

variable {s' : State E}

theorem WaitWf.transfer {w : ℕ} (h : WaitWf s w) (hwait : s'.wait w = s.wait w)
    (hplace : s'.m_vConnectWaiters.count w + s'.inFlight.count w =
      s.m_vConnectWaiters.count w + s.inFlight.count w) : WaitWf s' w := by
  obtain ⟨h₁, h₂, h₃⟩ := h
  have hsame : s'.places w = s.places w := by
    rw [State.places, State.places, hwait, hplace]
  exact ⟨hsame ▸ h₁, fun halive => hsame ▸ h₂ (hwait ▸ halive), hwait ▸ h₃⟩

/-- **A step that concerns neither the waits nor the attempts.** -/
theorem Wf.same (h : Wf s) (hs : SameConnect s s') : Wf s' := by
  obtain ⟨h₁, h₂, h₃, h₄, h₅, h₆, h₇, h₈⟩ := hs
  refine ⟨?_, ?_, ?_, ?_, ?_, ?_, ?_, ?_⟩
  · rw [h₁, h₆]
    exact h.idle
  · rw [h₆, h₇]
    exact h.down
  · rw [h₁, h₃, h₅]
    exact h.current
  · rw [h₂, h₃, h₈]
    exact h.connected
  · rw [h₁, h₂, h₄]
    exact h.made
  · rw [h₄]
    exact fun w hw => (h.waits w hw).transfer (by rw [h₃]) (by rw [h₁, h₂])
  · rw [h₈]
    exact h.once
  · rw [h₈, h₅, h₆]
    exact h.past

/-- Frames without waiters come and go. -/
theorem inFlight_push (s : State E) {vFrames : List (Frame E)}
    (hnone : ∀ stFrame ∈ vFrames, stFrame.waiters = []) : (s.push vFrames).inFlight = s.inFlight := by
  show (vFrames ++ s.stack).flatMap Frame.waiters = s.inFlight
  rw [List.flatMap_append, List.flatMap_eq_nil_iff.2 hnone]
  rfl

/-! ## Finishing -/

/-- `FinishConnectWaiters`, and the attempt, if any, is no longer pending. The generation may move
on. -/
theorem wf_finishConnectWaiters (h : Wf s) (bResult : Bool) (hlist : s'.m_vConnectWaiters = [])
    (hwait : s'.wait = finishAll s.wait bResult s.m_vConnectWaiters) (hwaits : s'.waits = s.waits)
    (hflight : s'.inFlight = s.inFlight) (hpending : s'.bConnectPending = false)
    (hinstalled : s'.installed = s.installed)
    (hgeneration : s.iConnectGeneration ≤ s'.iConnectGeneration) : Wf s' := by
  have hspec : ∀ w, Finished (s.wait w) (s'.wait w) bResult (s.m_vConnectWaiters.count w) :=
    fun w => hwait ▸ finishAll_spec s.m_vConnectWaiters bResult w s.wait
  refine ⟨fun _ => hlist, fun hp => ?_, ?_, ?_, ?_, ?_, hinstalled ▸ h.once, ?_⟩
  · rw [hpending] at hp
    cases hp
  · rw [hlist]
    exact fun w hw => by cases hw
  · intro w hw
    rw [hflight] at hw
    rw [(hspec w).iGeneration, hinstalled]
    exact h.connected w hw
  · rw [hlist, hflight, hwaits]
    exact fun w hw => h.made w (List.mem_append_right _ hw)
  · intro w hw
    rw [hwaits] at hw
    obtain ⟨hplace, hsomewhere, hdone⟩ := h.waits w hw
    have hsame : s'.places w = s.inFlight.count w + (s'.wait w).calls := by
      rw [State.places, hlist, hflight, List.count_nil, Nat.zero_add]
    rw [State.places] at hplace hsomewhere
    have hcalls := (hspec w).calls
    refine ⟨?_, ?_, ?_⟩
    · rw [hsame, hcalls]
      split <;> omega
    · intro halive
      rw [(hspec w).alive] at halive
      rw [hsame, hcalls, halive, if_pos rfl]
      have hone := hsomewhere halive
      omega
    · rw [(hspec w).bDone, hcalls, hdone]
      cases (s.wait w).alive with
      | false => simp
      | true =>
        rw [if_pos rfl, Bool.true_and, ← Bool.decide_or]
        exact decide_eq_decide.2 (by omega)
  · intro g hg
    rw [hinstalled] at hg
    refine ⟨(h.past g hg).1.trans hgeneration, fun hp => ?_⟩
    rw [hpending] at hp
    cases hp

/-! ## The operations

An operation leaves the invariant behind at every callback it makes, since the callback may start
any other operation. -/

theorem wf_cancelConnect (h : Wf s) : Wf s.cancelConnect := by
  unfold State.cancelConnect
  split
  · exact h
  · exact wf_finishConnectWaiters h false rfl rfl rfl rfl rfl rfl (Nat.le_succ _)

theorem wf_abortSession (h : Wf s) (iGeneration : ℕ) : Wf (s.abortSession iGeneration) := by
  unfold State.abortSession
  split
  · exact h
  · exact wf_finishConnectWaiters h false rfl rfl rfl rfl rfl rfl (le_refl _)

/-- **An installed session.** The list moves from the manager to the interrupted operation. -/
theorem wf_completeConnect (h : Wf s) (iDescriptor iGeneration : ℕ) :
    Wf (s.completeConnect iDescriptor iGeneration) := by
  unfold State.completeConnect
  split
  · exact h.same ⟨rfl, rfl, rfl, rfl, rfl, rfl, rfl, rfl⟩
  · rename_i hcurrent
    rw [not_or, not_or, not_not] at hcurrent
    obtain ⟨rfl, hpending, -⟩ := hcurrent
    have hpending' : s.bConnectPending = true := by
      cases hp : s.bConnectPending with
      | false => exact absurd (by rw [hp]; rfl) hpending
      | true => rfl
    have hnew : s.iConnectGeneration ∉ s.installed := fun hg => (h.past _ hg).2 hpending' rfl
    refine ⟨fun _ => rfl, fun hp => (by cases hp), fun w hw => (by cases hw), ?_, ?_, ?_, ?_, ?_⟩
    · intro w (hw : w ∈ s.m_vConnectWaiters ++ s.inFlight)
      rcases List.mem_append.1 hw with hw | hw
      · exact List.mem_append_right _ (List.mem_singleton.2 (h.current w hw))
      · exact List.mem_append_left _ (h.connected w hw)
    · exact h.made
    · intro w hw
      refine (h.waits w hw).transfer rfl ?_
      show ([] : List ℕ).count w + (s.m_vConnectWaiters ++ s.inFlight).count w = _
      rw [List.count_nil, List.count_append, Nat.zero_add]
    · exact h.once.append (List.nodup_singleton _) (by
        rw [List.disjoint_singleton]
        exact hnew)
    · intro g hg
      refine ⟨?_, fun hp => (by cases hp)⟩
      rcases List.mem_append.1 hg with hg | hg
      · exact (h.past g hg).1
      · exact le_of_eq (List.mem_singleton.1 hg)

/-- A wait that is made and finished at once. -/
theorem wf_finishNew (h : Wf s) (bResult : Bool) : Wf (s.newWait.finish s.waits bResult) := by
  have hold : ∀ w < s.waits, (s.newWait.finish s.waits bResult).wait w = s.wait w := fun w hw => by
    show Function.update (Function.update s.wait s.waits _) s.waits _ w = s.wait w
    rw [Function.update_of_ne (ne_of_lt hw), Function.update_of_ne (ne_of_lt hw)]
  have hnew : (s.newWait.finish s.waits bResult).wait s.waits =
      Wait.fresh.finish bResult := by
    show Function.update (Function.update s.wait s.waits Wait.fresh) s.waits
      ((Function.update s.wait s.waits Wait.fresh s.waits).finish bResult) s.waits = _
    rw [Function.update_self, Function.update_self]
  refine ⟨h.idle, h.down, ?_, ?_, ?_, ?_, h.once, h.past⟩
  · intro w hw
    rw [hold w (h.made w (List.mem_append_left _ hw))]
    exact h.current w hw
  · intro w hw
    rw [hold w (h.made w (List.mem_append_right _ hw))]
    exact h.connected w hw
  · exact fun w hw => (h.made w hw).trans (Nat.lt_succ_self _)
  · intro w hw
    rcases Nat.lt_succ_iff_lt_or_eq.1 hw with hw | rfl
    · exact (h.waits w hw).transfer (hold w hw) rfl
    · have hone : (s.newWait.finish s.waits bResult).places s.waits = 1 := by
        have hout : s.waits ∉ s.m_vConnectWaiters ++ s.inFlight := fun hw =>
          lt_irrefl _ (h.made _ hw)
        rw [List.mem_append, not_or] at hout
        rw [State.places, hnew]
        show s.m_vConnectWaiters.count s.waits + s.inFlight.count s.waits + 1 = 1
        rw [List.count_eq_zero_of_not_mem hout.1, List.count_eq_zero_of_not_mem hout.2]
      refine ⟨le_of_eq hone, fun _ => hone, ?_⟩
      rw [hnew]
      rfl

/-- Dropping waits from the end of a list does not concern the others. -/
theorem count_rdropWhile {p : ℕ → Bool} {w : ℕ} (hw : p w = false) (l : List ℕ) :
    (l.rdropWhile p).count w = l.count w := by
  induction l using List.reverseRecOn with
  | nil => rfl
  | append_singleton l v ih =>
    rw [List.rdropWhile_concat]
    split
    · rename_i hv
      have hne : v ≠ w := fun heq => by rw [heq, hw] at hv; cases hv
      rw [ih, List.count_append, List.count_singleton, beq_false_of_ne hne]
      rfl
    · rfl

/-- **A wait that is made and registered**, for the pending attempt or for a new one. -/
theorem wf_registerNew (h : Wf s) (hdown : s.bServiceDown = false) :
    Wf (s.newWait.registerWait s.waits) := by
  have hold : ∀ w < s.waits, (s.newWait.registerWait s.waits).wait w = s.wait w := fun w hw => by
    show Function.update (Function.update s.wait s.waits _) s.waits _ w = s.wait w
    rw [Function.update_of_ne (ne_of_lt hw), Function.update_of_ne (ne_of_lt hw)]
  have hnew : (s.newWait.registerWait s.waits).wait s.waits = { Wait.fresh with
      iGeneration :=
        if s.bConnectPending then s.iConnectGeneration else s.iConnectGeneration + 1 } := by
    show Function.update (Function.update s.wait s.waits Wait.fresh) s.waits
      { Function.update s.wait s.waits Wait.fresh s.waits with
        iGeneration :=
          if s.bConnectPending then s.iConnectGeneration else s.iConnectGeneration + 1 }
      s.waits = _
    rw [Function.update_self, Function.update_self]
  have hsub : ∀ w ∈ s.m_vConnectWaiters.rdropWhile (fun v => !(s.newWait.wait v).alive),
      w ∈ s.m_vConnectWaiters := fun w hw => (List.rdropWhile_prefix _ _).subset hw
  have hout : s.waits ∉ s.m_vConnectWaiters ++ s.inFlight := fun hw => lt_irrefl _ (h.made _ hw)
  rw [List.mem_append, not_or] at hout
  refine ⟨fun hp => (by cases hp), fun _ => hdown, ?_, ?_, ?_, ?_, h.once, ?_⟩
  · intro w hw
    rcases List.mem_append.1 hw with hw | hw
    · have hmem := hsub w hw
      rw [hold w (h.made w (List.mem_append_left _ hmem)), h.current w hmem]
      show _ = if s.bConnectPending then s.iConnectGeneration else s.iConnectGeneration + 1
      cases hp : s.bConnectPending with
      | true => rfl
      | false =>
        rw [h.idle hp] at hmem
        cases hmem
    · rw [List.mem_singleton.1 hw, hnew]
      rfl
  · intro w hw
    rw [hold w (h.made w (List.mem_append_right _ hw))]
    exact h.connected w hw
  · intro w hw
    rcases List.mem_append.1 hw with hw | hw
    · rcases List.mem_append.1 hw with hw | hw
      · exact (h.made w (List.mem_append_left _ (hsub w hw))).trans (Nat.lt_succ_self _)
      · rw [List.mem_singleton.1 hw]
        exact Nat.lt_succ_self _
    · exact (h.made w (List.mem_append_right _ hw)).trans (Nat.lt_succ_self _)
  · intro w hw
    have hlist : (s.newWait.registerWait s.waits).m_vConnectWaiters =
        s.m_vConnectWaiters.rdropWhile (fun v => !(s.newWait.wait v).alive) ++ [s.waits] := rfl
    rcases Nat.lt_succ_iff_lt_or_eq.1 hw with hw | rfl
    · obtain ⟨hplace, hsomewhere, hdone⟩ := h.waits w hw
      have hcount : (s.newWait.registerWait s.waits).m_vConnectWaiters.count w =
          (s.m_vConnectWaiters.rdropWhile (fun v => !(s.newWait.wait v).alive)).count w := by
        rw [hlist, List.count_append, List.count_singleton, beq_false_of_ne (ne_of_gt hw)]
        rfl
      rw [State.places] at hplace hsomewhere
      refine ⟨?_, ?_, by rw [hold w hw, hdone]⟩
      · rw [State.places, hold w hw, hcount]
        have hle := ((List.rdropWhile_prefix (fun v => !(s.newWait.wait v).alive)
          s.m_vConnectWaiters).sublist).count_le w
        show _ + s.inFlight.count w + _ ≤ 1
        omega
      · intro halive
        rw [hold w hw] at halive
        have hkept : (!(s.newWait.wait w).alive) = false := by
          show (!(Function.update s.wait s.waits _ w).alive) = false
          rw [Function.update_of_ne (ne_of_lt hw), halive]
          rfl
        rw [State.places, hold w hw, hcount, count_rdropWhile hkept]
        exact hsomewhere halive
    · have hone : (s.newWait.registerWait s.waits).places s.waits = 1 := by
        have hnot : s.waits ∉
            s.m_vConnectWaiters.rdropWhile (fun v => !(s.newWait.wait v).alive) :=
          fun hw => hout.1 (hsub _ hw)
        rw [State.places, hnew, hlist, List.count_append, List.count_singleton_self,
          List.count_eq_zero_of_not_mem hnot]
        show 0 + 1 + s.inFlight.count s.waits + 0 = 1
        rw [List.count_eq_zero_of_not_mem hout.2]
      refine ⟨le_of_eq hone, fun _ => hone, ?_⟩
      rw [hnew]
      rfl
  · intro g hg
    obtain ⟨hle, hne⟩ := h.past g hg
    show g ≤ (if s.bConnectPending then s.iConnectGeneration else s.iConnectGeneration + 1) ∧
      (true = true → g ≠ if s.bConnectPending then s.iConnectGeneration
        else s.iConnectGeneration + 1)
    cases hp : s.bConnectPending with
    | true => exact ⟨hle, fun _ => hne hp⟩
    | false => exact ⟨hle.trans (Nat.le_succ _), fun _ => ne_of_lt (Nat.lt_succ_of_le hle)⟩

theorem wf_closeSession (h : Wf s) (iSessionId : ℕ) : Wf (s.closeSession iSessionId) := by
  unfold State.closeSession
  split
  · exact h.same ⟨rfl, inFlight_push s (by simp [Frame.waiters]), rfl, rfl, rfl, rfl, rfl, rfl⟩
  · exact h

theorem wf_push (h : Wf s) {vFrames : List (Frame E)}
    (hnone : ∀ stFrame ∈ vFrames, stFrame.waiters = []) : Wf (s.push vFrames) :=
  h.same ⟨rfl, inFlight_push s hnone, rfl, rfl, rfl, rfl, rfl, rfl⟩

section Operations

variable [DecidableEq E]

theorem wf_startClient (h : Wf s) (bStop : Bool) : Wf (s.startClient bStop) := by
  unfold State.startClient State.startConnect
  split
  · exact wf_finishNew h false
  · rename_i hgo
    split
    · exact wf_finishNew h true
    · refine wf_registerNew h ?_
      cases hdown : s.bServiceDown with
      | false => rfl
      | true =>
        refine absurd ?_ hgo
        show (bStop || s.bServiceDown) = true
        rw [hdown, Bool.or_true]

theorem wf_onResolved (h : Wf s) (iGeneration : ℕ) (bOk : Bool) (stAddr : E) (stOutcome : Outcome) :
    Wf (s.onResolved iGeneration bOk stAddr stOutcome) := by
  have haddr : Wf { s with sAddress := stAddr, sEndpoint := some stAddr } :=
    h.same ⟨rfl, rfl, rfl, rfl, rfl, rfl, rfl, rfl⟩
  unfold State.onResolved
  split
  · exact h
  · split
    · exact wf_abortSession h iGeneration
    · dsimp only
      split
      · exact wf_finishConnectWaiters h true rfl rfl rfl rfl rfl rfl (le_refl _)
      · split
        · exact wf_abortSession haddr iGeneration
        · exact haddr
        · exact wf_completeConnect haddr _ _
        · exact wf_abortSession (wf_push haddr (by simp [Frame.waiters])) _

theorem wf_applyService (h : Wf s) (stAddr : E) (bOnline : Bool) :
    Wf (s.applyService stAddr bOnline) := by
  unfold State.applyService
  split
  · exact h
  · split
    · split
      · exact h
      · exact wf_finishConnectWaiters h false rfl rfl rfl
          (inFlight_push s (by simp [Frame.waiters])) rfl rfl (Nat.le_succ _)
    · split
      · exact h.same ⟨rfl, rfl, rfl, rfl, rfl, rfl, rfl, rfl⟩
      · exact wf_finishConnectWaiters h false rfl rfl rfl
          (inFlight_push s (by simp [Frame.waiters])) rfl rfl (Nat.le_succ _)

theorem wf_call (h : Wf s) (stOp : Op E) : Wf (s.call stOp) := by
  cases stOp with
  | startClient bStop => exact wf_startClient h bStop
  | resolved iGeneration bOk stAddr stOutcome => exact wf_onResolved h _ _ _ _
  | connected iDescriptor iGeneration => exact wf_completeConnect h _ _
  | failed iGeneration => exact wf_abortSession h _
  | cancelConnect => exact wf_cancelConnect h
  | applyService stAddr bOnline => exact wf_applyService h _ _
  | closeSession iSessionId => exact wf_closeSession h _

omit [DecidableEq E] in
/-- `CompleteConnect` goes on after `OnAddSession`, whatever that has started. -/
theorem wf_finishConnected {vWaiters : List ℕ} {stack : List (Frame E)} (h : Wf s)
    (hstack : s.stack = .finishConnected vWaiters :: stack) :
    Wf { s with stack := stack, wait := finishAll s.wait true vWaiters } := by
  have hflight : s.inFlight = vWaiters ++ ({ s with stack := stack } : State E).inFlight := by
    show s.stack.flatMap Frame.waiters = _
    rw [hstack]
    rfl
  have hspec := fun w => finishAll_spec vWaiters true w s.wait
  refine ⟨h.idle, h.down, ?_, ?_, ?_, ?_, h.once, h.past⟩
  · intro w hw
    rw [(hspec w).iGeneration]
    exact h.current w hw
  · intro w hw
    rw [(hspec w).iGeneration]
    refine h.connected w ?_
    rw [hflight]
    exact List.mem_append_right _ hw
  · intro w hw
    refine h.made w ?_
    rw [hflight]
    rcases List.mem_append.1 hw with hw | hw
    · exact List.mem_append_left _ hw
    · exact List.mem_append_right _ (List.mem_append_right _ hw)
  · intro w hw
    obtain ⟨hplace, hsomewhere, hdone⟩ := h.waits w hw
    have hsame : ({ s with stack := stack, wait := finishAll s.wait true vWaiters } :
        State E).places w = s.m_vConnectWaiters.count w +
          ({ s with stack := stack } : State E).inFlight.count w +
            (finishAll s.wait true vWaiters w).calls := rfl
    rw [State.places, hflight, List.count_append] at hplace hsomewhere
    have hcalls := (hspec w).calls
    refine ⟨?_, ?_, ?_⟩
    · rw [hsame, hcalls]
      split <;> omega
    · intro halive
      have halive' : (finishAll s.wait true vWaiters w).alive = true := halive
      rw [(hspec w).alive] at halive'
      rw [hsame, hcalls, halive', if_pos rfl]
      have hone := hsomewhere halive'
      omega
    · show (finishAll s.wait true vWaiters w).bDone = _
      rw [(hspec w).bDone, hcalls, hdone]
      cases (s.wait w).alive with
      | false => simp
      | true =>
        rw [if_pos rfl, Bool.true_and, ← Bool.decide_or]
        exact decide_eq_decide.2 (by omega)

theorem wf_resume {stFrame : Frame E} {stack : List (Frame E)} (h : Wf s)
    (hstack : s.stack = stFrame :: stack) (bStop : Bool) :
    Wf (({ s with stack := stack } : State E).resume bStop stFrame) := by
  -- a frame without waiters can go
  have hpop : stFrame.waiters = [] → Wf { s with stack := stack } := fun hnone => by
    refine h.same ⟨rfl, ?_, rfl, rfl, rfl, rfl, rfl, rfl⟩
    show stack.flatMap Frame.waiters = s.stack.flatMap Frame.waiters
    rw [hstack, List.flatMap_cons, hnone]
    rfl
  cases stFrame with
  | callback stCallback => exact hpop rfl
  | finishConnected vWaiters => exact wf_finishConnected (s := s) h hstack
  | abort iGeneration => exact wf_abortSession (hpop rfl) _
  | closeSessions vIds =>
    cases vIds with
    | nil => exact hpop rfl
    | cons iSessionId vIds =>
      exact wf_closeSession (wf_push (hpop rfl) (by simp [Frame.waiters])) _
  | serviceDown => exact wf_push (hpop rfl) (by simp [Frame.waiters])
  | reconnect sEndpoint =>
    show Wf (if ({ s with stack := stack } : State E).hasEndpoint sEndpoint then _ else _)
    split
    · exact hpop rfl
    · exact wf_startClient (hpop rfl) bStop

omit [DecidableEq E] in
theorem wf_drop (h : Wf s) (w : ℕ) :
    Wf { s with wait := Function.update s.wait w { s.wait w with alive := false } } := by
  have hsame : ∀ v, (Function.update s.wait w { s.wait w with alive := false } v).iGeneration =
      (s.wait v).iGeneration ∧
      (Function.update s.wait w { s.wait w with alive := false } v).calls = (s.wait v).calls ∧
      (Function.update s.wait w { s.wait w with alive := false } v).bDone = (s.wait v).bDone ∧
      ((Function.update s.wait w { s.wait w with alive := false } v).alive = true →
        (s.wait v).alive = true) := by
    intro v
    by_cases hv : v = w
    · subst hv
      rw [Function.update_self]
      exact ⟨rfl, rfl, rfl, fun halive => by cases halive⟩
    · rw [Function.update_of_ne hv]
      exact ⟨rfl, rfl, rfl, id⟩
  refine ⟨h.idle, h.down, ?_, ?_, h.made, ?_, h.once, h.past⟩
  · intro v hv
    rw [(hsame v).1]
    exact h.current v hv
  · intro v hv
    rw [(hsame v).1]
    exact h.connected v hv
  · intro v hv
    obtain ⟨hplace, hsomewhere, hdone⟩ := h.waits v hv
    have hplaces : ({ s with
        wait := Function.update s.wait w { s.wait w with alive := false } } : State E).places v =
        s.places v := by
      show s.m_vConnectWaiters.count v + s.inFlight.count v + _ = _
      rw [(hsame v).2.1]
      rfl
    refine ⟨hplaces ▸ hplace, fun halive => hplaces ▸ hsomewhere ((hsame v).2.2.2 halive), ?_⟩
    rw [(hsame v).2.2.1, (hsame v).2.1]
    exact hdone

theorem wf_step {s' : State E} {e : Event E} (h : Wf s) (hstep : step s e = some s') : Wf s' := by
  cases e with
  | call stOp =>
    obtain ⟨_, rfl⟩ := of_guard hstep
    exact wf_call h stOp
  | resume bStop =>
    rw [step] at hstep
    split at hstep
    · cases hstep
    · rename_i stFrame stack hstack
      obtain rfl := Option.some.inj hstep
      exact wf_resume h hstack bStop
  | drop w =>
    obtain ⟨_, rfl⟩ := of_guard hstep
    exact wf_drop h w
  | closed iSessionId =>
    obtain rfl := Option.some.inj hstep
    exact h.same ⟨rfl, rfl, rfl, rfl, rfl, rfl, rfl, rfl⟩

end Operations

/-! ## Why a wait ends with success -/

section Operations

variable [DecidableEq E]

/-- A wait that a step ends with success was registered for an attempt that has installed a session,
or there is a session to the manager's address. -/
def Reasoned (s s' : State E) : Prop :=
  ∀ w, (s.wait w).bDone = false → (s'.wait w).bDone = true → (s'.wait w).bResult = true →
    (s'.wait w).iGeneration ∈ s'.installed ∨ s'.hasEndpoint s'.sAddress = true

variable {s' : State E}

theorem reasoned_of_wait_eq (hwait : s'.wait = s.wait) : Reasoned s s' := by
  intro w hnot hdone
  rw [hwait, hnot] at hdone
  cases hdone

/-- Only the waits of the state before matter. -/
theorem Reasoned.from {s₀ : State E} (h : Reasoned s s') (hwait : s.wait = s₀.wait) :
    Reasoned s₀ s' := by
  intro w hnot
  rw [← hwait] at hnot
  exact h w hnot

theorem reasoned_of_false (vWaiters : List ℕ) (hwait : s'.wait = finishAll s.wait false vWaiters) :
    Reasoned s s' := by
  intro w hnot hdone hresult
  have hspec := finishAll_spec vWaiters false w s.wait
  rw [hwait] at hdone hresult
  rw [hspec.bResult hnot hdone] at hresult
  cases hresult

theorem reasoned_cancelConnect (s : State E) : Reasoned s s.cancelConnect := by
  unfold State.cancelConnect
  split
  · exact reasoned_of_wait_eq rfl
  · exact reasoned_of_false s.m_vConnectWaiters rfl

theorem reasoned_abortSession (s : State E) (iGeneration : ℕ) :
    Reasoned s (s.abortSession iGeneration) := by
  unfold State.abortSession
  split
  · exact reasoned_of_wait_eq rfl
  · exact reasoned_of_false s.m_vConnectWaiters rfl

omit [DecidableEq E] in
theorem wait_completeConnect (s : State E) (iDescriptor iGeneration : ℕ) :
    (s.completeConnect iDescriptor iGeneration).wait = s.wait := by
  unfold State.completeConnect
  split
  · rfl
  · rfl

omit [DecidableEq E] in
theorem wait_closeSession (s : State E) (iSessionId : ℕ) :
    (s.closeSession iSessionId).wait = s.wait := by
  unfold State.closeSession
  split
  · rfl
  · rfl

theorem reasoned_startClient (s : State E) (bStop : Bool) : Reasoned s (s.startClient bStop) := by
  have hother : ∀ w, w ≠ s.waits → (s.startClient bStop).wait w = s.wait w := by
    intro w hw
    have hfresh : s.newWait.wait w = s.wait w := Function.update_of_ne hw _ _
    unfold State.startClient State.startConnect
    split
    · exact (Function.update_of_ne hw _ _).trans hfresh
    · split
      · exact (Function.update_of_ne hw _ _).trans hfresh
      · exact (Function.update_of_ne hw _ _).trans hfresh
  intro w hnot hdone hresult
  by_cases hw : w = s.waits
  · subst hw
    have hfresh : s.newWait.wait s.waits = Wait.fresh := Function.update_self _ _ _
    unfold State.startClient State.startConnect at hdone hresult ⊢
    split at hdone
    · rename_i hstop
      rw [if_pos hstop] at hresult
      have hfalse : ((s.newWait.finish s.waits false).wait s.waits).bResult = false := by
        show (Function.update s.newWait.wait s.waits
          ((s.newWait.wait s.waits).finish false) s.waits).bResult = false
        rw [Function.update_self, hfresh]
        rfl
      rw [hfalse] at hresult
      cases hresult
    · rename_i hgo
      rw [if_neg hgo]
      split at hdone
      · rename_i hthere
        rw [if_pos hthere]
        exact Or.inr ((Bool.and_eq_true _ _).mp hthere).2
      · have hopen : ((s.newWait.registerWait s.waits).wait s.waits).bDone = false := by
          show (Function.update s.newWait.wait s.waits { s.newWait.wait s.waits with
            iGeneration := if s.bConnectPending then s.iConnectGeneration
              else s.iConnectGeneration + 1 } s.waits).bDone = false
          rw [Function.update_self, hfresh]
          rfl
        rw [hopen] at hdone
        cases hdone
  · rw [hother w hw, hnot] at hdone
    cases hdone

theorem reasoned_onResolved (s : State E) (iGeneration : ℕ) (bOk : Bool) (stAddr : E)
    (stOutcome : Outcome) : Reasoned s (s.onResolved iGeneration bOk stAddr stOutcome) := by
  unfold State.onResolved
  split
  · exact reasoned_of_wait_eq rfl
  · split
    · exact reasoned_abortSession s _
    · dsimp only
      split
      · rename_i hthere
        exact fun _ _ _ _ => Or.inr hthere
      · split
        · exact (reasoned_abortSession _ _).from rfl
        · exact reasoned_of_wait_eq rfl
        · exact reasoned_of_wait_eq (wait_completeConnect _ _ _)
        · exact (reasoned_abortSession _ _).from rfl

theorem reasoned_applyService (s : State E) (stAddr : E) (bOnline : Bool) :
    Reasoned s (s.applyService stAddr bOnline) := by
  unfold State.applyService
  split
  · exact reasoned_of_wait_eq rfl
  · split
    · split
      · exact reasoned_of_wait_eq rfl
      · exact reasoned_of_false s.m_vConnectWaiters rfl
    · split
      · exact reasoned_of_wait_eq rfl
      · exact reasoned_of_false s.m_vConnectWaiters rfl

theorem reasoned_call (s : State E) (stOp : Op E) : Reasoned s (s.call stOp) := by
  cases stOp with
  | startClient bStop => exact reasoned_startClient s bStop
  | resolved iGeneration bOk stAddr stOutcome => exact reasoned_onResolved s _ _ _ _
  | connected iDescriptor iGeneration => exact reasoned_of_wait_eq (wait_completeConnect s _ _)
  | failed iGeneration => exact reasoned_abortSession s _
  | cancelConnect => exact reasoned_cancelConnect s
  | applyService stAddr bOnline => exact reasoned_applyService s _ _
  | closeSession iSessionId => exact reasoned_of_wait_eq (wait_closeSession s _)

theorem reasoned_resume {stFrame : Frame E} {stack : List (Frame E)} (h : Wf s)
    (hstack : s.stack = stFrame :: stack) (bStop : Bool) :
    Reasoned s (({ s with stack := stack } : State E).resume bStop stFrame) := by
  cases stFrame with
  | callback stCallback => exact reasoned_of_wait_eq rfl
  | finishConnected vWaiters =>
    intro w hnot hdone _
    have hspec := finishAll_spec vWaiters true w s.wait
    have hdone' : (finishAll s.wait true vWaiters w).bDone = true := hdone
    rw [hspec.bDone, hnot, Bool.false_or, Bool.and_eq_true, decide_eq_true_eq] at hdone'
    left
    show (finishAll s.wait true vWaiters w).iGeneration ∈ s.installed
    rw [hspec.iGeneration]
    refine h.connected w ?_
    show w ∈ s.stack.flatMap Frame.waiters
    rw [hstack, List.flatMap_cons]
    exact List.mem_append_left _ (List.count_pos_iff.1 (Nat.pos_of_ne_zero hdone'.2))
  | abort iGeneration => exact (reasoned_abortSession _ _).from rfl
  | closeSessions vIds =>
    cases vIds with
    | nil => exact reasoned_of_wait_eq rfl
    | cons iSessionId vIds => exact reasoned_of_wait_eq (wait_closeSession _ _)
  | serviceDown => exact reasoned_of_wait_eq rfl
  | reconnect sEndpoint =>
    show Reasoned s (if ({ s with stack := stack } : State E).hasEndpoint sEndpoint then _ else _)
    split
    · exact reasoned_of_wait_eq rfl
    · exact (reasoned_startClient _ bStop).from rfl

theorem reasoned_step {e : Event E} (h : Wf s) (hstep : step s e = some s') : Reasoned s s' := by
  cases e with
  | call stOp =>
    obtain ⟨_, rfl⟩ := of_guard hstep
    exact reasoned_call s stOp
  | resume bStop =>
    rw [step] at hstep
    split at hstep
    · cases hstep
    · rename_i stFrame stack hstack
      obtain rfl := Option.some.inj hstep
      exact reasoned_resume h hstack bStop
  | drop w =>
    obtain ⟨_, rfl⟩ := of_guard hstep
    intro v hnot hdone
    have hsame : (Function.update s.wait w { s.wait w with alive := false } v).bDone =
        (s.wait v).bDone := by
      by_cases hv : v = w
      · subst hv
        rw [Function.update_self]
      · rw [Function.update_of_ne hv]
    have hdone' : (Function.update s.wait w { s.wait w with alive := false } v).bDone = true :=
      hdone
    rw [hsame, hnot] at hdone'
    cases hdone'
  | closed iSessionId =>
    obtain rfl := Option.some.inj hstep
    exact reasoned_of_wait_eq rfl

/-! ## Runs -/

/-- **The waits of a state.** -/
structure WaitsKept (s : State E) : Prop where
  /-- A wait is finished once at most. -/
  once : ∀ w < s.waits, (s.wait w).calls ≤ 1 ∧ ((s.wait w).bDone = true ↔ (s.wait w).calls = 1)
  /-- One that is not finished, and that somebody holds, waits for the pending attempt, or is in the
  list that a connected one is finishing. -/
  waiting : ∀ w < s.waits, (s.wait w).alive = true → (s.wait w).bDone = false →
    (s.bConnectPending = true ∧ w ∈ s.m_vConnectWaiters ∧
      (s.wait w).iGeneration = s.iConnectGeneration) ∨
    ∃ vWaiters, Frame.finishConnected vWaiters ∈ s.stack ∧ w ∈ vWaiters
  /-- Without a pending attempt nobody is registered. -/
  none_left : s.bConnectPending = false → s.m_vConnectWaiters = []
  /-- Between two operations, without a pending attempt, every wait that is held is finished. -/
  settled : s.stack = [] → s.bConnectPending = false → ∀ w < s.waits,
    (s.wait w).alive = true → (s.wait w).calls = 1
  /-- No attempt has installed two sessions. -/
  installed : s.installed.Nodup

omit [DecidableEq E] in
theorem waitsKept_of_wf (h : Wf s) : WaitsKept s where
  once := by
    intro w hw
    obtain ⟨hplace, -, hdone⟩ := h.waits w hw
    rw [State.places] at hplace
    rw [hdone, decide_eq_true_eq]
    omega
  waiting := by
    intro w hw halive hnot
    obtain ⟨-, hsomewhere, hdone⟩ := h.waits w hw
    have hplace := hsomewhere halive
    rw [hnot, eq_comm, decide_eq_false_iff_not, not_not] at hdone
    rw [State.places, hdone] at hplace
    by_cases hlist : w ∈ s.m_vConnectWaiters
    · left
      refine ⟨?_, hlist, h.current w hlist⟩
      cases hp : s.bConnectPending with
      | true => rfl
      | false =>
        rw [h.idle hp] at hlist
        cases hlist
    · right
      rw [List.count_eq_zero_of_not_mem hlist] at hplace
      have hmem : w ∈ s.inFlight := List.count_pos_iff.1 (by omega)
      obtain ⟨stFrame, hframe, hw⟩ := List.mem_flatMap.1 hmem
      cases stFrame with
      | finishConnected vWaiters => exact ⟨vWaiters, hframe, hw⟩
      | callback _ | abort _ | closeSessions _ | serviceDown | reconnect _ => cases hw
  none_left := h.idle
  settled := by
    intro hstack hpending w hw halive
    have hplace := (h.waits w hw).somewhere halive
    rw [State.places, h.idle hpending, State.inFlight, hstack] at hplace
    simpa using hplace
  installed := h.once

/-- What belongs to another attempt than the pending one changes nothing; a descriptor it brings is
closed. -/
def IgnoresStale (s : State E) : Prop :=
  ∀ iGeneration, iGeneration ≠ s.iConnectGeneration ∨ s.bConnectPending = false →
    (∀ bOk stAddr stOutcome, s.call (.resolved iGeneration bOk stAddr stOutcome) = s) ∧
      (∀ iDescriptor, s.call (.connected iDescriptor iGeneration) =
        { s with closed := s.closed ++ [iDescriptor] }) ∧
        s.call (.failed iGeneration) = s

theorem ignoresStale (s : State E) : IgnoresStale s := by
  intro iGeneration hstale
  have hguard : iGeneration ≠ s.iConnectGeneration ∨ (!s.bConnectPending) = true :=
    hstale.imp_right fun hp => by rw [hp]; rfl
  refine ⟨fun bOk stAddr stOutcome => ?_, fun iDescriptor => ?_, ?_⟩
  · show s.onResolved iGeneration bOk stAddr stOutcome = s
    rw [State.onResolved, if_pos hguard]
  · show s.completeConnect iDescriptor iGeneration = _
    rw [State.completeConnect, if_pos]
    exact hguard.elim Or.inl fun hp => Or.inr (Or.inl hp)
  · show s.abortSession iGeneration = s
    rw [State.abortSession, if_pos hguard]

/-- Every wait that a step of the run ends with success has its reason. -/
def SucceedsConnected (s : State E) (run : List (Event E)) : Prop :=
  ∀ es e es' t t', run = es ++ e :: es' → runFrom step s es = some t → step t e = some t' →
    Reasoned t t'

/-- **Connect generations.** In every run of operations and callbacks: a wait is finished once at
most, and is finished, registered for the pending attempt or in the hands of the operation that
finishes it as long as somebody holds it; it ends with success only if its own attempt has installed
a session or the address was connected already; what belongs to another attempt than the pending one
changes nothing; and no attempt installs two sessions. -/
theorem connect_generations {sServiceName : Option E} {sAddress : E} {run : List (Event E)}
    {s : State E} (hrun : runFrom step (init sServiceName sAddress) run = some s) :
    WaitsKept s ∧ IgnoresStale s ∧ SucceedsConnected (init sServiceName sAddress) run := by
  have hwf : ∀ {es t}, runFrom step (init sServiceName sAddress) es = some t → Wf t :=
    fun ht => runFrom_invariant (fun _ _ _ h hstep => wf_step h hstep) (wf_init _ _) ht
  exact ⟨waitsKept_of_wf (hwf hrun), ignoresStale s,
    fun _ _ _ _ _ _ ht hstep => reasoned_step (hwf ht) hstep⟩

end Operations

/-- Two clients wait, and the attempt connects. In `OnAddSession` a third one finds the address
connected; a second connect of the same attempt arrives late and is closed. -/
def connectTwice : List (Event ℕ) :=
  [.call (.startClient false), .call (.startClient false), .call (.resolved 1 true 80 .inProgress),
    .call (.connected 7 1), .call (.startClient false), .resume false, .resume false,
    .call (.connected 8 1)]

theorem connect_generations_connectTwice :
    ∃ s, runFrom step (init none 80) connectTwice = some s ∧
      (WaitsKept s ∧ IgnoresStale s ∧ SucceedsConnected (init none 80) connectTwice) ∧
      s.installed = [1] ∧ s.closed = [8] ∧ ((s.wait 0).bResult, (s.wait 1).bResult) = (true, true) := by
  have hrun : (runFrom step (init none 80) connectTwice).map (fun s => decide (s.installed = [1] ∧
      s.closed = [8] ∧ ((s.wait 0).bResult, (s.wait 1).bResult) = (true, true))) = some true := by
    decide +kernel
  obtain ⟨s, hs, hfacts⟩ := Option.map_eq_some_iff.1 hrun
  exact ⟨s, hs, connect_generations hs, of_decide_eq_true hfacts⟩

end OpenIdea.Net.Connect
