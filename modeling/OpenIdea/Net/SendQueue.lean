import OpenIdea.Base.Bytes
import OpenIdea.Lib.Runs

/-!
# The TCP send queue (oi_session.cpp, oi_tcp_channel.cpp)

Any thread appends messages to a session's output buffer under the session lock (`SendResult`). The
poll thread takes the buffer over into the channel's own one (`SwapOutBuff`), writes from its front
as much as the socket takes, erases what was written and lowers the session's count in a locked step
of its own (`OnBytesSent`). Between any two of these steps other threads may send, change the limit
or close the session. Every step keeps the bytes exact (`exact_step`); the main result is
`queue_exact`.
-/

set_option autoImplicit false

namespace OpenIdea.Net.SendQueue

open OpenIdea.Base OpenIdea.Lib.Runs

/-- What `SendResult` returns. -/
inductive Code where
  | OI_OK
  | OI_ERR_CONNECT
  | OI_ERR_BUSY
  deriving DecidableEq, Repr

/-- The send side of a `Session`, guarded by its lock. -/
structure Session where
  stOutputBuffer : Bytes
  iQueuedBytes : ℕ
  iMaxSendQueueBytes : ℕ
  bClosed : Bool

/-- `Session::SendResult`; `none` is `std::bad_alloc` from the append. -/
def Session.sendResult (s : Session) (stBytes : Bytes) (bMalloc : Bool) : Option (Code × Session) :=
  if s.bClosed then some (.OI_ERR_CONNECT, s)
  else if s.iQueuedBytes > s.iMaxSendQueueBytes ∨
      stBytes.size > s.iMaxSendQueueBytes - s.iQueuedBytes then some (.OI_ERR_BUSY, s)
  else
    (s.stOutputBuffer.append bMalloc stBytes).map fun stOutputBuffer =>
      (.OI_OK, { s with
        stOutputBuffer := stOutputBuffer
        iQueuedBytes := s.iQueuedBytes + stBytes.size })

/-- `Session::OnBytesSent`. -/
def Session.onBytesSent (s : Session) (iBytes : ℕ) : Session :=
  { s with iQueuedBytes := s.iQueuedBytes - iBytes }

/-- `Session::SwapOutBuff`: the session and the channel's buffer after it. -/
def Session.swapOutBuff (s : Session) (stOutputBufferLocal : Bytes) (bMalloc : Bool) :
    Option (Session × Bytes) :=
  if stOutputBufferLocal.size = 0 then
    let swapped := stOutputBufferLocal.swap s.stOutputBuffer
    some ({ s with stOutputBuffer := swapped.2.clear }, swapped.1)
  else
    (stOutputBufferLocal.append bMalloc s.stOutputBuffer).map fun stLocal =>
      ({ s with stOutputBuffer := s.stOutputBuffer.clear }, stLocal)

/-- Where the poll thread is in `TCP_Channel::DataOut`. -/
inductive Phase where
  /-- Outside of it. -/
  | idle
  /-- At the head of the loop. -/
  | loop
  /-- The socket has taken `n` bytes. -/
  | wrote (n : ℕ)
  /-- They are erased; `OnBytesSent` is to be called. -/
  | erased (n : ℕ)
  /-- At `write_finish`. -/
  | finish
  /-- The channel is gone. -/
  | destroyed
  deriving DecidableEq, Repr

/-- A connection: its session, the channel's buffer, the poll thread, what the socket was given and
which messages were accepted. -/
structure State where
  stSession : Session
  stOutputBuffer : Bytes
  phase : Phase
  written : List UInt8
  accepted : List (List UInt8)

def init : State where
  stSession :=
    { stOutputBuffer := .empty
      iQueuedBytes := 0
      iMaxSendQueueBytes := 64 * 1024 * 1024
      bClosed := false }
  stOutputBuffer := .empty
  phase := .idle
  written := []
  accepted := []

inductive Event where
  /-- A thread calls `SendResult`. -/
  | send (stBytes : Bytes) (bMalloc : Bool)
  | setSendQueueLimit (iBytes : ℕ)
  /-- A thread closes the session. -/
  | close
  /-- `DataOut` begins with `SwapOutBuff`. -/
  | dataOut (bMalloc : Bool)
  /-- `NetOs_Send` returns `n`. -/
  | socketTakes (n : ℕ)
  /-- `NetOs_Send` fails with `EINTR`. -/
  | socketInterrupted
  /-- `NetOs_Send` fails with `EAGAIN`. -/
  | socketFull
  /-- `NetOs_Send` fails otherwise; the session is closed. -/
  | socketFault
  | eraseWritten
  | onBytesSent
  /-- The loop ends with nothing left to write. -/
  | loopEnds
  /-- `write_finish`: `SendDrained`, which touches no buffer, and the return. -/
  | finish
  /-- `TryClose` destroys the channel of a closed session. -/
  | destroy

def step (s : State) : Event → Option State
  | .send stBytes bMalloc =>
      match s.stSession.sendResult stBytes bMalloc with
      -- the exception leaves the buffer and the count as they were
      | none => some s
      | some (.OI_OK, stSession) =>
          some { s with stSession := stSession, accepted := s.accepted ++ [stBytes.data] }
      | some (_, stSession) => some { s with stSession := stSession }
  | .setSendQueueLimit iBytes =>
      if iBytes ≤ SIZE_MAX then
        some { s with stSession := { s.stSession with iMaxSendQueueBytes := iBytes } }
      else none
  | .close => some { s with stSession := { s.stSession with bClosed := true } }
  | .dataOut bMalloc =>
      if s.phase = .idle then
        match s.stSession.swapOutBuff s.stOutputBuffer bMalloc with
        | none => some s
        | some (stSession, stOutputBuffer) =>
            some { s with stSession := stSession, stOutputBuffer := stOutputBuffer, phase := .loop }
      else none
  | .socketTakes n =>
      if s.phase = .loop ∧ 0 < n ∧ n ≤ s.stOutputBuffer.size then
        some { s with phase := .wrote n, written := s.written ++ s.stOutputBuffer.data.take n }
      else none
  | .socketInterrupted => if s.phase = .loop ∧ 0 < s.stOutputBuffer.size then some s else none
  | .socketFull =>
      if s.phase = .loop ∧ 0 < s.stOutputBuffer.size then some { s with phase := .finish } else none
  | .socketFault =>
      if s.phase = .loop ∧ 0 < s.stOutputBuffer.size then
        some { s with phase := .idle, stSession := { s.stSession with bClosed := true } }
      else none
  | .eraseWritten =>
      match s.phase with
      | .wrote n =>
          some { s with phase := .erased n, stOutputBuffer := s.stOutputBuffer.erase 0 n }
      | _ => none
  | .onBytesSent =>
      match s.phase with
      | .erased n => some { s with phase := .loop, stSession := s.stSession.onBytesSent n }
      | _ => none
  | .loopEnds =>
      if s.phase = .loop ∧ s.stOutputBuffer.size = 0 then some { s with phase := .finish } else none
  | .finish => if s.phase = .finish then some { s with phase := .idle } else none
  | .destroy =>
      if s.phase = .idle ∧ s.stSession.bClosed then some { s with phase := .destroyed } else none

/-! ## The operations on bytes -/

/-- **What `SendResult` does.** An accepted message stands at the end of the buffer and is counted,
within the limit; otherwise nothing changes. -/
theorem sendResult_cases {s s' : Session} {stBytes : Bytes} {bMalloc : Bool} {code : Code}
    (hsend : s.sendResult stBytes bMalloc = some (code, s')) :
    (code ≠ .OI_OK ∧ s' = s) ∨
      (code = .OI_OK ∧ s'.stOutputBuffer.data = s.stOutputBuffer.data ++ stBytes.data ∧
        s'.iQueuedBytes = s.iQueuedBytes + stBytes.size ∧
          s'.iMaxSendQueueBytes = s.iMaxSendQueueBytes ∧
            s'.iQueuedBytes ≤ s'.iMaxSendQueueBytes) := by
  rw [Session.sendResult] at hsend
  split at hsend
  · obtain ⟨rfl, rfl⟩ := Prod.mk.inj (Option.some.inj hsend)
    exact Or.inl ⟨by decide, rfl⟩
  · split at hsend
    · obtain ⟨rfl, rfl⟩ := Prod.mk.inj (Option.some.inj hsend)
      exact Or.inl ⟨by decide, rfl⟩
    · rename_i hroom
      obtain ⟨stOutputBuffer, happend, heq⟩ := Option.map_eq_some_iff.1 hsend
      obtain ⟨rfl, rfl⟩ := Prod.mk.inj heq
      refine Or.inr ⟨rfl, Bytes.data_append happend, rfl, rfl, ?_⟩
      show s.iQueuedBytes + stBytes.size ≤ s.iMaxSendQueueBytes
      omega

/-- **What `SwapOutBuff` does.** The session's bytes come behind the channel's, in both of its ways,
and nothing stays behind. -/
theorem swapOutBuff_spec {s s' : Session} {stLocal stLocal' : Bytes} {bMalloc : Bool}
    (hswap : s.swapOutBuff stLocal bMalloc = some (s', stLocal')) :
    stLocal'.data = stLocal.data ++ s.stOutputBuffer.data ∧ s'.stOutputBuffer.data = [] ∧
      s'.iQueuedBytes = s.iQueuedBytes ∧ s'.iMaxSendQueueBytes = s.iMaxSendQueueBytes := by
  rw [Session.swapOutBuff] at hswap
  split at hswap
  · rename_i hempty
    obtain ⟨rfl, rfl⟩ := Prod.mk.inj (Option.some.inj hswap)
    rw [Bytes.data_eq_nil.2 hempty]
    exact ⟨rfl, rfl, rfl, rfl⟩
  · obtain ⟨stLocal₁, happend, heq⟩ := Option.map_eq_some_iff.1 hswap
    obtain ⟨rfl, rfl⟩ := Prod.mk.inj heq
    exact ⟨Bytes.data_append happend, rfl, rfl, rfl⟩

/-! ## The invariant

The bytes accepted are those written, those in the channel and those in the session, in this order,
and the count is what has not been reported as sent. -/

/-- The bytes at the front of the channel's buffer that the socket already has. -/
def State.taken (s : State) : ℕ :=
  match s.phase with
  | .wrote n => n
  | _ => 0

/-- The bytes erased from the channel's buffer that `OnBytesSent` has not counted down. -/
def State.unreported (s : State) : ℕ :=
  match s.phase with
  | .erased n => n
  | _ => 0

/-- **The invariant.** What was accepted is what was written, then the rest of the channel's buffer,
then the session's; the count is that of both buffers and of the bytes about to be reported. -/
structure Exact (s : State) : Prop where
  bytes : s.accepted.flatten =
    s.written ++ (s.stOutputBuffer.data.drop s.taken ++ s.stSession.stOutputBuffer.data)
  taken_le : s.taken ≤ s.stOutputBuffer.size
  count : s.stSession.iQueuedBytes =
    s.stSession.stOutputBuffer.size + s.stOutputBuffer.size + s.unreported
  limit : s.stSession.iMaxSendQueueBytes ≤ SIZE_MAX
  range : s.stSession.iQueuedBytes ≤ SIZE_MAX

theorem exact_init : Exact init where
  bytes := rfl
  taken_le := le_refl _
  count := rfl
  limit := by decide
  range := by decide

variable {s : State}

theorem exact_send {stSession : Session} {stBytes : Bytes} (h : Exact s)
    (hdata : stSession.stOutputBuffer.data = s.stSession.stOutputBuffer.data ++ stBytes.data)
    (hcount : stSession.iQueuedBytes = s.stSession.iQueuedBytes + stBytes.size)
    (hlimit : stSession.iMaxSendQueueBytes = s.stSession.iMaxSendQueueBytes)
    (hroom : stSession.iQueuedBytes ≤ stSession.iMaxSendQueueBytes) :
    Exact { s with stSession := stSession, accepted := s.accepted ++ [stBytes.data] } where
  bytes := by
    show (s.accepted ++ [stBytes.data]).flatten =
      s.written ++ (s.stOutputBuffer.data.drop s.taken ++ stSession.stOutputBuffer.data)
    rw [List.flatten_append, h.bytes, hdata, List.flatten_singleton, List.append_assoc,
      List.append_assoc]
  taken_le := h.taken_le
  count := by
    have hold := h.count
    have hlen : stSession.stOutputBuffer.size =
        s.stSession.stOutputBuffer.size + stBytes.size := by
      rw [← Bytes.length_data, hdata, List.length_append, Bytes.length_data, Bytes.length_data]
    show stSession.iQueuedBytes =
      stSession.stOutputBuffer.size + s.stOutputBuffer.size + s.unreported
    omega
  limit := hlimit ▸ h.limit
  range := hroom.trans (hlimit ▸ h.limit)

theorem exact_swap {stSession : Session} {stLocal : Bytes} (h : Exact s) (hidle : s.phase = .idle)
    (hdata : stLocal.data = s.stOutputBuffer.data ++ s.stSession.stOutputBuffer.data)
    (hempty : stSession.stOutputBuffer.data = [])
    (hcount : stSession.iQueuedBytes = s.stSession.iQueuedBytes)
    (hlimit : stSession.iMaxSendQueueBytes = s.stSession.iMaxSendQueueBytes) :
    Exact { s with stSession := stSession, stOutputBuffer := stLocal, phase := .loop } where
  bytes := by
    show s.accepted.flatten = s.written ++ (stLocal.data.drop 0 ++ stSession.stOutputBuffer.data)
    have htaken : s.taken = 0 := by rw [State.taken, hidle]
    rw [h.bytes, htaken, hdata, hempty, List.drop_zero, List.drop_zero, List.append_nil]
  taken_le := Nat.zero_le _
  count := by
    have hold := h.count
    have hunreported : s.unreported = 0 := by rw [State.unreported, hidle]
    have hlen : stLocal.size = s.stOutputBuffer.size + s.stSession.stOutputBuffer.size := by
      rw [← Bytes.length_data, hdata, List.length_append, Bytes.length_data, Bytes.length_data]
    show stSession.iQueuedBytes = stSession.stOutputBuffer.size + stLocal.size + 0
    rw [← Bytes.length_data stSession.stOutputBuffer, hempty, List.length_nil]
    omega
  limit := hlimit ▸ h.limit
  range := hcount ▸ h.range

/-- A step of the poll thread that moves no byte. -/
theorem exact_phase {phase : Phase} (h : Exact s) (htaken : s.taken = 0)
    (hunreported : s.unreported = 0) (hphase : ({ s with phase := phase } : State).taken = 0 ∧
      ({ s with phase := phase } : State).unreported = 0) : Exact { s with phase := phase } where
  bytes := by
    have hold := h.bytes
    rw [htaken] at hold
    rw [hphase.1]
    exact hold
  taken_le := by
    rw [hphase.1]
    exact Nat.zero_le _
  count := by
    have hold := h.count
    rw [hunreported] at hold
    rw [hphase.2]
    exact hold
  limit := h.limit
  range := h.range

/-- The session's status is in no count. -/
theorem exact_close (h : Exact s) :
    Exact { s with stSession := { s.stSession with bClosed := true } } where
  bytes := h.bytes
  taken_le := h.taken_le
  count := h.count
  limit := h.limit
  range := h.range

theorem exact_step {s' : State} {e : Event} (h : Exact s) (hstep : step s e = some s') :
    Exact s' := by
  cases e with
  | send stBytes bMalloc =>
    rw [step] at hstep
    split at hstep
    · obtain rfl := Option.some.inj hstep
      exact h
    · rename_i stSession hsend
      obtain rfl := Option.some.inj hstep
      obtain ⟨hne, -⟩ | ⟨-, hdata, hcount, hlimit, hroom⟩ := sendResult_cases hsend
      · exact absurd rfl hne
      · exact exact_send h hdata hcount hlimit hroom
    · rename_i code stSession hcode hsend
      obtain rfl := Option.some.inj hstep
      obtain ⟨-, rfl⟩ | ⟨hok, -⟩ := sendResult_cases hsend
      · exact h
      · exact absurd hok hcode
  | setSendQueueLimit iBytes =>
    obtain ⟨hrange, rfl⟩ := of_guard hstep
    exact ⟨h.bytes, h.taken_le, h.count, hrange, h.range⟩
  | close =>
    obtain rfl := Option.some.inj hstep
    exact exact_close h
  | dataOut bMalloc =>
    obtain ⟨hidle, hstep⟩ := Option.ite_none_right_eq_some.1 hstep
    split at hstep
    · obtain rfl := Option.some.inj hstep
      exact h
    · rename_i stSession stLocal hswap
      obtain rfl := Option.some.inj hstep
      obtain ⟨hdata, hempty, hcount, hlimit⟩ := swapOutBuff_spec hswap
      exact exact_swap h hidle hdata hempty hcount hlimit
  | socketTakes n =>
    obtain ⟨hn, rfl⟩ := of_guard hstep
    have hold := h.bytes
    have hcount := h.count
    rw [State.taken, hn.1] at hold
    rw [State.unreported, hn.1] at hcount
    refine ⟨?_, hn.2.2, hcount, h.limit, h.range⟩
    show s.accepted.flatten = (s.written ++ s.stOutputBuffer.data.take n) ++
      (s.stOutputBuffer.data.drop n ++ s.stSession.stOutputBuffer.data)
    rw [hold, List.append_assoc, ← List.append_assoc (s.stOutputBuffer.data.take n),
      List.take_append_drop]
    rfl
  | socketInterrupted =>
    obtain ⟨_, rfl⟩ := of_guard hstep
    exact h
  | socketFull =>
    obtain ⟨hloop, rfl⟩ := of_guard hstep
    exact exact_phase h (by rw [State.taken, hloop.1]) (by rw [State.unreported, hloop.1])
      ⟨rfl, rfl⟩
  | socketFault =>
    obtain ⟨hloop, rfl⟩ := of_guard hstep
    have hidle : Exact { s with phase := .idle } := exact_phase h
      (by rw [State.taken, hloop.1]) (by rw [State.unreported, hloop.1]) ⟨rfl, rfl⟩
    exact exact_close hidle
  | eraseWritten =>
    rw [step] at hstep
    split at hstep
    · rename_i n hwrote
      obtain rfl := Option.some.inj hstep
      have hold := h.bytes
      have hcount := h.count
      have htaken := h.taken_le
      rw [State.taken, hwrote] at hold htaken
      rw [State.unreported, hwrote] at hcount
      dsimp only at hold htaken hcount
      refine ⟨?_, Nat.zero_le _, ?_, h.limit, h.range⟩
      · show s.accepted.flatten = s.written ++ ((s.stOutputBuffer.erase 0 n).data.drop 0 ++
          s.stSession.stOutputBuffer.data)
        rw [hold, Bytes.data_erase_front, List.drop_zero]
      · show s.stSession.iQueuedBytes =
          s.stSession.stOutputBuffer.size + (s.stOutputBuffer.erase 0 n).size + n
        rw [Bytes.size_erase_front]
        omega
    · cases hstep
  | onBytesSent =>
    rw [step] at hstep
    split at hstep
    · rename_i n herased
      obtain rfl := Option.some.inj hstep
      have hold := h.bytes
      have hcount := h.count
      rw [State.taken, herased] at hold
      rw [State.unreported, herased] at hcount
      dsimp only at hold hcount
      refine ⟨hold, Nat.zero_le _, ?_, h.limit, (Nat.sub_le _ _).trans h.range⟩
      show s.stSession.iQueuedBytes - n =
        s.stSession.stOutputBuffer.size + s.stOutputBuffer.size + 0
      omega
    · cases hstep
  | loopEnds =>
    obtain ⟨hloop, rfl⟩ := of_guard hstep
    exact exact_phase h (by rw [State.taken, hloop.1]) (by rw [State.unreported, hloop.1])
      ⟨rfl, rfl⟩
  | finish =>
    obtain ⟨hfinish, rfl⟩ := of_guard hstep
    exact exact_phase h (by rw [State.taken, hfinish]) (by rw [State.unreported, hfinish])
      ⟨rfl, rfl⟩
  | destroy =>
    obtain ⟨hidle, rfl⟩ := of_guard hstep
    exact exact_phase h (by rw [State.taken, hidle.1]) (by rw [State.unreported, hidle.1])
      ⟨rfl, rfl⟩

/-! ## Runs -/

/-- The bytes written whose erase or report is still to come. -/
def State.inReport (s : State) : ℕ := s.taken + s.unreported

/-- What the next `SendResult` does to the connection. -/
structure SendsWhole (s : State) : Prop where
  /-- An accepted message is the last of those accepted, and the count is within the limit. -/
  accepted : ∀ stBytes bMalloc stSession,
    s.stSession.sendResult stBytes bMalloc = some (.OI_OK, stSession) →
      step s (.send stBytes bMalloc) =
          some { s with stSession := stSession, accepted := s.accepted ++ [stBytes.data] } ∧
        stSession.iQueuedBytes ≤ stSession.iMaxSendQueueBytes
  /-- One that is not accepted changes nothing. -/
  refused : ∀ stBytes bMalloc,
    (∀ stSession, s.stSession.sendResult stBytes bMalloc ≠ some (.OI_OK, stSession)) →
      step s (.send stBytes bMalloc) = some s

theorem sendsWhole (s : State) : SendsWhole s where
  accepted := by
    intro stBytes bMalloc stSession hsend
    obtain ⟨hne, -⟩ | ⟨-, -, -, -, hroom⟩ := sendResult_cases hsend
    · exact absurd rfl hne
    · exact ⟨by rw [step, hsend], hroom⟩
  refused := by
    intro stBytes bMalloc hnot
    rw [step]
    cases hsend : s.stSession.sendResult stBytes bMalloc with
    | none => rfl
    | some result =>
      obtain ⟨code, stSession⟩ := result
      obtain ⟨hne, rfl⟩ | ⟨rfl, -⟩ := sendResult_cases hsend
      · cases code with
        | OI_OK => exact absurd rfl hne
        | OI_ERR_CONNECT => rfl
        | OI_ERR_BUSY => rfl
      · exact absurd hsend (hnot stSession)

/-- **The send queue is an exact byte queue.** In every state of every run the bytes written are a
prefix of the accepted messages, one after the other; the count is what was accepted and not yet
written, up to the write being reported, and is the size of the two buffers with the bytes about to
be counted down, so that `OnBytesSent` never takes more than it holds; an acceptance keeps within
the limit, and a send that is not accepted changes nothing. -/
theorem queue_exact {run : List Event} {s : State} (hrun : runFrom step init run = some s) :
    s.written <+: s.accepted.flatten ∧
      s.stSession.iQueuedBytes + s.written.length = s.accepted.flatten.length + s.inReport ∧
        s.stSession.iQueuedBytes =
          s.stSession.stOutputBuffer.size + s.stOutputBuffer.size + s.unreported ∧
          s.stSession.iQueuedBytes ≤ SIZE_MAX ∧ SendsWhole s := by
  have h : Exact s := runFrom_invariant (fun _ _ _ h hstep => exact_step h hstep) exact_init hrun
  refine ⟨⟨_, h.bytes.symm⟩, ?_, h.count, h.range, sendsWhole s⟩
  have hcount := h.count
  have htaken := h.taken_le
  rw [h.bytes, List.length_append, List.length_append, List.length_drop, Bytes.length_data,
    Bytes.length_data, State.inReport]
  omega

/-- Two bytes, in a block of their own. -/
def hello : Bytes where
  m_pMemory := [104, 105]
  m_iHead := 0
  m_iSize := 2
  inside := by decide
  block := by decide

/-- A message is sent, taken over and half written; a second one is sent before the first write is
reported. -/
def halfWritten : List Event :=
  [.send hello true, .dataOut true, .socketTakes 1, .eraseWritten, .send hello true]

theorem queue_exact_halfWritten :
    ∃ s, runFrom step init halfWritten = some s ∧
      (s.written <+: s.accepted.flatten ∧
        s.stSession.iQueuedBytes + s.written.length = s.accepted.flatten.length + s.inReport ∧
          s.stSession.iQueuedBytes =
            s.stSession.stOutputBuffer.size + s.stOutputBuffer.size + s.unreported ∧
            s.stSession.iQueuedBytes ≤ SIZE_MAX ∧ SendsWhole s) ∧
      s.written = [104] ∧ s.accepted = [[104, 105], [104, 105]] ∧ s.stSession.iQueuedBytes = 4 := by
  have hrun : (runFrom step init halfWritten).map (fun s =>
      decide (s.written = [104] ∧ s.accepted = [[104, 105], [104, 105]] ∧
        s.stSession.iQueuedBytes = 4)) = some true := by
    decide +kernel
  obtain ⟨s, hs, hfacts⟩ := Option.map_eq_some_iff.1 hrun
  exact ⟨s, hs, queue_exact hs, of_decide_eq_true hfacts⟩

end OpenIdea.Net.SendQueue
