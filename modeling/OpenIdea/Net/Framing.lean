import OpenIdea.Codec.Payload

/-!
# TCP framing

The way of a byte stream from the socket to `DeliverRpc`: `TCP_Channel::DataIn` collects what `recv`
returns, `Session::SwapInBuff` hands it to the session, and `ProtoSession::OnDataIn` cuts frames out
of it; `ReadRegFrames` does the last step for the registry's sessions.

A read event is one call of `DataIn`; what `recv` answers to its calls is given as a list, and a
list that ends is a socket that has nothing more.  Allocations succeed here.  The main result is
`framing_exact`.
-/

set_option autoImplicit false

namespace OpenIdea.Net

open OpenIdea.Lib OpenIdea.Codec

/-! ## Configuration and state -/

/-- The limits of a session manager. -/
structure Limits where
  /-- `iMaxReceiveBufferBytes` -/
  receive : Nat
  /-- `iMaxFrameBytes` -/
  frame : Nat
  /-- `GetSessionType() == SESSION_TYPE_UDP` -/
  datagram : Bool

/-- The checks of `SessionManager::Init` on the receive limits, which are `int64_t` values. -/
def Limits.Accepted (c : Limits) : Prop :=
  8 ≤ c.frame ∧ c.frame ≤ 2 ^ 31 - 1 ∧ c.frame + 8 ≤ c.receive ∧ c.receive < 2 ^ 63

instance (c : Limits) : Decidable c.Accepted :=
  inferInstanceAs (Decidable (_ ∧ _ ∧ _ ∧ _))

/-- Why a session is closed from its input side. -/
inductive CloseReason
  | enobufs
  | emsgsize
  /-- `PARSER_ERR_OTHER` -/
  | parserOther
  /-- the peer closed the connection -/
  | peer
  /-- the `errno` of a failed `recv` -/
  | recv (errno : Int)
  deriving DecidableEq, Repr

/-- A `ProtoSession`: its receive buffer, its state, the start of its incomplete-frame timer, and
the calls of `DeliverRpc` it has made. -/
structure ProtoSession where
  input : List UInt8 := []
  closed : Option CloseReason := none
  timer : Option Nat := none
  delivered : List Rec := []
  deriving DecidableEq, Repr

namespace ProtoSession

/-- `PassiveClose`: the first reason stays. -/
def passiveClose (s : ProtoSession) (r : CloseReason) : ProtoSession :=
  { s with closed := some (s.closed.getD r) }

def cancelIncompleteTimer (s : ProtoSession) : ProtoSession := { s with timer := none }

/-- `ArmIncompleteTimer`: a timer that runs is left alone. -/
def armIncompleteTimer (s : ProtoSession) (now : Nat) : ProtoSession :=
  if s.timer.isSome ∨ s.closed.isSome then s else { s with timer := some now }

/-- `DeliverRpc`, which does not close the session. -/
def deliverRpc (s : ProtoSession) (id : Nat) (body : List UInt8) : ProtoSession :=
  { s with delivered := s.delivered ++ [(id, body)] }

/-- `ReceiveAllowance`. -/
def receiveAllowance (s : ProtoSession) (c : Limits) : Nat :=
  if s.input.length < c.receive then c.receive - s.input.length else 0

/-- The loop of `OnDataIn` over the stream that took the buffer. -/
def frameLoop (c : Limits) :
    Nat → BytesStream → ProtoSession → Except Fault (BytesStream × ProtoSession)
  | 0, os, s => if os.remainSize = 0 then .ok (os, s) else .error .endless
  | rounds + 1, os, s =>
      if os.remainSize = 0 then .ok (os, s)
      else do
        -- the declared size is looked at before the header is checked
        if 8 ≤ os.remainSize then
          let head ← os.curBytes 8
          if c.frame < LittleEndian.decode (head.drop 4) then
            return (os, if c.datagram then s else s.passiveClose .emsgsize)
        match ← os.startTransaction.preparePbHeader with
        | (.needMore, os) => return (os.rollBack, s)
        | (.bad, os) => return (os, if c.datagram then s else s.passiveClose .parserOther)
        | (.ok id size, os) =>
            let s := s.cancelIncompleteTimer
            let body ← os.curBytes size
            let os ← os.addCurPos size
            frameLoop c rounds os (s.deliverRpc id body)

/-- `OnDataIn` at time `now`. -/
def onDataIn (c : Limits) (now : Nat) (s : ProtoSession) : Except Fault ProtoSession := do
  let (os, s) ← frameLoop c s.input.length (.ofBytes s.input) { s with input := [] }
  let s := { s with input := os.buf.drop os.cur }
  if c.datagram then
    return { s with input := [] }
  else if s.closed.isSome then
    return { s.cancelIncompleteTimer with input := [] }
  else if s.input ≠ [] then
    return s.armIncompleteTimer now
  else
    return s.cancelIncompleteTimer

end ProtoSession

/-- What one call of `recv` answers. -/
inductive Recv
  /-- up to `n` bytes, as many as there are and as the buffer takes -/
  | got (n : Nat)
  /-- `EAGAIN` -/
  | again
  /-- `EINTR` -/
  | intr
  /-- 0: the peer has closed -/
  | closed
  /-- any other error -/
  | fault (errno : Int)
  deriving DecidableEq, Repr

/-- A connection: the bytes that are on their way or in the socket, the channel's buffer, and the
session. -/
structure Link where
  pending : List UInt8
  chan : List UInt8 := []
  session : ProtoSession := {}
  deriving DecidableEq, Repr

namespace Link

/-- `iItemIndexRoundMax`. -/
def roundMax : Nat := 4 * 1024 * 1024

def close (l : Link) (r : CloseReason) : Link := { l with session := l.session.passiveClose r }

/-- `SwapInBuff(stInputBuffer)`. -/
def swapInBuff (c : Limits) (now : Nat) (l : Link) : Except Fault Link :=
  if l.session.receiveAllowance c < l.chan.length then
    .ok ({ l with chan := [] }.close .enobufs)
  else do
    let s ← { l.session with input := l.session.input ++ l.chan }.onDataIn c now
    return { l with chan := [], session := s }

/-- The loop of `DataIn`; `round` counts the bytes of this call. -/
def dataInLoop (c : Limits) (now : Nat) : List Recv → Nat → Link → Except Fault Link
  | recvs, round, l =>
      if l.session.receiveAllowance c ≤ l.chan.length then do
        let l ← l.swapInBuff c now
        -- refuse only when the parser has made no room
        if l.session.closed.isNone ∧ l.session.receiveAllowance c = 0 then
          return l.close .enobufs
        return l
      else if roundMax ≤ round then l.swapInBuff c now
      else
        match recvs with
        | [] => l.swapInBuff c now
        | .again :: _ => l.swapInBuff c now
        | .intr :: recvs => dataInLoop c now recvs round l
        | .closed :: _ => do
            let l ← l.swapInBuff c now
            return l.close .peer
        | .fault e :: _ => do
            let l ← l.swapInBuff c now
            return l.close (.recv e)
        | .got n :: recvs =>
            let n := min (min n (min (l.session.receiveAllowance c - l.chan.length)
              (roundMax - round))) l.pending.length
            if n = 0 then l.swapInBuff c now
            else dataInLoop c now recvs (round + n)
              { l with pending := l.pending.drop n, chan := l.chan ++ l.pending.take n }

/-- One read event: `TCP_Channel::DataIn`.  A closed session is no longer polled. -/
def dataIn (c : Limits) (l : Link) (e : Nat × List Recv) : Except Fault Link :=
  if l.session.closed.isSome then .ok l else dataInLoop c e.1 e.2 0 l

end Link

/-! ## `ReadRegFrames` -/

/-- The loop of `ReadRegFrames`, with a callback that does not throw; the flag is `bClosedLocal`. -/
def regLoop : Nat → BytesStream → List Rec → Except Fault (BytesStream × List Rec × Bool)
  | 0, os, fs => if os.remainSize = 0 then .ok (os, fs, false) else .error .endless
  | rounds + 1, os, fs =>
      if os.remainSize = 0 then .ok (os, fs, false)
      else do
        match ← os.startTransaction.preparePbHeader with
        | (.needMore, os) => return (os.rollBack, fs, false)
        | (.bad, os) => return (os, fs, true)
        | (.ok id size, os) =>
            let body ← os.curBytes size
            let os ← os.addCurPos size
            regLoop rounds os (fs ++ [(id, body)])

/-- The frames reported so far and the input kept, after one more chunk and `ReadRegFrames`; a bad
header closes the session and drops the buffer. -/
def readRegFrames (st : List Rec × List UInt8) (chunk : List UInt8) :
    Except Fault (List Rec × List UInt8) := do
  let input := st.2 ++ chunk
  let (os, fs, closed) ← regLoop input.length (.ofBytes input) st.1
  return (fs, if closed then [] else os.buf.drop os.cur)

/-! ## Frames -/

/-- `EncodePbFrame(id, body)`; the id is an `int32_t` that is not negative here. -/
def encodePbFrame (r : Rec) : Except Fault (List UInt8) := writeChecked r.1 r.2

/-- Frames within the limits: what `EncodePbFrame` makes of them stands in the byte stream. -/
def FramesOk (c : Limits) (recs : List Rec) : Prop :=
  ∀ r ∈ recs, r.1 < 2 ^ 31 ∧ r.2.length ≤ c.frame

/-- The bytes `b` do not hold a whole frame of the frames still to come. -/
def Incomplete (b : List UInt8) : List Rec → Prop
  | [] => b = []
  | r :: _ => b.length < 8 + r.2.length

theorem Incomplete.nil (recs : List Rec) : Incomplete [] recs := by
  cases recs with
  | nil => rfl
  | cons r rs =>
    show 0 < 8 + r.2.length
    omega

/-- What a parser of the stream does: it takes some frames off and keeps an incomplete one. -/
def Cuts (recs : List Rec) (more : List UInt8) (got : List Rec) (left : List UInt8) : Prop :=
  ∃ j, got = recs.take j ∧ left ++ more = frame (recs.drop j) ∧ Incomplete left (recs.drop j)

theorem Cuts.none {b more : List UInt8} {recs : List Rec} (h : b ++ more = frame recs)
    (hb : Incomplete b recs) : Cuts recs more [] b := ⟨0, rfl, h, hb⟩

theorem Cuts.cons {r : Rec} {recs got : List Rec} {more left : List UInt8}
    (h : Cuts recs more got left) : Cuts (r :: recs) more (r :: got) left := by
  obtain ⟨j, rfl, h1, h2⟩ := h
  exact ⟨j + 1, rfl, h1, h2⟩

section Loops

variable {c : Limits} {recs : List Rec} {more : List UInt8}

theorem FramesOk.valid (hc : c.Accepted) (h : FramesOk c recs) {r : Rec} (hr : r ∈ recs) :
    r.1 < 2 ^ 31 ∧ r.2.length < 2 ^ 31 := by
  have := h r hr
  have := hc.2.1
  omega

variable {os : BytesStream}

/-- What both loops see at the front of the buffer. -/
theorem prepare_part (hos : os.InBounds) {r : Rec} (hr : r.1 < 2 ^ 31 ∧ r.2.length < 2 ^ 31)
    (h : os.rest ++ more = frame (r :: recs)) :
    os.startTransaction.preparePbHeader =
      if os.size - os.cur < 8 + r.2.length then .ok (.needMore, os.startTransaction)
      else .ok (.ok r.1 r.2.length, os.startTransaction.moved 8) := by
  have hst : os.startTransaction.InBounds := hos
  have hrest : os.startTransaction.rest = os.rest := rfl
  rw [BytesStream.preparePbHeader_eq hst, hrest, headerOf_part hr h, BytesStream.rest_length]
  split <;> rfl

theorem body_part {r : Rec} (h : os.rest ++ more = frame (r :: recs))
    (hlen : ¬ os.size - os.cur < 8 + r.2.length) :
    (os.startTransaction.moved 8).cur + r.2.length ≤ (os.startTransaction.moved 8).size ∧
      (os.startTransaction.moved 8).rest.take r.2.length = r.2 ∧
      ((os.startTransaction.moved 8).moved r.2.length).rest ++ more = frame recs := by
  have hlen' : ¬ os.rest.length < 8 + r.2.length := by
    rwa [BytesStream.rest_length]
  have hdrop : os.rest.drop 8 ++ more = r.2 ++ frame recs := by
    rw [← drop_frame, ← h, List.drop_append_of_le_length (by omega)]
  have hbody : os.rest.drop 8 = r.2 ++ (os.rest.drop 8).drop r.2.length := by
    have htake := congrArg (List.take r.2.length) hdrop
    rw [List.take_append_of_le_length (by rw [List.length_drop]; omega), List.take_left'
      rfl] at htake
    conv_lhs => rw [← List.take_append_drop r.2.length (os.rest.drop 8), htake]
  have hrest8 : (os.startTransaction.moved 8).rest = os.rest.drop 8 := by
    rw [BytesStream.rest_moved]
    rfl
  refine ⟨?_, ?_, ?_⟩
  · show os.cur + 8 + r.2.length ≤ os.size
    omega
  · rw [hrest8, hbody]
    simp
  · rw [BytesStream.rest_moved, hrest8]
    rw [hbody, List.append_assoc] at hdrop
    exact List.append_cancel_left hdrop

/-- Behind a part that is there the cursor is within bounds, and one round less is needed. -/
theorem after_part {n rounds : Nat} (hos : os.InBounds) (hlen : ¬ os.size - os.cur < 8 + n)
    (hrounds : os.size - os.cur ≤ rounds + 1) :
    ((os.startTransaction.moved 8).moved n).InBounds ∧ ((os.startTransaction.moved 8).moved n).size -
      ((os.startTransaction.moved 8).moved n).cur ≤ rounds := by
  refine ⟨⟨?_, hos.2⟩, ?_⟩
  · show os.cur + 8 + n ≤ os.size
    omega
  · show os.size - (os.cur + 8 + n) ≤ rounds
    omega

/-- **The loop of `OnDataIn` cuts the frames** and closes nothing. -/
theorem frameLoop_cuts (hc : c.Accepted) (hrecs : FramesOk c recs) (hos : os.InBounds)
    (h : os.rest ++ more = frame recs) {rounds : Nat} (hrounds : os.size - os.cur ≤ rounds)
    (s : ProtoSession) :
    ∃ os' s' got, s.frameLoop c rounds os = .ok (os', s') ∧ os'.buf = os.buf ∧
      Cuts recs more got os'.rest ∧ s'.delivered = s.delivered ++ got ∧
      s'.closed = s.closed := by
  induction recs generalizing os rounds s with
  | nil =>
    have hnil : os.rest = [] := (List.append_eq_nil_iff.1 h).1
    have hend : os.size - os.cur = 0 := by
      rw [← BytesStream.rest_length, hnil]
      rfl
    refine ⟨os, s, [], ?_, rfl, Cuts.none h hnil, by simp, rfl⟩
    cases rounds <;> simp [ProtoSession.frameLoop, hos.remainSize, hend]
  | cons r recs ih =>
    have hr := FramesOk.valid hc hrecs (List.mem_cons_self (a := r) (l := recs))
    by_cases hend : os.size - os.cur = 0
    · have hnil : os.rest = [] := List.length_eq_zero_iff.1 (by rw [BytesStream.rest_length, hend])
      refine ⟨os, s, [], ?_, rfl, Cuts.none h (by simp [Incomplete, hnil]), by simp, rfl⟩
      cases rounds <;> simp [ProtoSession.frameLoop, hos.remainSize, hend]
    · obtain ⟨rounds, rfl⟩ : ∃ k, rounds = k + 1 := ⟨rounds - 1, by omega⟩
      -- the declared size, if it is there, is within the limit
      have hlimit : 8 ≤ os.size - os.cur → ∃ head, os.curBytes 8 = .ok head ∧
          ¬ c.frame < LittleEndian.decode (head.drop 4) := by
        intro h8
        refine ⟨_, BytesStream.curBytes_ok (by omega), ?_⟩
        rw [decode_size_frame hr.2 h (by rw [BytesStream.rest_length]; exact h8)]
        have := (hrecs r (by simp)).2
        omega
      have hprep := prepare_part hos hr h
      have hunfold : s.frameLoop c (rounds + 1) os =
          (match os.startTransaction.preparePbHeader with
            | .ok (.needMore, os) => .ok (os.rollBack, s)
            | .ok (.bad, os) => .ok (os, if c.datagram then s else s.passiveClose .parserOther)
            | .ok (.ok id size, os) => do
                let body ← os.curBytes size
                let os ← os.addCurPos size
                (s.cancelIncompleteTimer.deliverRpc id body).frameLoop c rounds os
            | .error e => .error e) := by
        simp only [ProtoSession.frameLoop, hos.remainSize, if_neg hend]
        by_cases h8 : 8 ≤ os.size - os.cur
        · obtain ⟨head, hhead, hle⟩ := hlimit h8
          simp only [if_pos h8, hhead, if_neg hle, ok_bind, hprep]
          by_cases hshort : os.size - os.cur < 8 + r.2.length
          · simp only [if_pos hshort]
            rfl
          · simp only [if_neg hshort]
            rfl
        · simp only [if_neg h8, hprep]
          by_cases hshort : os.size - os.cur < 8 + r.2.length
          · simp only [if_pos hshort]
            rfl
          · simp only [if_neg hshort]
            rfl
      rw [hunfold, hprep]
      by_cases hshort : os.size - os.cur < 8 + r.2.length
      · rw [if_pos hshort]
        refine ⟨os.startTransaction.rollBack, s, [], rfl, rfl, Cuts.none h ?_, by simp, rfl⟩
        show os.rest.length < 8 + r.2.length
        rwa [BytesStream.rest_length]
      · obtain ⟨hin, hbody, hmore⟩ := body_part h hshort
        rw [if_neg hshort]
        obtain ⟨hos', hfew⟩ := after_part hos hshort hrounds
        obtain ⟨os', s', got, h1, h2, h3, h4, h5⟩ :=
          ih (fun x hx => hrecs x (by simp [hx])) hos' hmore hfew
            (s.cancelIncompleteTimer.deliverRpc r.1 r.2)
        refine ⟨os', s', r :: got, ?_, h2, h3.cons, ?_, h5⟩
        · simp only [BytesStream.curBytes_ok hin, BytesStream.addCurPos_ok hin, hbody, ok_bind]
          exact h1
        · rw [h4]
          simp [ProtoSession.deliverRpc, ProtoSession.cancelIncompleteTimer]

/-- **The loop of `ReadRegFrames` cuts the same frames.** -/
theorem regLoop_cuts (hc : c.Accepted) (hrecs : FramesOk c recs) (hos : os.InBounds)
    (h : os.rest ++ more = frame recs) {rounds : Nat} (hrounds : os.size - os.cur ≤ rounds)
    (fs : List Rec) :
    ∃ os' got, regLoop rounds os fs = .ok (os', fs ++ got, false) ∧ os'.buf = os.buf ∧
      Cuts recs more got os'.rest := by
  induction recs generalizing os rounds fs with
  | nil =>
    have hnil : os.rest = [] := (List.append_eq_nil_iff.1 h).1
    have hend : os.size - os.cur = 0 := by
      rw [← BytesStream.rest_length, hnil]
      rfl
    refine ⟨os, [], ?_, rfl, Cuts.none h hnil⟩
    cases rounds <;> simp [regLoop, hos.remainSize, hend]
  | cons r recs ih =>
    have hr := FramesOk.valid hc hrecs (List.mem_cons_self (a := r) (l := recs))
    by_cases hend : os.size - os.cur = 0
    · have hnil : os.rest = [] := List.length_eq_zero_iff.1 (by rw [BytesStream.rest_length, hend])
      refine ⟨os, [], ?_, rfl, Cuts.none h (by simp [Incomplete, hnil])⟩
      cases rounds <;> simp [regLoop, hos.remainSize, hend]
    · obtain ⟨rounds, rfl⟩ : ∃ k, rounds = k + 1 := ⟨rounds - 1, by omega⟩
      simp only [regLoop, hos.remainSize, if_neg hend, prepare_part hos hr h]
      by_cases hshort : os.size - os.cur < 8 + r.2.length
      · rw [if_pos hshort]
        refine ⟨os.startTransaction.rollBack, [], by rw [List.append_nil]; rfl, rfl,
          Cuts.none h ?_⟩
        show os.rest.length < 8 + r.2.length
        rwa [BytesStream.rest_length]
      · obtain ⟨hin, hbody, hmore⟩ := body_part h hshort
        rw [if_neg hshort]
        obtain ⟨hos', hfew⟩ := after_part hos hshort hrounds
        obtain ⟨os', got, h1, h2, h3⟩ :=
          ih (fun x hx => hrecs x (by simp [hx])) hos' hmore hfew (fs ++ [(r.1, r.2)])
        refine ⟨os', r :: got, ?_, h2, h3.cons⟩
        simp only [ok_bind, BytesStream.curBytes_ok hin, BytesStream.addCurPos_ok hin, hbody]
        simpa using h1

/-- How the bytes fall into frames is determined. -/
theorem Cuts.unique {got got' : List Rec} {left left' : List UInt8}
    (h : Cuts recs more got left) (h' : Cuts recs more got' left') : got = got' ∧ left = left' := by
  have hkey : ∀ {i j : Nat} {a b : List UInt8}, i < j → a ++ more = frame (recs.drop i) →
      Incomplete a (recs.drop i) → b ++ more = frame (recs.drop j) → recs.drop i ≠ [] → False := by
    intro i j a b hij ha hinc hb hne
    obtain ⟨r, rest, hri⟩ := List.exists_cons_of_ne_nil hne
    obtain ⟨k, rfl⟩ : ∃ k, j = i + (k + 1) := ⟨j - i - 1, by omega⟩
    have hdrop : recs.drop (i + (k + 1)) = rest.drop k := by
      rw [← List.drop_drop, hri, List.drop_succ_cons]
    have hlen : (frame (recs.drop (i + (k + 1)))).length ≤ (frame rest).length := by
      rw [hdrop]
      conv_rhs => rw [← List.take_append_drop k rest, frame_append]
      simp
    have hla := congrArg List.length ha
    have hlb := congrArg List.length hb
    rw [hri] at hinc hla
    simp only [Incomplete] at hinc
    simp only [frame_cons, List.length_append, LittleEndian.encode_length] at hla hlb
    omega
  obtain ⟨i, rfl, h1, h2⟩ := h
  obtain ⟨j, rfl, h3, h4⟩ := h'
  by_cases hi : recs.drop i = []
  · by_cases hj : recs.drop j = []
    · have hl : recs.length ≤ i := List.drop_eq_nil_iff.1 hi
      have hl' : recs.length ≤ j := List.drop_eq_nil_iff.1 hj
      rw [hi] at h1
      rw [hj, ← h1] at h3
      rw [List.take_of_length_le hl, List.take_of_length_le hl']
      exact ⟨rfl, (List.append_cancel_right h3).symm⟩
    · have hlt : j < i := by
        rw [List.drop_eq_nil_iff] at hi hj
        omega
      exact (hkey hlt h3 h4 h1 hj).elim
  · by_cases hlt : i < j
    · exact (hkey hlt h1 h2 h3 hi).elim
    · by_cases hgt : j < i
      · have hj : recs.drop j ≠ [] := by
          intro hj
          rw [List.drop_eq_nil_iff] at hi hj
          omega
        exact (hkey hgt h3 h4 h1 hj).elim
      · obtain rfl : i = j := by omega
        rw [← h3] at h1
        exact ⟨rfl, List.append_cancel_right h1⟩

/-- Fed in any chunks, `ReadRegFrames` reports the frames and keeps the rest. -/
theorem readRegFrames_cuts (hc : c.Accepted) {chunks : List (List UInt8)} {fs : List Rec}
    {left : List UInt8} (hrecs : FramesOk c recs)
    (h : left ++ chunks.flatten ++ more = frame recs) (hleft : Incomplete left recs)
    (hchunks : ∀ b ∈ chunks, b.length < 2 ^ 63) :
    ∃ got left', chunks.foldlM readRegFrames (fs, left) = .ok (fs ++ got, left') ∧
      Cuts recs more got left' := by
  induction chunks generalizing recs fs left with
  | nil => exact ⟨[], left, by simp; rfl, Cuts.none (by simpa using h) hleft⟩
  | cons b chunks ih =>
    have hshort : left.length < 2 ^ 33 := by
      cases recs with
      | nil => simp only [Incomplete] at hleft; simp [hleft]
      | cons r rs =>
        have := (hrecs r (by simp)).2
        have := hc.2.1
        simp only [Incomplete] at hleft
        omega
    have hb := hchunks b (by simp)
    have h64 : (left ++ b).length < 2 ^ 64 := by
      rw [List.length_append]
      omega
    have hstream : (BytesStream.ofBytes (left ++ b)).rest ++ (chunks.flatten ++ more) =
        frame recs := by
      simpa using h
    obtain ⟨os', got, h1, h2, j, rfl, h3, h4⟩ :=
      regLoop_cuts hc hrecs (BytesStream.inBounds_ofBytes h64) hstream (Nat.sub_le _ _) fs
    have hflat : os'.rest ++ chunks.flatten ++ more = frame (recs.drop j) := by
      rw [List.append_assoc]
      exact h3
    obtain ⟨got', left', h5, h6⟩ := @ih (recs.drop j) (fs ++ recs.take j) os'.rest
      (fun x hx => hrecs x (List.mem_of_mem_drop hx)) hflat h4
      (fun x hx => hchunks x (by simp [hx]))
    have hstep : readRegFrames (fs, left) b = .ok (fs ++ recs.take j, os'.rest) := by
      simp only [readRegFrames]
      rw [show (left ++ b).length = (BytesStream.ofBytes (left ++ b)).size from rfl, h1]
      rfl
    refine ⟨recs.take j ++ got', left', ?_, ?_⟩
    · rw [List.foldlM_cons, hstep, ok_bind, h5, List.append_assoc]
    · obtain ⟨k, rfl, h7, h8⟩ := h6
      rw [List.drop_drop] at h7 h8
      exact ⟨j + k, (List.take_add ..).symm, h7, h8⟩

end Loops

/-! ## The pipeline -/

/-- Everything received is in the frames delivered, in the incomplete one that the session keeps and
in the channel's buffer, which the session has room for. -/
structure Framed (c : Limits) (recs : List Rec) (l : Link) : Prop where
  cuts : Cuts recs (l.chan ++ l.pending) l.session.delivered l.session.input
  room : l.chan.length ≤ l.session.receiveAllowance c

/-- The reason of a close was reported by one of these calls of `recv`. -/
def Reported (recvs : List Recv) (r : CloseReason) : Prop :=
  (r = .peer ∧ Recv.closed ∈ recvs) ∨ ∃ e, r = .recv e ∧ Recv.fault e ∈ recvs

section Pipeline

variable {c : Limits} {recs : List Rec}

/-- An incomplete frame leaves room for its own rest. -/
theorem Incomplete.length_lt (hc : c.Accepted) (hrecs : FramesOk c recs) {b : List UInt8}
    (h : Incomplete b recs) : b.length < c.receive := by
  have hroom := hc.2.2.1
  cases recs with
  | nil =>
    simp only [Incomplete] at h
    rw [h]
    show 0 < c.receive
    omega
  | cons r rs =>
    have hbody := (hrecs r (by simp)).2
    simp only [Incomplete] at h
    omega

theorem FramesOk.drop (h : FramesOk c recs) (j : Nat) : FramesOk c (recs.drop j) :=
  fun r hr => h r (List.mem_of_mem_drop hr)

theorem Cuts.allowance_pos (hc : c.Accepted) (hrecs : FramesOk c recs) {more : List UInt8}
    {s : ProtoSession} (h : Cuts recs more s.delivered s.input) : 0 < s.receiveAllowance c := by
  obtain ⟨j, -, -, hinc⟩ := h
  have hlt := hinc.length_lt hc (hrecs.drop j)
  rw [ProtoSession.receiveAllowance, if_pos hlt]
  omega

/-- **`OnDataIn` delivers what is complete**, and keeps the session open. -/
theorem onDataIn_cuts (hc : c.Accepted) (htcp : c.datagram = false) (hrecs : FramesOk c recs)
    {more : List UInt8} {s : ProtoSession} (hopen : s.closed = none)
    (h : s.input ++ more = frame recs) (hlen : s.input.length < 2 ^ 64) (now : Nat) :
    ∃ s' got, s.onDataIn c now = .ok s' ∧ s'.closed = none ∧
      s'.delivered = s.delivered ++ got ∧ Cuts recs more got s'.input := by
  obtain ⟨os', s', got, h1, -, h3, h4, h5⟩ :=
    frameLoop_cuts hc hrecs (BytesStream.inBounds_ofBytes hlen) h (Nat.sub_le _ _)
      { s with input := [] }
  have hopen' : s'.closed = none := h5.trans hopen
  have hrun : s.onDataIn c now =
      .ok (if os'.rest ≠ [] then { s' with input := os'.rest }.armIncompleteTimer now
        else { s' with input := os'.rest }.cancelIncompleteTimer) := by
    rw [show (BytesStream.ofBytes s.input).size = s.input.length from rfl] at h1
    simp only [ProtoSession.onDataIn, h1, ok_bind, htcp, hopen', Option.isSome_none,
      Bool.false_eq_true, if_false]
    show (if os'.rest ≠ [] then _ else _) = _
    by_cases hrest : os'.rest ≠ []
    · rw [if_pos hrest, if_pos hrest]
      rfl
    · rw [if_neg hrest, if_neg hrest]
      rfl
  -- the timer is all that the last step touches
  have harm : ∀ q : ProtoSession, (q.armIncompleteTimer now).input = q.input ∧
      (q.armIncompleteTimer now).delivered = q.delivered ∧
      (q.armIncompleteTimer now).closed = q.closed := by
    intro q
    rw [ProtoSession.armIncompleteTimer]
    split <;> exact ⟨rfl, rfl, rfl⟩
  by_cases hrest : os'.rest ≠ []
  · rw [if_pos hrest] at hrun
    obtain ⟨ha, hb, hd⟩ := harm { s' with input := os'.rest }
    exact ⟨_, got, hrun, hd.trans hopen', hb.trans h4, ha ▸ h3⟩
  · rw [if_neg hrest] at hrun
    exact ⟨_, got, hrun, hopen', h4, h3⟩

variable {l : Link}

/-- **`SwapInBuff`** hands over what the channel has: the session stays open and has room again. -/
theorem swapInBuff_framed (hc : c.Accepted) (htcp : c.datagram = false) (hrecs : FramesOk c recs)
    (h : Framed c recs l) (hopen : l.session.closed = none) (now : Nat) :
    ∃ l', l.swapInBuff c now = .ok l' ∧ l'.chan = [] ∧ l'.session.closed = none ∧
      Framed c recs l' := by
  obtain ⟨⟨j, hgot, hrest, hinc⟩, hroom⟩ := h
  have hshort := hinc.length_lt hc (hrecs.drop j)
  have hlen : (l.session.input ++ l.chan).length < 2 ^ 64 := by
    rw [ProtoSession.receiveAllowance, if_pos hshort] at hroom
    have := hc.2.2.2
    rw [List.length_append]
    omega
  obtain ⟨s', got, h1, h2, h3, k, rfl, h4, h5⟩ :=
    @onDataIn_cuts c _ hc htcp (hrecs.drop j) l.pending
      { l.session with input := l.session.input ++ l.chan } hopen
      (by rw [List.append_assoc]; exact hrest) hlen now
  have hcuts : Cuts recs l.pending s'.delivered s'.input := by
    rw [List.drop_drop] at h4 h5
    exact ⟨j + k, by rw [h3, hgot, List.take_add], h4, h5⟩
  refine ⟨{ l with chan := [], session := s' }, ?_, rfl, h2, hcuts, Nat.zero_le _⟩
  rw [Link.swapInBuff, if_neg (by omega)]
  simp only [h1, ok_bind]
  rfl

/-- What one call of `DataIn` ends in. -/
def DataInEnds (c : Limits) (recs : List Rec) (recvs : List Recv) (l : Link) : Prop :=
  l.chan = [] ∧ Framed c recs l ∧ ∀ r, l.session.closed = some r → Reported recvs r

theorem Framed.close {l : Link} (h : Framed c recs l) (r : CloseReason) :
    Framed c recs (l.close r) := ⟨h.cuts, h.room⟩

/-- All ways out of the loop hand over, and may then close for a reported reason. -/
theorem swapInBuff_ends (hc : c.Accepted) (htcp : c.datagram = false) (hrecs : FramesOk c recs)
    (h : Framed c recs l) (hopen : l.session.closed = none) (now : Nat) :
    ∃ l', l.swapInBuff c now = .ok l' ∧ 0 < l'.session.receiveAllowance c ∧
      (∀ recvs, DataInEnds c recs recvs l') ∧
      ∀ recvs r, Reported recvs r → DataInEnds c recs recvs (l'.close r) := by
  obtain ⟨l', hswap, hchan, hopen', h'⟩ := swapInBuff_framed hc htcp hrecs h hopen now
  refine ⟨l', hswap, h'.cuts.allowance_pos hc hrecs, ?_, ?_⟩
  · intro recvs
    refine ⟨hchan, h', ?_⟩
    intro r hr
    rw [hopen'] at hr
    cases hr
  · intro recvs r hr
    refine ⟨hchan, h'.close r, ?_⟩
    intro r' hr'
    simp only [Link.close, ProtoSession.passiveClose, hopen', Option.getD_none,
      Option.some.injEq] at hr'
    exact hr' ▸ hr

theorem Reported.cons {recvs : List Recv} {r : CloseReason} (h : Reported recvs r) (a : Recv) :
    Reported (a :: recvs) r := by
  obtain ⟨h1, h2⟩ | ⟨e, h1, h2⟩ := h
  · exact .inl ⟨h1, List.mem_cons_of_mem _ h2⟩
  · exact .inr ⟨e, h1, List.mem_cons_of_mem _ h2⟩

/-- The bytes that `recv` returns move from the socket to the channel's buffer. -/
theorem Framed.received (h : Framed c recs l) {n : Nat}
    (hn : n ≤ l.session.receiveAllowance c - l.chan.length) :
    Framed c recs { l with pending := l.pending.drop n, chan := l.chan ++ l.pending.take n } := by
  constructor
  · have hsame : l.chan ++ l.pending.take n ++ l.pending.drop n = l.chan ++ l.pending := by
      rw [List.append_assoc, List.take_append_drop]
    show Cuts recs (l.chan ++ l.pending.take n ++ l.pending.drop n) _ _
    rw [hsame]
    exact h.cuts
  · have hroom := h.room
    show (l.chan ++ l.pending.take n).length ≤ l.session.receiveAllowance c
    rw [List.length_append, List.length_take]
    omega

/-- **The loop of `DataIn`**: by induction on the answers of `recv`. -/
theorem dataInLoop_framed (hc : c.Accepted) (htcp : c.datagram = false) (hrecs : FramesOk c recs)
    (now : Nat) (recvs : List Recv) (round : Nat) (h : Framed c recs l)
    (hopen : l.session.closed = none) :
    ∃ l', l.dataInLoop c now recvs round = .ok l' ∧ DataInEnds c recs recvs l' := by
  induction recvs generalizing round l with
  | nil =>
    obtain ⟨l', hswap, hpos, hends, -⟩ := swapInBuff_ends hc htcp hrecs h hopen now
    rw [Link.dataInLoop.eq_def]
    dsimp only
    by_cases hfull : l.session.receiveAllowance c ≤ l.chan.length
    · rw [if_pos hfull, hswap, ok_bind, if_neg (fun hno => by omega)]
      exact ⟨l', rfl, hends _⟩
    · rw [if_neg hfull]
      split <;> exact ⟨l', hswap, hends _⟩
  | cons a recvs ih =>
    obtain ⟨l', hswap, hpos, hends, hclose⟩ := swapInBuff_ends hc htcp hrecs h hopen now
    rw [Link.dataInLoop.eq_def]
    dsimp only
    by_cases hfull : l.session.receiveAllowance c ≤ l.chan.length
    · rw [if_pos hfull, hswap, ok_bind, if_neg (fun hno => by omega)]
      exact ⟨l', rfl, hends _⟩
    rw [if_neg hfull]
    by_cases hround : Link.roundMax ≤ round
    · rw [if_pos hround]
      exact ⟨l', hswap, hends _⟩
    rw [if_neg hround]
    cases a with
    | again => exact ⟨l', hswap, hends _⟩
    | intr =>
      obtain ⟨x, h1, h2, h3, h4⟩ := ih round h hopen
      exact ⟨x, h1, h2, h3, fun r hr => (h4 r hr).cons _⟩
    | closed =>
      refine ⟨l'.close .peer, ?_, hclose _ _ (.inl ⟨rfl, by simp⟩)⟩
      simp only [hswap, ok_bind]
      rfl
    | fault e =>
      refine ⟨l'.close (.recv e), ?_, hclose _ _ (.inr ⟨e, rfl, by simp⟩)⟩
      simp only [hswap, ok_bind]
      rfl
    | got n =>
      dsimp only
      generalize hm : min (min n (min (l.session.receiveAllowance c - l.chan.length)
        (Link.roundMax - round))) l.pending.length = m
      by_cases hzero : m = 0
      · rw [if_pos hzero]
        exact ⟨l', hswap, hends _⟩
      · rw [if_neg hzero]
        -- the count is at most what the session has room for
        have hfew : m ≤ l.session.receiveAllowance c - l.chan.length := by omega
        obtain ⟨x, h1, h2, h3, h4⟩ := ih (round + m) (h.received hfew) hopen
        exact ⟨x, h1, h2, h3, fun r hr => (h4 r hr).cons _⟩

/-- **A whole run** of read events, by induction on them. -/
theorem dataIn_run_framed (hc : c.Accepted) (htcp : c.datagram = false) (hrecs : FramesOk c recs)
    (events : List (Nat × List Recv)) (h : Framed c recs l) (hchan : l.chan = []) :
    ∃ l', events.foldlM (Link.dataIn c) l = .ok l' ∧ l'.chan = [] ∧ Framed c recs l' ∧
      ∀ r, l'.session.closed = some r → l.session.closed = some r ∨
        ∃ e ∈ events, Reported e.2 r := by
  induction events generalizing l with
  | nil => exact ⟨l, rfl, hchan, h, fun r hr => .inl hr⟩
  | cons e events ih =>
    have hstep : ∃ x, l.dataIn c e = .ok x ∧ x.chan = [] ∧ Framed c recs x ∧
        ∀ r, x.session.closed = some r → l.session.closed = some r ∨ Reported e.2 r := by
      rw [Link.dataIn]
      by_cases hopen : l.session.closed.isSome
      · rw [if_pos hopen]
        exact ⟨l, rfl, hchan, h, fun r hr => .inl hr⟩
      · rw [if_neg hopen]
        obtain ⟨x, h1, h2, h3, h4⟩ := dataInLoop_framed hc htcp hrecs e.1 e.2 0 h
          (by simpa using hopen)
        exact ⟨x, h1, h2, h3, fun r hr => .inr (h4 r hr)⟩
    obtain ⟨x, h1, h2, h3, h4⟩ := hstep
    obtain ⟨l', h5, h6, h7, h8⟩ := ih h3 h2
    refine ⟨l', ?_, h6, h7, ?_⟩
    · rw [List.foldlM_cons, h1, ok_bind, h5]
    · intro r hr
      obtain hx | ⟨e', he', hrep⟩ := h8 r hr
      · obtain hl | hrep := h4 r hx
        · exact .inl hl
        · exact .inr ⟨e, by simp, hrep⟩
      · exact .inr ⟨e', by simp [he'], hrep⟩

theorem encodePbFrame_run (hc : c.Accepted) (hrecs : FramesOk c recs) :
    recs.mapM encodePbFrame = .ok (recs.map fun r => frame [r]) := by
  induction recs with
  | nil => rfl
  | cons r recs ih =>
    have hr := FramesOk.valid hc hrecs (List.mem_cons_self (a := r) (l := recs))
    rw [List.mapM_cons, encodePbFrame, writeChecked_frame hr.1 hr.2, ok_bind,
      ih (fun x hx => hrecs x (by simp [hx]))]
    rfl

theorem frame_flatten (recs : List Rec) : (recs.map fun r => frame [r]).flatten = frame recs := by
  induction recs with
  | nil => rfl
  | cons r recs ih =>
    rw [List.map_cons, List.flatten_cons, ih, ← frame_append]
    rfl

/-- **Framing is exact.**  However the bytes of the frames are split over `recv`, rounds and read
events: the frames that are complete were delivered once, in order, as they were sent; the session
keeps the bytes of the incomplete one; it is closed only for what `recv` reported; and
`ReadRegFrames` makes the same of the same bytes in any chunks. -/
theorem framing_exact (hc : c.Accepted) (htcp : c.datagram = false) (hrecs : FramesOk c recs)
    (events : List (Nat × List Recv)) :
    ∃ frames, recs.mapM encodePbFrame = .ok frames ∧
    ∃ l, events.foldlM (Link.dataIn c) { pending := frames.flatten } = .ok l ∧ l.chan = [] ∧
      (∃ j, l.session.delivered = recs.take j ∧
        l.session.input ++ l.pending = ((recs.drop j).map fun r => frame [r]).flatten ∧
        Incomplete l.session.input (recs.drop j)) ∧
      (∀ r, l.session.closed = some r → ∃ e ∈ events, Reported e.2 r) ∧
      ∀ chunks : List (List UInt8), (∀ b ∈ chunks, b.length < 2 ^ 63) →
        chunks.flatten ++ l.pending = frames.flatten →
        chunks.foldlM readRegFrames ([], []) = .ok (l.session.delivered, l.session.input) := by
  refine ⟨_, encodePbFrame_run hc hrecs, ?_⟩
  rw [frame_flatten]
  have hstart : Framed c recs { pending := frame recs } := by
    constructor
    · exact Cuts.none rfl (Incomplete.nil recs)
    · exact Nat.zero_le _
  obtain ⟨l, h1, h2, h3, h4⟩ := dataIn_run_framed hc htcp hrecs events hstart rfl
  have hcuts : Cuts recs l.pending l.session.delivered l.session.input := by
    have := h3.cuts
    rwa [h2] at this
  refine ⟨l, h1, h2, ?_, ?_, ?_⟩
  · obtain ⟨j, hj1, hj2, hj3⟩ := hcuts
    exact ⟨j, hj1, by rw [frame_flatten]; exact hj2, hj3⟩
  · intro r hr
    obtain hnew | hrep := h4 r hr
    · cases hnew
    · exact hrep
  · intro chunks hsmall hflat
    obtain ⟨got, left, hrun, hcut⟩ :=
      @readRegFrames_cuts c recs l.pending hc chunks [] [] hrecs
        (by rw [List.nil_append]; exact hflat) (Incomplete.nil recs) hsmall
    obtain ⟨rfl, rfl⟩ := hcut.unique hcuts
    exact hrun

/-- Two frames in pieces that end inside a header; the second event stops when the buffer is full.
-/
theorem framing_exact_split :
    (⟨16, 8, false⟩ : Limits).Accepted ∧
    ∃ frames, [(5, [1, 2]), (7, [3])].mapM encodePbFrame = .ok frames ∧
    ∃ l, [(0, [Recv.got 3, .intr, .got 4]), (1, [.got 11, .again])].foldlM
        (Link.dataIn ⟨16, 8, false⟩) { pending := frames.flatten } = .ok l ∧
      l.session.delivered = [(5, [1, 2])] := by
  refine ⟨by decide, ?_⟩
  obtain ⟨frames, h1, l, h2, -⟩ := @framing_exact ⟨16, 8, false⟩ [(5, [1, 2]), (7, [3])] (by decide)
    rfl (by simp [FramesOk])
    [(0, [Recv.got 3, .intr, .got 4]), (1, [.got 11, .again])]
  obtain rfl : frames = [frame [(5, [1, 2])], frame [(7, [3])]] :=
    (Except.ok.inj (h1.symm.trans (by decide +kernel)))
  refine ⟨_, h1, l, h2, ?_⟩
  obtain rfl : l = ⟨[0, 0, 3], [], ⟨[7, 0, 0, 0, 1, 0], none, some 1, [(5, [1, 2])]⟩⟩ :=
    (Except.ok.inj (h2.symm.trans (by decide +kernel)))
  rfl

end Pipeline

end OpenIdea.Net
