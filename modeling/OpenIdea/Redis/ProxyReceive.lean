import OpenIdea.Redis.ProxyStream

/-!
# The receive buffer of the Redis proxy's sessions

`TCP_Channel::DataIn` reads at most as much as the receive buffer of the session has room for.  A
buffer that is full is given to the session, and the session is closed with `ENOBUFS` if it is still
full after that.  The limit of the buffer is configured apart from the limit of a command, and a
session that waits for credit does not take anything from its buffer.

Main results: `dataIn_full_iff`, `closes_for_input_iff`.
-/

set_option autoImplicit false

namespace OpenIdea.Redis.Proxy

open OpenIdea.Lib OpenIdea.Lib.Runs OpenIdea.Redis

variable {ρ : Type}

/-! ## The channel -/

/-- The receive limits that `SessionManager::Init` accepts. -/
structure ReceiveLimits where
  maxReceiveBufferBytes : Nat := 64 * 1024 * 1024 + 8
  maxFrameBytes : Nat := 64 * 1024 * 1024
  frame_min : 8 ≤ maxFrameBytes := by decide
  frame_max : maxFrameBytes ≤ 2147483647 := by decide
  receive_min : maxFrameBytes + 8 ≤ maxReceiveBufferBytes := by decide

/-- What `NetOs_Recv` returns; `again` and `interrupted` are `EAGAIN` and `EINTR`. -/
inductive Recv
  | data (bytes : List UInt8)
  | again
  | interrupted
  | closed
  | fault
  deriving DecidableEq, Repr

/-- How the loop of `TCP_Channel::DataIn` is left. -/
inductive Leave
  | full
  | finish
  | fault
  | closed
  deriving DecidableEq, Repr

/-- `iItemIndexRoundMax` -/
def roundMax : Nat := 4 * 1024 * 1024

/-- The loop of `TCP_Channel::DataIn`, with what it has read.  The channel's own buffer is empty
when it starts, so that `iRound` is its size.  `none`: `NetOs_Recv` has returned more than it was
asked for, or its results have run out. -/
def readLoop (allowance : Nat) (recvs : List Recv) (buffer : List UInt8) :
    Option (List UInt8 × Leave) :=
  if allowance ≤ buffer.length then some (buffer, .full)
  else if roundMax ≤ buffer.length then some (buffer, .finish)
  else
    match recvs with
    | [] => none
    | .data bytes :: recvs =>
        if 0 < bytes.length ∧ bytes.length ≤ min (allowance - buffer.length) (roundMax - buffer.length)
        then readLoop allowance recvs (buffer ++ bytes)
        else none
    | .again :: _ => some (buffer, .finish)
    | .interrupted :: recvs => readLoop allowance recvs buffer
    | .closed :: _ => some (buffer, .closed)
    | .fault :: _ => some (buffer, .fault)

/-- `ReceiveAllowance`. -/
def receiveAllowance (limits : ReceiveLimits) (v : Session ρ) : Nat :=
  if v.buffer.length < limits.maxReceiveBufferBytes then
    limits.maxReceiveBufferBytes - v.buffer.length
  else 0

/-- `SwapInBuff`.  The flag tells that an open session is closed with `ENOBUFS`. -/
def swapInBuff (cfg : Config) (limits : ReceiveLimits) (sid : Nat) (bytes : List UInt8)
    (env : Nat → IssueEnv) (s : State ρ) : State ρ × Bool :=
  if receiveAllowance limits (s.sessions sid) < bytes.length then
    (closeSession sid s, !(s.sessions sid).closed)
  else (dataIn cfg sid bytes env s, false)

/-- `TCP_Channel::DataIn`, with the same flag. -/
def channelDataIn (cfg : Config) (limits : ReceiveLimits) (sid : Nat) (recvs : List Recv)
    (env : Nat → IssueEnv) (s : State ρ) : Option (State ρ × Bool) :=
  match readLoop (receiveAllowance limits (s.sessions sid)) recvs [] with
  | none => none
  | some (bytes, leave) =>
      let r := swapInBuff cfg limits sid bytes env s
      match leave with
      | .full =>
          if !(r.1.sessions sid).closed && receiveAllowance limits (r.1.sessions sid) == 0 then
            some (closeSession sid r.1, true)
          else some r
      | .finish => some r
      | .fault => some (closeSession sid r.1, r.2)
      | .closed => some (closeSession sid r.1, r.2)

/-- The events with the channel in place: `readable` is the poll's call of `DataIn`. -/
inductive ChannelEvent (ρ : Type)
  | readable (sid : Nat) (recvs : List Recv) (env : Nat → IssueEnv)
  | other (e : Event ρ)

def channelStep (cfg : Config) (limits : ReceiveLimits) (s : State ρ) :
    ChannelEvent ρ → Option (State ρ)
  | .readable sid recvs env =>
      if s.loop = .idle ∧ (s.sessions sid).deleted = false then
        (channelDataIn cfg limits sid recvs env s).map Prod.fst
      else none
  | .other (.dataIn _ _ _) => none
  | .other e => step cfg s e

/-! ## What closes a session for its input -/

/-- The loop of `ProcessInput` calls `PassiveClose(PARSER_ERR_PROTOCOL_SIZE)`. -/
def refusesLoop (cfg : Config) (sid : Nat) (env : Nat → IssueEnv) :
    Nat → List UInt8 → State ρ → Bool
  | 0, _, _ => false
  | budget + 1, rest, s =>
      match scanCommand cfg.maxPendingBytes rest with
      | .bad => true
      | .more => false
      | .command size _ =>
          if changesConnection (rest.take size) then true
          else
            let r := issue cfg sid (rest.take size) (env budget) s
            if !r.2 then false
            else if (r.1.sessions sid).closed then false
            else if budget = 0 ∧ rest.drop size ≠ [] then false
            else refusesLoop cfg sid env budget (rest.drop size) r.1

/-- `ProcessInput` closes the session for what it has sent. -/
def refusesInput (cfg : Config) (sid budget : Nat) (env : Nat → IssueEnv) (s : State ρ) : Bool :=
  let v := s.sessions sid
  if v.readPaused || v.closed then false else refusesLoop cfg sid env budget v.buffer s

/-- The step closes the session for its input: with `ENOBUFS`, or for a protocol error. -/
def closesForInput (cfg : Config) (limits : ReceiveLimits) (sid : Nat) (s : State ρ) :
    ChannelEvent ρ → Bool
  | .readable m recvs env =>
      let v := s.sessions sid
      if m = sid then
        match readLoop (receiveAllowance limits v) recvs [] with
        | none => false
        | some (bytes, _) =>
            ((channelDataIn cfg limits sid recvs env s).map Prod.snd).getD false ||
              refusesInput cfg sid 32 env
                (s.setSession sid { v with
                  buffer := v.buffer ++ bytes, received := v.received ++ bytes })
      else false
  | .other (.resumeTaken env) =>
      let v := s.sessions sid
      match s.loop with
      | .taken _ _ _ m =>
          if m = sid ∧ v.closed = false then
            refusesInput cfg sid 1 env (s.setSession sid { v with readPaused := false })
          else false
      | _ => false
  | .other _ => false

/-- `Issue` does not put off a command of `size` bytes of the session. -/
def Takes (cfg : Config) (sid size : Nat) (s : State ρ) : Prop :=
  let k := s.links (s.sessions sid).link
  cfg.connections ≤ (s.sessions sid).link ∨ k.up = false ∨
    ((k.resuming = true ∨ k.paused = ∅) ∧ k.pending.length < cfg.maxPendingCommands ∧
      size ≤ cfg.maxPendingBytes - k.pendingBytes)

/-- A read of `bytes` leaves room in the receive buffer: it does not fill it, or the session is not
paused and the first command is complete, and is taken. -/
def LeavesRoom (cfg : Config) (limits : ReceiveLimits) (sid : Nat) (bytes : List UInt8)
    (s : State ρ) : Prop :=
  (s.sessions sid).closed = true ∨
    ((s.sessions sid).buffer ++ bytes).length < limits.maxReceiveBufferBytes ∨
    ((s.sessions sid).readPaused = false ∧
      ∃ size count, scanCommand cfg.maxPendingBytes ((s.sessions sid).buffer ++ bytes) =
          .command size count ∧ Takes cfg sid size s)

/-- Every read of the session's socket leaves room. -/
def ReadLeavesRoom (cfg : Config) (limits : ReceiveLimits) (sid : Nat) (s : State ρ) :
    ChannelEvent ρ → Prop
  | .readable m recvs _ => m = sid → ∀ bytes leave,
      readLoop (receiveAllowance limits (s.sessions sid)) recvs [] = some (bytes, leave) →
      LeavesRoom cfg limits sid bytes s
  | .other _ => True

/-- A command that the proxy is to forward: it is within the limit, and does not change the state of
the connection. -/
structure Legal (cfg : Config) (c : Command) : Prop where
  short : c.encode.length ≤ cfg.maxPendingBytes
  allowed : changesConnection c.encode = false

/-! ## A legal stream is never refused -/

variable {cfg : Config} {env : Nat → IssueEnv} {sid : Nat} {limits : ReceiveLimits} {s s' : State ρ}

/-- What is left of a stream of legal commands, when some have been cut off. -/
theorem legal_rest {xs rest : List UInt8} {taken : List (List UInt8)}
    (h : (commands cfg.maxPendingBytes).Splits xs taken rest) :
    ∀ {cs : List Command}, (∀ c ∈ cs, Legal cfg c) → xs = cs.flatMap Command.encode →
      ∃ cs' : List Command, (∀ c ∈ cs', Legal cfg c) ∧ rest = cs'.flatMap Command.encode := by
  induction h with
  | nil xs =>
    intro cs hlegal hxs
    exact ⟨cs, hlegal, hxs⟩
  | @cons xs rest items k hscan _ ih =>
    intro cs hlegal hxs
    cases cs with
    | nil =>
      have hle := (commands cfg.maxPendingBytes).item_le hscan
      have hpos := (commands cfg.maxPendingBytes).item_pos hscan
      rw [hxs] at hle
      have hle : k ≤ 0 := hle
      omega
    | cons c cs =>
      rw [List.flatMap_cons] at hxs
      have hfound := scanCommand_encode c (hlegal c List.mem_cons_self).short
        (cs.flatMap Command.encode)
      have hk : k = c.encode.length := by
        have hcut : (scanCommand cfg.maxPendingBytes xs).cut = .item k := hscan
        rw [hxs, hfound] at hcut
        exact (Cut.item.inj hcut).symm
      apply ih fun c' hc' => hlegal c' (List.mem_cons_of_mem c hc')
      rw [hxs, hk, List.drop_left]

variable {cs : List Command}

/-- The first command of a legal stream, of which `rest` is the part that has come. -/
theorem legal_scan {rest more : List UInt8} (hlegal : ∀ c ∈ cs, Legal cfg c)
    (h : rest ++ more = cs.flatMap Command.encode) :
    scanCommand cfg.maxPendingBytes rest = .more ∨
    ∃ size count, scanCommand cfg.maxPendingBytes rest = .command size count ∧
      size ≤ cfg.maxPendingBytes ∧ changesConnection (rest.take size) = false ∧
      ∃ cs' : List Command, (∀ c ∈ cs', Legal cfg c) ∧
        rest.drop size ++ more = cs'.flatMap Command.encode := by
  cases cs with
  | nil =>
    have hnil : rest = [] := (List.append_eq_nil_iff.1 h).1
    rw [hnil]
    exact Or.inl rfl
  | cons c cs =>
    have hc := hlegal c List.mem_cons_self
    rw [List.flatMap_cons] at h
    have hfound := scanCommand_encode c hc.short (cs.flatMap Command.encode)
    rw [← h] at hfound
    cases hscan : scanCommand cfg.maxPendingBytes rest with
    | more => exact Or.inl rfl
    | bad =>
      rw [scanCommand_bad_append hscan] at hfound
      cases hfound
    | command size count =>
      right
      have hle := (scanCommand_size hscan).2
      rw [scanCommand_append hscan] at hfound
      obtain ⟨rfl, -⟩ := Scan.command.inj hfound
      have htake : rest.take c.encode.length = c.encode := by
        rw [← List.take_append_of_le_length hle, h, List.take_left]
      refine ⟨c.encode.length, count, rfl, hc.short, ?_, cs,
        fun c' hc' => hlegal c' (List.mem_cons_of_mem c hc'), ?_⟩
      · rw [htake]
        exact hc.allowed
      · rw [← List.drop_append_of_le_length hle, h, List.drop_left]

/-- `ProcessInput` finds no fault with a legal stream. -/
theorem refusesLoop_legal {more : List UInt8} (budget : Nat) :
    ∀ {rest : List UInt8} {s : State ρ} {cs : List Command}, (∀ c ∈ cs, Legal cfg c) →
      rest ++ more = cs.flatMap Command.encode → refusesLoop cfg sid env budget rest s = false := by
  induction budget with
  | zero =>
    intro rest s cs _ _
    rfl
  | succ budget ih =>
    intro rest s cs hlegal h
    rw [refusesLoop]
    rcases legal_scan hlegal h with hmore | ⟨size, count, hscan, -, hallowed, cs', hlegal', h'⟩
    · rw [hmore]
    · rw [hscan]
      dsimp only
      rw [if_neg (by rw [hallowed]; exact Bool.false_ne_true)]
      split
      · rfl
      split
      · rfl
      split
      · rfl
      · exact ih hlegal' h'

/-! ## When the buffer stays full -/

/-- The channel reads no more than it may, and it is full exactly when it has read as much. -/
theorem readLoop_full {allowance : Nat} (recvs : List Recv) :
    ∀ {buffer bytes : List UInt8} {leave : Leave}, buffer.length ≤ allowance →
      readLoop allowance recvs buffer = some (bytes, leave) →
      bytes.length ≤ allowance ∧ (leave = .full ↔ allowance ≤ bytes.length) := by
  induction recvs with
  | nil =>
    intro buffer bytes leave hle h
    rw [readLoop] at h
    split at h
    · rename_i hfull
      obtain ⟨rfl, rfl⟩ := Prod.mk.inj (Option.some.inj h)
      exact ⟨hle, fun _ => hfull, fun _ => rfl⟩
    rename_i hroom
    obtain ⟨_, h⟩ := Option.ite_none_right_eq_some.1 h
    obtain ⟨rfl, rfl⟩ := Prod.mk.inj (Option.some.inj h)
    exact ⟨hle, fun hl => (by cases hl), fun hf => absurd hf hroom⟩
  | cons r recvs ih =>
    intro buffer bytes leave hle h
    rw [readLoop.eq_def] at h
    split at h
    · rename_i hfull
      obtain ⟨rfl, rfl⟩ := Prod.mk.inj (Option.some.inj h)
      exact ⟨hle, fun _ => hfull, fun _ => rfl⟩
    rename_i hroom
    -- left for another reason, there is still room
    have hleft : ∀ {l : Leave}, l ≠ .full → some (buffer, l) = some (bytes, leave) →
        bytes.length ≤ allowance ∧ (leave = .full ↔ allowance ≤ bytes.length) := by
      intro l hl heq
      obtain ⟨rfl, rfl⟩ := Prod.mk.inj (Option.some.inj heq)
      exact ⟨hle, fun hf => absurd hf hl, fun hf => absurd hf hroom⟩
    split at h
    · exact hleft (by simp) h
    cases r with
    | data got =>
      dsimp only at h
      split at h
      · rename_i hgot
        refine ih ?_ h
        rw [List.length_append]
        omega
      · cases h
    | again => exact hleft (by simp) h
    | interrupted => exact ih hle h
    | closed => exact hleft (by simp) h
    | fault => exact hleft (by simp) h

theorem processLoop_length {cfg : Config} {sid : Nat} {env : Nat → IssueEnv} (budget : Nat) :
    ∀ (rest : List UInt8) (s : State ρ),
      (processLoop cfg sid env budget rest s).1.length ≤ rest.length := by
  induction budget with
  | zero =>
    intro rest s
    exact Nat.le_refl _
  | succ budget ih =>
    intro rest s
    rw [processLoop]
    split
    · exact Nat.le_refl _
    · exact Nat.le_refl _
    · rename_i size count _
      have hdrop : (rest.drop size).length ≤ rest.length := by
        rw [List.length_drop]
        exact Nat.sub_le _ _
      split
      · exact Nat.le_refl _
      dsimp only
      split
      · exact Nat.le_refl _
      split
      · exact Nat.le_refl _
      split
      · exact hdrop
      · exact Nat.le_trans (ih _ _) hdrop

/-- `Issue` puts a command off exactly when there is no room for it. -/
theorem issue_eq_false_iff {cfg : Config} {sid : Nat} {command : List UInt8} {env : IssueEnv}
    {s : State ρ} (hpos : 0 < command.length) (hshort : command.length ≤ cfg.maxPendingBytes) :
    (issue cfg sid command env s).2 = false ↔ ¬ Takes cfg sid command.length s := by
  rw [issue, Takes]
  dsimp only
  by_cases hlink : cfg.connections ≤ (s.sessions sid).link
  · rw [if_pos (Or.inl hlink)]
    simp [hlink]
  rw [if_neg (by omega)]
  by_cases hup : (s.links (s.sessions sid).link).up = true
  · rw [if_neg (by simp [hup])]
    by_cases hwait : (!(s.links (s.sessions sid).link).resuming) = true ∧
        (s.links (s.sessions sid).link).paused ≠ ∅
    · rw [if_pos hwait]
      have hres : (s.links (s.sessions sid).link).resuming = false := by simpa using hwait.1
      simp [hlink, hup, hres, hwait.2]
    · rw [if_neg hwait]
      have hturn : (s.links (s.sessions sid).link).resuming = true ∨
          (s.links (s.sessions sid).link).paused = ∅ := by
        by_cases hres : (s.links (s.sessions sid).link).resuming = true
        · exact Or.inl hres
        · exact Or.inr (by_contra fun hne => hwait ⟨by simpa using hres, hne⟩)
      by_cases hfull : cfg.maxPendingCommands ≤ (s.links (s.sessions sid).link).pending.length ∨
          cfg.maxPendingBytes - (s.links (s.sessions sid).link).pendingBytes < command.length
      · rw [if_pos hfull]
        refine ⟨fun _ => ?_, fun _ => rfl⟩
        rintro (h | h | h)
        · exact hlink h
        · rw [hup] at h
          cases h
        · omega
      · rw [if_neg hfull]
        have htakes : (s.links (s.sessions sid).link).pending.length < cfg.maxPendingCommands ∧
            command.length ≤ cfg.maxPendingBytes - (s.links (s.sessions sid).link).pendingBytes := by
          omega
        constructor
        · intro h
          split at h
          · cases h
          · cases h
        · intro h
          exact absurd (Or.inr (Or.inr ⟨hturn, htakes⟩)) h
  · have hdown : (s.links (s.sessions sid).link).up = false := by simpa using hup
    rw [if_pos (by simp [hdown])]
    simp [hdown]

/-- A session that can go on: it is not paused, and the command at the head of `total` is complete and
is taken. -/
def GoesOn (cfg : Config) (sid : Nat) (total : List UInt8) (t : State ρ) : Prop :=
  (t.sessions sid).readPaused = false ∧
    ∃ size count, scanCommand cfg.maxPendingBytes total = .command size count ∧ Takes cfg sid size t

/-- Where nothing is taken out and the session stays open, the buffer is as full as before. -/
theorem full_iff_of_kept {total : List UInt8} {t u : State ρ}
    (hopen : (u.sessions sid).closed = false) (hbuffer : (u.sessions sid).buffer = total)
    (hno : ¬ GoesOn cfg sid total t) :
    ((u.sessions sid).closed = false ∧
        limits.maxReceiveBufferBytes ≤ (u.sessions sid).buffer.length) ↔
      limits.maxReceiveBufferBytes ≤ total.length ∧ ¬ GoesOn cfg sid total t := by
  rw [hbuffer]
  exact ⟨fun h => ⟨h.2, hno⟩, fun h => ⟨hopen, h.1⟩⟩

/-- The loop at an allowed command, with rounds left after it. -/
theorem processLoop_command {budget size count : Nat} {total : List UInt8} (t : State ρ)
    (hbudget : budget ≠ 0) (hscan : scanCommand cfg.maxPendingBytes total = .command size count)
    (hallowed : changesConnection (total.take size) = false) :
    processLoop cfg sid env (budget + 1) total t =
      let r := issue cfg sid (total.take size) (env budget) t
      if !r.2 then (total, pauseRead cfg sid r.1)
      else if (r.1.sessions sid).closed then (total, r.1)
      else processLoop cfg sid env budget (total.drop size) r.1 := by
  rw [processLoop, hscan]
  dsimp only
  rw [if_neg (by rw [hallowed]; exact Bool.false_ne_true)]
  simp [hbudget]

/-- **`ProcessInput` at a whole command**: it leaves the buffer full only where it has to wait. -/
theorem processInput_full_iff {size count : Nat} {t : State ρ}
    (hopen : (t.sessions sid).closed = false) (hread : (t.sessions sid).readPaused = false)
    (hmax : (t.sessions sid).buffer.length ≤ limits.maxReceiveBufferBytes)
    (hscan : scanCommand cfg.maxPendingBytes (t.sessions sid).buffer = .command size count)
    (hsize : size ≤ cfg.maxPendingBytes)
    (hallowed : changesConnection ((t.sessions sid).buffer.take size) = false) :
    ((((processInput cfg sid 32 env t).1.sessions sid).closed = false ∧
        limits.maxReceiveBufferBytes ≤
          ((processInput cfg sid 32 env t).1.sessions sid).buffer.length) ↔
      limits.maxReceiveBufferBytes ≤ (t.sessions sid).buffer.length ∧
        ¬ GoesOn cfg sid (t.sessions sid).buffer t) := by
  rw [processInput_of_open hopen hread]
  dsimp only
  obtain ⟨total, htotal⟩ : ∃ total, (t.sessions sid).buffer = total := ⟨_, rfl⟩
  rw [htotal] at hscan hallowed hmax ⊢
  obtain ⟨hpos, hle⟩ := scanCommand_size hscan
  have hlen : (total.take size).length = size := by
    rw [List.length_take, Nat.min_eq_left hle]
  rw [processLoop_command t (by decide) hscan hallowed]
  dsimp only
  have hwhen := @issue_eq_false_iff _ cfg sid (total.take size) (env 31) t (by rw [hlen]; exact hpos)
    (by rw [hlen]; exact hsize)
  rw [hlen] at hwhen
  have hi := issued cfg sid (total.take size) (env 31) t
  generalize issue cfg sid (total.take size) (env 31) t = r at hwhen hi ⊢
  obtain ⟨u, ok⟩ := r
  dsimp only at hwhen hi ⊢
  cases ok with
  | false =>
    -- it has to wait
    cases hi
    simp only [Bool.not_false, if_true]
    refine full_iff_of_kept ?_ ?_ ?_
    · rw [State.setSession_self]
      show ((pauseRead cfg sid t).sessions sid).closed = false
      rw [(quiet_pauseRead cfg sid t).closed]
      exact hopen
    · rw [State.setSession_self]
    · rintro ⟨-, size', count', hscan', htakes⟩
      rw [hscan] at hscan'
      obtain ⟨rfl, -⟩ := Scan.command.inj hscan'
      exact hwhen.1 rfl htakes
  | true =>
    have htakes : Takes cfg sid size t := by
      by_contra hno
      cases hwhen.2 hno
    simp only [Bool.not_true, Bool.false_eq_true, if_false]
    constructor
    · -- it was taken, so that the session is closed or there is room
      rintro ⟨hstill, hfull⟩
      rw [State.setSession_self] at hstill hfull
      exfalso
      split at hstill
      · rename_i hc
        have hstill : (u.sessions sid).closed = false := hstill
        rw [hc] at hstill
        cases hstill
      · rename_i hc
        rw [if_neg hc] at hfull
        have hrest := @processLoop_length _ cfg sid env 31 (total.drop size) u
        rw [List.length_drop] at hrest
        have hfull : limits.maxReceiveBufferBytes ≤
          (processLoop cfg sid env 31 (total.drop size) u).1.length := hfull
        omega
    · rintro ⟨-, hno⟩
      exact absurd ⟨hread, size, count, hscan, htakes⟩ hno

/-- **When the buffer is still full.**  After a read of an open session that sends legal commands,
the buffer is full if and only if the read has filled it and the first command cannot be taken. -/
theorem dataIn_full_iff {cfg : Config} {limits : ReceiveLimits} {sid : Nat} {bytes more : List UInt8}
    {env : Nat → IssueEnv} {s : State ρ} {cs : List Command} (hopen : (s.sessions sid).closed = false)
    (hlegal : ∀ c ∈ cs, Legal cfg c)
    (hstream : ((s.sessions sid).buffer ++ bytes) ++ more = cs.flatMap Command.encode)
    (hmax : ((s.sessions sid).buffer ++ bytes).length ≤ limits.maxReceiveBufferBytes) :
    (((dataIn cfg sid bytes env s).sessions sid).closed = false ∧
      limits.maxReceiveBufferBytes ≤ ((dataIn cfg sid bytes env s).sessions sid).buffer.length) ↔
    ¬ LeavesRoom cfg limits sid bytes s := by
  obtain ⟨total, htotal⟩ : ∃ total, (s.sessions sid).buffer ++ bytes = total := ⟨_, rfl⟩
  obtain ⟨t, ht⟩ : ∃ t, s.setSession sid { s.sessions sid with
      buffer := total, received := (s.sessions sid).received ++ bytes } = t := ⟨_, rfl⟩
  have hself : t.sessions sid = { s.sessions sid with
      buffer := total, received := (s.sessions sid).received ++ bytes } := by
    rw [← ht, State.setSession_self]
  have hlinks : t.links = s.links := by
    rw [← ht]
    rfl
  have hin : dataIn cfg sid bytes env s = (processInput cfg sid 32 env t).1 := by
    rw [dataIn, htotal, ht]
  have hroom : LeavesRoom cfg limits sid bytes s ↔
      total.length < limits.maxReceiveBufferBytes ∨ GoesOn cfg sid total t := by
    rw [LeavesRoom, GoesOn, htotal, hopen]
    simp only [Bool.false_eq_true, false_or, Takes, hself, hlinks]
  rw [htotal] at hstream hmax
  rw [hin, hroom, not_or, Nat.not_lt]
  have hbuffer : (t.sessions sid).buffer = total := by rw [hself]
  have hclosed : (t.sessions sid).closed = false := by
    rw [hself]
    exact hopen
  by_cases hpaused : (t.sessions sid).readPaused = true
  · have hskip : (processInput cfg sid 32 env t).1 = t := by
      rw [processInput]
      dsimp only
      rw [if_pos (by simp [hpaused])]
    rw [hskip]
    refine full_iff_of_kept hclosed hbuffer ?_
    rintro ⟨hno, -⟩
    rw [hpaused] at hno
    cases hno
  have hread : (t.sessions sid).readPaused = false := Bool.eq_false_iff.2 hpaused
  rcases legal_scan hlegal hstream with hmore | ⟨size, count, hscan, hsize, hallowed, -⟩
  · -- the command is not complete
    have hloop : processLoop cfg sid env 32 total t = (total, t) := by
      rw [processLoop, hmore]
    rw [processInput_of_open hclosed hread, hbuffer]
    dsimp only
    rw [hloop]
    refine full_iff_of_kept ?_ ?_ ?_
    · rw [State.setSession_self]
      exact hclosed
    · rw [State.setSession_self]
    · rintro ⟨-, size, count, hscan, -⟩
      rw [hmore] at hscan
      cases hscan
  · rw [← hbuffer] at hscan hallowed hmax ⊢
    exact processInput_full_iff hclosed hread hmax hscan hsize hallowed

/-! ## Runs with the channel -/

theorem received_processInput (cfg : Config) (sid budget : Nat) (env : Nat → IssueEnv) (s : State ρ) :
    ((processInput cfg sid budget env s).1.sessions sid).received = (s.sessions sid).received := by
  rw [processInput]
  dsimp only
  split
  · rfl
  rename_i hready
  have hopen := open_of_ready hready
  rw [State.setSession_self]
  refine @processLoop_rule _ cfg sid env
    (fun _ t => (t.sessions sid).received = (s.sessions sid).received) ?_ ?_ ?_ budget
    (s.sessions sid).buffer s rfl hopen
  · intro rest t ht _
    rw [closeSession, State.setSession_self]
    exact ht
  · intro rest t ht _
    rw [(quiet_pauseRead cfg sid t).received]
    exact ht
  · intro rest t t' size count ht _ _ hi
    rw [hi.received]
    exact ht

theorem received_dataIn (cfg : Config) (sid : Nat) (bytes : List UInt8) (env : Nat → IssueEnv)
    (s : State ρ) :
    ((dataIn cfg sid bytes env s).sessions sid).received = (s.sessions sid).received ++ bytes := by
  rw [dataIn, received_processInput, State.setSession_self]

theorem buffer_processInput (cfg : Config) (sid budget : Nat) (env : Nat → IssueEnv) (s : State ρ) :
    ((processInput cfg sid budget env s).1.sessions sid).buffer.length ≤
      (s.sessions sid).buffer.length := by
  rw [processInput]
  dsimp only
  split
  · exact Nat.le_refl _
  · rw [State.setSession_self]
    exact processLoop_length budget _ _

theorem buffer_dataIn (cfg : Config) (sid : Nat) (bytes : List UInt8) (env : Nat → IssueEnv)
    (s : State ρ) :
    ((dataIn cfg sid bytes env s).sessions sid).buffer.length ≤
      ((s.sessions sid).buffer ++ bytes).length := by
  have h := buffer_processInput cfg sid 32 env (s.setSession sid { s.sessions sid with
    buffer := (s.sessions sid).buffer ++ bytes
    received := (s.sessions sid).received ++ bytes })
  rw [State.setSession_self] at h
  exact h

/-- The input of a session that has been added is only added to. -/
theorem received_step {e : Event ρ} (hserved : Served cfg s) (hsid : sid < s.count)
    (hs : step cfg s e = some s') :
    sid < s'.count ∧ (s.sessions sid).received <+: (s'.sessions sid).received := by
  cases inputStep hserved sid hs with
  | frame hpassed hf =>
    rw [hf.received]
    exact ⟨Nat.lt_of_lt_of_le hsid hf.count, List.prefix_rfl⟩
  | added hsid' => exact absurd hsid' (Nat.ne_of_lt hsid)
  | dataIn chunk env hloop =>
    have hlocal := ((hserved.idle hloop).dataIn hserved.sound sid chunk env).2
    rw [hlocal.count, received_dataIn]
    exact ⟨hsid, List.prefix_append _ _⟩
  | resumed l remaining progress env hloop hopen =>
    have hphase := hserved.phase
    rw [Phase, hloop] at hphase
    have ht := hserved.turns
    rw [hloop] at ht
    have hlocal := (Turns.resumeRead ht hserved.sound hopen
      (by rw [hphase.2.2.1]; exact hphase.2.1) env).2
    have hsame : ((resumeRead cfg sid env s).1.sessions sid).received =
        (s.sessions sid).received := by
      have h := received_processInput cfg sid 1 env
        (s.setSession sid { s.sessions sid with readPaused := false })
      rw [State.setSession_self] at h
      rw [resumeRead]
      dsimp only
      rw [if_neg (by rw [hopen]; exact Bool.false_ne_true)]
      split
      · rw [State.setSession_self]
        exact h
      · exact h
    rw [resumeTaken, if_neg (by rw [hopen]; exact Bool.false_ne_true)]
    refine ⟨?_, ?_⟩
    · show sid < (resumeRead cfg sid env s).1.count
      rw [hlocal.count]
      exact hsid
    · show _ <+: ((resumeRead cfg sid env s).1.sessions sid).received
      rw [hsame]

theorem received_run {es : List (Event ρ)} :
    ∀ {s s' : State ρ}, Served cfg s → sid < s.count → runFrom (step cfg) s es = some s' →
      (s.sessions sid).received <+: (s'.sessions sid).received := by
  induction es with
  | nil =>
    intro s s' _ _ hrun
    obtain rfl := Option.some.inj hrun
    exact List.prefix_rfl
  | cons e es ih =>
    intro s s' hserved hsid hrun
    obtain ⟨t, hs, hrest⟩ := runFrom_cons.1 hrun
    obtain ⟨hsid', hgrow⟩ := received_step hserved hsid hs
    exact hgrow.trans (ih (hserved.step hs) hsid' hrest)

/-- `DataIn` is a read of `bytes`, and perhaps a close; its flag tells that the buffer is still
full. -/
theorem channelDataIn_cases {recvs : List Recv} {filled : Bool}
    (hbound : (s.sessions sid).buffer.length ≤ limits.maxReceiveBufferBytes)
    (h : channelDataIn cfg limits sid recvs env s = some (s', filled)) :
    ∃ bytes leave, readLoop (receiveAllowance limits (s.sessions sid)) recvs [] = some (bytes, leave) ∧
      ((s.sessions sid).buffer ++ bytes).length ≤ limits.maxReceiveBufferBytes ∧
      (s' = dataIn cfg sid bytes env s ∨ s' = closeSession sid (dataIn cfg sid bytes env s)) ∧
      (filled = true ↔ ((dataIn cfg sid bytes env s).sessions sid).closed = false ∧
        limits.maxReceiveBufferBytes ≤
          ((dataIn cfg sid bytes env s).sessions sid).buffer.length) := by
  have hallow : ∀ v : Session ρ,
      receiveAllowance limits v = limits.maxReceiveBufferBytes - v.buffer.length := by
    intro v
    rw [receiveAllowance]
    split
    · rfl
    · omega
  rw [channelDataIn] at h
  cases hread : readLoop (receiveAllowance limits (s.sessions sid)) recvs [] with
  | none =>
    rw [hread] at h
    cases h
  | some r =>
    obtain ⟨bytes, leave⟩ := r
    rw [hread] at h
    obtain ⟨hle, hfull⟩ := readLoop_full recvs (Nat.zero_le _) hread
    have hlen : ((s.sessions sid).buffer ++ bytes).length ≤ limits.maxReceiveBufferBytes := by
      rw [hallow] at hle
      rw [List.length_append]
      omega
    have hswap : swapInBuff cfg limits sid bytes env s = (dataIn cfg sid bytes env s, false) := by
      rw [swapInBuff, if_neg (Nat.not_lt.2 hle)]
    -- where the channel is not full, there is room in the buffer
    have hroom : leave ≠ .full → ¬ (((dataIn cfg sid bytes env s).sessions sid).closed = false ∧
        limits.maxReceiveBufferBytes ≤
          ((dataIn cfg sid bytes env s).sessions sid).buffer.length) := by
      rintro hnot ⟨-, hmax⟩
      have hno : ¬ receiveAllowance limits (s.sessions sid) ≤ bytes.length :=
        fun hge => hnot (hfull.2 hge)
      have hshort := buffer_dataIn cfg sid bytes env s
      rw [hallow] at hno
      rw [List.length_append] at hshort
      omega
    refine ⟨bytes, leave, rfl, hlen, ?_⟩
    dsimp only at h
    rw [hswap] at h
    cases leave with
    | full =>
      dsimp only at h
      split at h
      · rename_i hcond
        obtain ⟨rfl, rfl⟩ := Prod.mk.inj (Option.some.inj h)
        rw [hallow, Bool.and_eq_true, beq_iff_eq] at hcond
        refine ⟨Or.inr rfl, fun _ => ⟨by simpa using hcond.1, by omega⟩, fun _ => rfl⟩
      · rename_i hcond
        obtain ⟨rfl, rfl⟩ := Prod.mk.inj (Option.some.inj h)
        refine ⟨Or.inl rfl, fun hf => (by cases hf), ?_⟩
        rintro ⟨hopen, hmax⟩
        refine absurd ?_ hcond
        rw [hallow, hopen, Bool.and_eq_true, beq_iff_eq]
        exact ⟨rfl, by omega⟩
    | finish =>
      obtain ⟨rfl, rfl⟩ := Prod.mk.inj (Option.some.inj h)
      exact ⟨Or.inl rfl, fun hf => (by cases hf), fun hf => absurd hf (hroom (by simp))⟩
    | fault | closed =>
      obtain ⟨rfl, rfl⟩ := Prod.mk.inj (Option.some.inj h)
      exact ⟨Or.inr rfl, fun hf => (by cases hf), fun hf => absurd hf (hroom (by simp))⟩

/-- Input comes through the channel only. -/
theorem channelStep_other {e : Event ρ} (h : channelStep cfg limits s (.other e) = some s') :
    step cfg s e = some s' ∧ ∀ m chunk env, e ≠ .dataIn m chunk env := by
  cases e with
  | dataIn m chunk env => cases h
  | _ => exact ⟨h, fun _ _ _ => by simp⟩

/-- What holds of a run with the channel: it is one of the proxy, and no buffer is over its limit.
-/
structure Received (cfg : Config) (limits : ReceiveLimits) (s : State ρ) : Prop where
  reached : ∃ es, runFrom (step cfg) State.init es = some s
  bounded : ∀ sid, (s.sessions sid).buffer.length ≤ limits.maxReceiveBufferBytes

theorem received_init (cfg : Config) (limits : ReceiveLimits) :
    Received cfg limits (State.init : State ρ) :=
  ⟨⟨[], rfl⟩, fun _ => Nat.zero_le _⟩

namespace Received

theorem served (h : Received cfg limits s) : Served cfg s := by
  obtain ⟨es, hrun⟩ := h.reached
  exact served_run hrun

/-- A step with the channel is a short run of the proxy. -/
theorem simulates (h : Received cfg limits s) {e : ChannelEvent ρ}
    (hs : channelStep cfg limits s e = some s') : ∃ es, runFrom (step cfg) s es = some s' := by
  cases e with
  | other e => exact ⟨[e], runFrom_cons.2 ⟨s', (channelStep_other hs).1, rfl⟩⟩
  | readable sid recvs env =>
    obtain ⟨hn, hs⟩ := Option.ite_none_right_eq_some.1 hs
    obtain ⟨⟨t, filled⟩, hin, rfl⟩ := Option.map_eq_some_iff.1 hs
    obtain ⟨bytes, leave, -, -, hs', -⟩ := channelDataIn_cases (h.bounded sid) hin
    have hdata : step cfg s (.dataIn sid bytes env) = some (dataIn cfg sid bytes env s) := by
      rw [step, if_pos hn]
    have hloop := (((h.served.idle hn.1).dataIn h.served.sound sid bytes env).2.loop).trans hn.1
    rcases hs' with heq | heq
    · exact ⟨[.dataIn sid bytes env], runFrom_cons.2 ⟨_, hdata, by rw [heq]; rfl⟩⟩
    · cases hc : ((dataIn cfg sid bytes env s).sessions sid).closed with
      | true =>
        rw [closeSession_of_closed hc] at heq
        exact ⟨[.dataIn sid bytes env], runFrom_cons.2 ⟨_, hdata, by rw [heq]; rfl⟩⟩
      | false =>
        refine ⟨[.dataIn sid bytes env, .close sid], runFrom_cons.2 ⟨_, hdata, ?_⟩⟩
        refine runFrom_cons.2
          ⟨closeSession sid (dataIn cfg sid bytes env s), ?_, by rw [heq]; rfl⟩
        rw [step, if_pos ⟨hloop, hc⟩]

end Received

namespace Received

theorem step (h : Received cfg limits s) {e : ChannelEvent ρ}
    (hs : channelStep cfg limits s e = some s') : Received cfg limits s' := by
  obtain ⟨es, hrun⟩ := h.reached
  obtain ⟨es', hrun'⟩ := h.simulates hs
  refine ⟨⟨es ++ es', runFrom_append.2 ⟨s, hrun, hrun'⟩⟩, ?_⟩
  intro sid
  cases e with
  | other e =>
    obtain ⟨hstep, hnot⟩ := channelStep_other hs
    cases inputStep h.served sid hstep with
    | frame hpassed hf =>
      rw [hf.buffer]
      exact h.bounded sid
    | added hsid =>
      show ((s.setSession s.count _).sessions sid).buffer.length ≤ _
      rw [hsid, State.setSession_self]
      exact Nat.zero_le _
    | dataIn chunk env hloop => exact absurd rfl (hnot sid chunk env)
    | resumed l remaining progress env hloop hopen =>
      have hshort := buffer_processInput cfg sid 1 env
        (s.setSession sid { s.sessions sid with readPaused := false })
      rw [State.setSession_self] at hshort
      refine Nat.le_trans ?_ (h.bounded sid)
      rw [Proxy.resumeTaken, if_neg (by rw [hopen]; exact Bool.false_ne_true)]
      show ((Proxy.resumeRead cfg sid env s).1.sessions sid).buffer.length ≤ _
      rw [Proxy.resumeRead]
      dsimp only
      rw [if_neg (by rw [hopen]; exact Bool.false_ne_true)]
      split
      · rw [State.setSession_self]
        exact hshort
      · exact hshort
  | readable m recvs env =>
    obtain ⟨hn, hs⟩ := Option.ite_none_right_eq_some.1 hs
    obtain ⟨⟨t, filled⟩, hin, rfl⟩ := Option.map_eq_some_iff.1 hs
    obtain ⟨bytes, leave, -, hlen, hs', -⟩ := channelDataIn_cases (h.bounded m) hin
    have hlocal := ((h.served.idle hn.1).dataIn h.served.sound m bytes env).2
    have hclose := @InputFrame.closeSession _ sid m (dataIn cfg m bytes env s)
    have hdata : ((dataIn cfg m bytes env s).sessions sid).buffer.length ≤
        limits.maxReceiveBufferBytes := by
      by_cases hm : sid = m
      · rw [hm]
        exact Nat.le_trans (buffer_dataIn cfg m bytes env s) hlen
      · rw [hlocal.sessions sid hm]
        exact h.bounded sid
    rcases hs' with heq | heq
    · rw [heq]
      exact hdata
    · rw [heq, hclose.buffer]
      exact hdata

theorem run {es : List (ChannelEvent ρ)} (h : Received cfg limits s)
    (hrun : runFrom (channelStep cfg limits) s es = some s') : Received cfg limits s' :=
  runFrom_invariant (fun _ _ _ hI hs => hI.step hs) h hrun

/-- The input of a session is only added to. -/
theorem grows {es : List (ChannelEvent ρ)} :
    ∀ {s s' : State ρ}, Received cfg limits s → sid < s.count →
      runFrom (channelStep cfg limits) s es = some s' →
      (s.sessions sid).received <+: (s'.sessions sid).received := by
  induction es with
  | nil =>
    intro s s' _ _ hrun
    obtain rfl := Option.some.inj hrun
    exact List.prefix_rfl
  | cons e es ih =>
    intro s s' h hsid hrun
    obtain ⟨t, hs, hrest⟩ := runFrom_cons.1 hrun
    obtain ⟨es', hproxy⟩ := h.simulates hs
    have hcount : sid < t.count :=
      @runFrom_invariant _ _ (Proxy.step cfg) (fun u => Served cfg u ∧ sid < u.count)
        (fun u e u' hu hstep => ⟨hu.1.step hstep, (received_step hu.1 hu.2 hstep).1⟩) es' s t
        ⟨h.served, hsid⟩ hproxy |>.2
    exact (received_run h.served hsid hproxy).trans (ih (h.step hs) hcount hrest)

/-- What an open session has in its buffer is what is left of a stream of legal commands. -/
theorem legal_buffer (h : Received cfg limits s) (hopen : (s.sessions sid).closed = false)
    {cs : List Command} (hlegal : ∀ c ∈ cs, Legal cfg c) {more : List UInt8}
    (hstream : (s.sessions sid).received ++ more = cs.flatMap Command.encode) :
    ∃ cs' : List Command, (∀ c ∈ cs', Legal cfg c) ∧
      (s.sessions sid).buffer ++ more = cs'.flatMap Command.encode := by
  obtain ⟨es, hrun⟩ := h.reached
  have hp := Parsed.run (parsed_init cfg sid) (served_init cfg) hrun
  exact legal_rest ((hp.stands.of_open hopen).append more) hlegal hstream

end Received

/-- A legal session is not refused, whatever the budget. -/
theorem refusesInput_legal {budget : Nat} (more : List UInt8) (hlegal : ∀ c ∈ cs, Legal cfg c)
    (hstream : (s.sessions sid).buffer ++ more = cs.flatMap Command.encode) :
    refusesInput cfg sid budget env s = false := by
  rw [refusesInput]
  split
  · rfl
  · exact refusesLoop_legal budget hlegal hstream

/-- One step: a session that sends legal commands is closed for its input if and only if the step is
a read that leaves no room. -/
theorem closesForInput_iff {e : ChannelEvent ρ} (h : Received cfg limits s)
    (hs : channelStep cfg limits s e = some s') (hlegal : ∀ c ∈ cs, Legal cfg c)
    (hstream : (s.sessions sid).closed = false →
      (s'.sessions sid).received <+: cs.flatMap Command.encode) :
    closesForInput cfg limits sid s e = false ↔ ReadLeavesRoom cfg limits sid s e := by
  cases e with
  | readable m recvs env =>
    rw [closesForInput, ReadLeavesRoom]
    by_cases hm : m = sid
    · subst hm
      obtain ⟨hn, hs⟩ := Option.ite_none_right_eq_some.1 hs
      obtain ⟨⟨t, filled⟩, hin, rfl⟩ := Option.map_eq_some_iff.1 hs
      obtain ⟨bytes, leave, hread, hlen, hs', hover⟩ := channelDataIn_cases (h.bounded m) hin
      rw [if_pos rfl, hread, hin]
      dsimp only [Option.map_some, Option.getD_some]
      have hleaves : (m = m → ∀ bytes' leave', some (bytes, leave) = some (bytes', leave') →
          LeavesRoom cfg limits m bytes' s) ↔ LeavesRoom cfg limits m bytes s := by
        constructor
        · intro hall
          exact hall rfl bytes leave rfl
        · rintro hr - bytes' leave' heq
          obtain ⟨rfl, -⟩ := Prod.mk.inj (Option.some.inj heq)
          exact hr
      rw [hleaves]
      by_cases hclosed : (s.sessions m).closed = true
      · -- nothing happens to a closed session
        have hlocal := ((h.served.idle hn.1).dataIn h.served.sound m bytes env).2
        have hstill := hlocal.closed hclosed
        have hno : filled = false := by
          cases hov : filled with
          | false => rfl
          | true =>
            have hopen := (hover.1 hov).1
            rw [hstill] at hopen
            cases hopen
        have hskip : refusesInput cfg m 32 env (s.setSession m { s.sessions m with
            buffer := (s.sessions m).buffer ++ bytes
            received := (s.sessions m).received ++ bytes }) = false := by
          rw [refusesInput, State.setSession_self, if_pos (by simp [hclosed])]
        rw [hno, hskip]
        exact ⟨fun _ => Or.inl hclosed, fun _ => rfl⟩
      · have hopen : (s.sessions m).closed = false := by simpa using hclosed
        have hgot : ((s.sessions m).received ++ bytes) <+: cs.flatMap Command.encode := by
          have := hstream hopen
          rcases hs' with heq | heq
          · rw [heq, received_dataIn] at this
            exact this
          · rw [heq, (InputFrame.closeSession m (dataIn cfg m bytes env s)).received,
              received_dataIn] at this
            exact this
        obtain ⟨more, hmore⟩ := hgot
        rw [List.append_assoc] at hmore
        obtain ⟨cs', hlegal', hbuffer⟩ := h.legal_buffer hopen hlegal hmore
        rw [← List.append_assoc] at hbuffer
        have hgood : refusesInput cfg m 32 env (s.setSession m { s.sessions m with
            buffer := (s.sessions m).buffer ++ bytes
            received := (s.sessions m).received ++ bytes }) = false := by
          refine refusesInput_legal more hlegal' ?_
          rw [State.setSession_self]
          exact hbuffer
        have hiff := @dataIn_full_iff _ cfg limits m bytes more env s cs' hopen hlegal' hbuffer
          hlen
        rw [hgood, Bool.or_false]
        rw [hiff] at hover
        constructor
        · intro hov
          by_contra hno
          rw [hover.2 hno] at hov
          cases hov
        · intro hr
          cases hov : filled with
          | false => rfl
          | true => exact absurd hr (hover.1 hov)
    · rw [if_neg hm]
      exact ⟨fun _ he => absurd he hm, fun _ => rfl⟩
  | other e =>
    refine ⟨fun _ => trivial, fun _ => ?_⟩
    cases e with
    | resumeTaken env =>
      rw [closesForInput]
      split
      · rename_i l remaining progress m hloop
        split
        · rename_i hn
          obtain ⟨rfl, hopen⟩ := hn
          obtain ⟨es, hproxy⟩ := h.simulates hs
          have hknown := h.served.sound.forwarding.known m hopen
          obtain ⟨more, hmore⟩ := (received_run h.served hknown hproxy).trans (hstream hopen)
          obtain ⟨cs', hlegal', hbuffer⟩ := h.legal_buffer hopen hlegal hmore
          refine refusesInput_legal more hlegal' ?_
          rw [State.setSession_self]
          exact hbuffer
        · rfl
      · rfl
    | _ => rfl

/-- **When back-pressure leaves a legal client alone.**  In a run in which a session sends legal
commands only, whatever the pieces they come in, no step closes it for its input if and only if
every read leaves room in its buffer. -/
theorem closes_for_input_iff (cfg : Config) (limits : ReceiveLimits) (sid : Nat) {cs : List Command}
    (hlegal : ∀ c ∈ cs, Legal cfg c) {es : List (ChannelEvent ρ)} {s : State ρ}
    (hrun : runFrom (channelStep cfg limits) State.init es = some s)
    (hstream : (s.sessions sid).received <+: cs.flatMap Command.encode) :
    Along (channelStep cfg limits) (fun t e => closesForInput cfg limits sid t e = false)
        State.init es ↔
      Along (channelStep cfg limits) (ReadLeavesRoom cfg limits sid) State.init es := by
  refine along_congr hrun ?_
  intro es₁ e es₂ t t' _ hbefore hstep hafter
  have ht := (received_init cfg limits).run hbefore
  refine closesForInput_iff ht hstep hlegal ?_
  intro hopen
  -- what has come so far is a part of what comes in all
  have hknown := ht.served.sound.forwarding.known sid hopen
  obtain ⟨es', hproxy⟩ := ht.simulates hstep
  have hcount : sid < t'.count :=
    (@runFrom_invariant _ _ (step cfg) (fun u => Served cfg u ∧ sid < u.count)
      (fun u e u' hu hs => ⟨hu.1.step hs, (received_step hu.1 hu.2 hs).1⟩) es' t t'
      ⟨ht.served, hknown⟩ hproxy).2
  exact ((ht.step hstep).grows hcount hafter).trans hstream

/-! ## A legal client that is closed -/

/-- `PING` as a command. -/
def pingCommand : Command where
  text := [49]
  arguments := [{ text := [52], data := [80, 73, 78, 71],
                  length := .plus (by constructor <;> decide +kernel), short := by decide }]
  count := .plus (by constructor <;> decide +kernel)
  nonempty := by simp

/-- Room for one command of 64 bytes at most. -/
def smallCredit : Config where
  maxPendingBytes := 64
  maxPendingCommands := 1
  commands_min := Nat.one_pos
  connections_min := Nat.one_pos

/-- The smallest buffer that `Init` accepts. -/
def smallBuffer : ReceiveLimits := { maxReceiveBufferBytes := 16, maxFrameBytes := 8 }

theorem pingCommand_legal : Legal smallCredit pingCommand := by
  constructor
  · decide
  · decide +kernel

/-- A session sends `PING` twice and the first byte of the next command; its second `PING` waits for
the reply to the first one. -/
def almostFull : List (ChannelEvent Nat) :=
  [.other (.dial 0 true), .other .addSession, .readable 0 [.data ping, .again] fun _ => {},
    .readable 0 [.data (ping ++ [42]), .again] fun _ => {}]

/-- The same with the second byte of the next command, which fills the buffer. -/
def filledUp : List (ChannelEvent Nat) :=
  [.other (.dial 0 true), .other .addSession, .readable 0 [.data ping, .again] fun _ => {},
    .readable 0 [.data (ping ++ [42, 49]), .again] fun _ => {}]

theorem closes_for_input_iff_almostFull :
    ∃ s, runFrom (channelStep smallCredit smallBuffer) State.init almostFull = some s ∧
      (Along (channelStep smallCredit smallBuffer)
          (fun t e => closesForInput smallCredit smallBuffer 0 t e = false) State.init almostFull ↔
        Along (channelStep smallCredit smallBuffer) (ReadLeavesRoom smallCredit smallBuffer 0)
          State.init almostFull) ∧
      Along (channelStep smallCredit smallBuffer)
        (fun t e => closesForInput smallCredit smallBuffer 0 t e = false) State.init almostFull := by
  have hend : (runFrom (channelStep smallCredit smallBuffer) State.init almostFull).map
      (fun s => decide ((s.sessions 0).received <+:
        [pingCommand, pingCommand, pingCommand].flatMap Command.encode)) = some true := by
    decide +kernel
  obtain ⟨s, hs, hreceived⟩ := Option.map_eq_some_iff.1 hend
  have hlegal : ∀ c ∈ [pingCommand, pingCommand, pingCommand], Legal smallCredit c := by
    simpa using pingCommand_legal
  exact ⟨s, hs, closes_for_input_iff smallCredit smallBuffer 0 hlegal hs (of_decide_eq_true hreceived),
    by decide +kernel⟩

/-- The session is closed with `ENOBUFS`, though it has sent legal commands only and one of them is
complete and waits for credit. -/
theorem closes_for_input_filledUp :
    ¬ ∀ (cfg : Config) (limits : ReceiveLimits) (sid : Nat) (cs : List Command),
      (∀ c ∈ cs, Legal cfg c) → ∀ (es : List (ChannelEvent Nat)) (s : State Nat),
      runFrom (channelStep cfg limits) State.init es = some s →
      (s.sessions sid).received <+: cs.flatMap Command.encode →
      Along (channelStep cfg limits) (fun t e => closesForInput cfg limits sid t e = false)
        State.init es := by
  intro hall
  have hend : (runFrom (channelStep smallCredit smallBuffer) State.init filledUp).map
      (fun s => decide ((s.sessions 0).received <+:
        [pingCommand, pingCommand, pingCommand].flatMap Command.encode)) = some true := by
    decide +kernel
  obtain ⟨s, hs, hreceived⟩ := Option.map_eq_some_iff.1 hend
  have hlegal : ∀ c ∈ [pingCommand, pingCommand, pingCommand], Legal smallCredit c := by
    simpa using pingCommand_legal
  have hnot : ¬ Along (channelStep smallCredit smallBuffer)
      (fun t e => closesForInput smallCredit smallBuffer 0 t e = false) State.init filledUp := by
    decide +kernel
  exact hnot (hall smallCredit smallBuffer 0 _ hlegal filledUp s hs (of_decide_eq_true hreceived))

end OpenIdea.Redis.Proxy
