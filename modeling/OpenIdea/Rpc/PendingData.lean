import OpenIdea.Lib.Before
import OpenIdea.Lib.Tally
import OpenIdea.Rpc.ClientSteps

/-!
# Raw data that waits for a connection

`SendRawOrPend` keeps data while the manager has no connection, and `OnAddSession` sends it under
the client lock. A session has been promised room for all of it: its limit is `iMaxSendQueueBytes`,
what is pending never exceeds that, and nobody else knows the session before the lock is released.
So the flush stops early only where the session has closed, and then later data is refused until the
next connect (`Kept.idle`, `Kept.stale`). The main result is `pending_kept`; the order of two
messages outside the lock is not kept (`handed_out_of_turn`).
-/

set_option autoImplicit false

namespace OpenIdea.Rpc.ClientManager

open OpenIdea.Lib OpenIdea.Lib.Runs OpenIdea.Lib.Tally

namespace Task

/-- The session that the task is about to make the current one. -/
def opens : Task → Option ℤ
  | .addSession sid | .flushPending sid => some sid
  | _ => none

/-- The session that the task sends to, or will. -/
def target : Task → Option ℤ
  | .claim _ sid | .submit _ sid | .sendRaw _ sid | .flushHeld sid | .flush sid _ => some sid
  | .flushSend sid _ _ => some sid
  | _ => none

/-- The message that the task is about to send. -/
def message : Task → Option Message
  | .sendRaw m _ => some m
  | _ => none

end Task

/-- The bytes of a list of messages. -/
def messageBytes (v : List Message) : ℕ := (v.map Message.size).sum

/-- The sessions that are being opened, and the room that the pending data needs. -/
structure Links (cfg : Config) (s : State) : Prop where
  phase : Phase s
  target : ∀ t ∈ s.tasks, ∀ sid ∈ t.target, sid ≤ s.iCurrentSessionId
  current : s.m_iSessionId ≤ s.iCurrentSessionId
  /-- Nobody sends to a session before `OnAddSession` has released the lock. -/
  opening : ∀ t ∈ s.tasks, ∀ sid ∈ t.opens, (0 < sid ∧ sid ≤ s.iCurrentSessionId) ∧
    (s.sessions sid).inMap = true ∧
    (s.sessions sid).maxSendQueueBytes = cfg.iMaxSendQueueBytes ∧
    ∀ u ∈ s.tasks, u.target ≠ some sid
  adding : ∀ sid, Task.addSession sid ∈ s.tasks →
    (s.sessions sid).queuedBytes = 0 ∧ s.m_iSessionId ≠ sid
  /-- The session has room for all that is pending. -/
  flushing : ∀ sid, Task.flushPending sid ∈ s.tasks →
    (s.sessions sid).queuedBytes + s.m_iPendingBytes ≤ cfg.iMaxSendQueueBytes ∧
      s.m_iSessionId = sid
  single : ∀ sid, s.tasks.countP (fun t => t.opens = some sid) ≤ 1
  bytes : s.m_iPendingBytes = messageBytes s.m_vPending
  limit : s.m_iPendingBytes ≤ cfg.iMaxSendQueueBytes

theorem links_init (cfg : Config) : Links cfg init where
  phase := phase_init
  target := fun _ ht => absurd ht List.not_mem_nil
  current := by decide
  opening := fun _ ht => absurd ht List.not_mem_nil
  adding := fun _ ht => absurd ht List.not_mem_nil
  flushing := fun _ ht => absurd ht List.not_mem_nil
  single := fun _ => Nat.zero_le _
  bytes := rfl
  limit := Nat.zero_le _

namespace Links

variable {cfg : Config} {s s' : State}

theorem perm (h : Links cfg s) {tasks : List Task} (hperm : tasks.Perm s.tasks) :
    Links cfg { s with tasks := tasks } where
  phase := h.phase.perm hperm
  target := fun t ht => h.target t (hperm.subset ht)
  current := h.current
  opening := fun t ht sid hsid => by
    obtain ⟨hrange, hmap, hmax, hfresh⟩ := h.opening t (hperm.subset ht) sid hsid
    exact ⟨hrange, hmap, hmax, fun u hu => hfresh u (hperm.subset hu)⟩
  adding := fun sid ht => h.adding sid (hperm.subset ht)
  flushing := fun sid ht => h.flushing sid (hperm.subset ht)
  single := fun sid => (hperm.countP_eq _).trans_le (h.single sid)
  bytes := h.bytes
  limit := h.limit

/-- A step that replaces the tasks `rem` by `add`. -/
theorem next (h : Links cfg s) (hphase : Phase s') (rem add : List Task) {rest : List Task}
    (htasks : s.tasks = rem ++ rest) (htasks' : s'.tasks = add ++ rest)
    (hgrow : s.iCurrentSessionId ≤ s'.iCurrentSessionId)
    (hcurrent : s'.m_iSessionId ≤ s'.iCurrentSessionId)
    (hsessions : ∀ sid : ℤ, sid ≤ s.iCurrentSessionId →
      (s'.sessions sid).inMap = (s.sessions sid).inMap ∧
        (s'.sessions sid).maxSendQueueBytes = (s.sessions sid).maxSendQueueBytes)
    (htarget : ∀ t ∈ add, ∀ sid ∈ t.target, sid ≤ s.iCurrentSessionId ∧
      ∀ u ∈ add ++ rest, u.opens ≠ some sid)
    (hopens : ∀ t ∈ add, ∀ sid ∈ t.opens, (0 < sid ∧ sid ≤ s'.iCurrentSessionId) ∧
      (s'.sessions sid).inMap = true ∧
      (s'.sessions sid).maxSendQueueBytes = cfg.iMaxSendQueueBytes ∧
      ∀ u ∈ rest, u.target ≠ some sid)
    (hadding : ∀ sid, Task.addSession sid ∈ s'.tasks →
      (s'.sessions sid).queuedBytes = 0 ∧ s'.m_iSessionId ≠ sid)
    (hflushing : ∀ sid, Task.flushPending sid ∈ s'.tasks →
      (s'.sessions sid).queuedBytes + s'.m_iPendingBytes ≤ cfg.iMaxSendQueueBytes ∧
        s'.m_iSessionId = sid)
    (hsingle : ∀ sid, s'.tasks.countP (fun t => t.opens = some sid) ≤ 1)
    (hbytes : s'.m_iPendingBytes = messageBytes s'.m_vPending)
    (hlimit : s'.m_iPendingBytes ≤ cfg.iMaxSendQueueBytes) : Links cfg s' where
  phase := hphase
  target := by
    intro t ht sid hsid
    rw [htasks'] at ht
    rcases List.mem_append.1 ht with ht | ht
    · exact (htarget t ht sid hsid).1.trans (by exact_mod_cast hgrow)
    · exact (h.target t (htasks ▸ List.mem_append_right _ ht) sid hsid).trans
        (by exact_mod_cast hgrow)
  current := hcurrent
  opening := by
    intro t ht sid hsid
    rw [htasks'] at ht
    have hadd : ∀ u ∈ add, u.target ≠ some sid := fun u hu heq =>
      (htarget u hu sid heq).2 t ht hsid
    rcases List.mem_append.1 ht with ht | ht
    · obtain ⟨hrange, hmap, hmax, hfresh⟩ := hopens t ht sid hsid
      refine ⟨hrange, hmap, hmax, fun u hu => ?_⟩
      rw [htasks'] at hu
      exact (List.mem_append.1 hu).elim (hadd u) (hfresh u)
    · obtain ⟨⟨hpos, hle⟩, hmap, hmax, hfresh⟩ :=
        h.opening t (htasks ▸ List.mem_append_right _ ht) sid hsid
      obtain ⟨hmap', hmax'⟩ := hsessions sid hle
      refine ⟨⟨hpos, hle.trans (by exact_mod_cast hgrow)⟩, hmap' ▸ hmap, hmax' ▸ hmax,
        fun u hu => ?_⟩
      rw [htasks'] at hu
      rcases List.mem_append.1 hu with hu | hu
      · exact hadd u hu
      · exact hfresh u (htasks ▸ List.mem_append_right _ hu)
  adding := hadding
  flushing := hflushing
  single := hsingle
  bytes := hbytes
  limit := hlimit

end Links

variable {cfg : Config} {s s' : State} {e : Event} {sid : ℤ} {x y : ℕ}

variable {t : Task} {m : Message} {tasks : List Task} {n : ℕ}

/-- The current session, outside the lock, is not being opened. -/
theorem Links.not_opening (h : Links cfg s) (hfree : s.locked = false) (ht : t ∈ s.tasks) :
    t.opens ≠ some s.m_iSessionId := by
  intro heq
  cases t with
  | addSession sid =>
    obtain rfl := Option.some.inj heq
    exact (h.adding _ ht).2 rfl
  | flushPending sid =>
    have hlock := h.phase.not_holdsLock hfree ht
    cases hlock
  | _ => cases heq

/-- A step that neither begins nor ends the opening of a session. -/
theorem Links.still (h : Links cfg s) (hphase : Phase s') (rem add : List Task) {rest : List Task}
    (htasks : s.tasks = rem ++ rest) (htasks' : s'.tasks = add ++ rest)
    (hidle : ∀ t ∈ rem ++ add, t.opens = none)
    (htarget : ∀ t ∈ add, ∀ sid ∈ t.target, (∃ u ∈ rem, u.target = some sid) ∨
      (s.locked = false ∧ s.m_iSessionId = sid)) (hids : s'.iCurrentSessionId = s.iCurrentSessionId)
    (hcurrent : s'.m_iSessionId = s.m_iSessionId ∨
      (s'.m_iSessionId = invalidSid ∧ s.locked = false))
    (hsessions : ∀ sid, (s'.sessions sid).inMap = (s.sessions sid).inMap ∧
      (s'.sessions sid).maxSendQueueBytes = (s.sessions sid).maxSendQueueBytes)
    (hqueued : ∀ sid, (∀ u ∈ s.tasks, u.target ≠ some sid) →
      (s'.sessions sid).queuedBytes ≤ (s.sessions sid).queuedBytes)
    (hpending : s.locked = false ∨ s'.m_iPendingBytes ≤ s.m_iPendingBytes)
    (hbytes : s'.m_iPendingBytes = messageBytes s'.m_vPending)
    (hlimit : s'.m_iPendingBytes ≤ cfg.iMaxSendQueueBytes) : Links cfg s' := by
  have hnone : ∀ t ∈ add, t.opens = none := fun t ht => hidle t (List.mem_append_right _ ht)
  have hrem : ∀ t ∈ rem, t.opens = none := fun t ht => hidle t (List.mem_append_left _ ht)
  have hopens : ∀ {t : Task} {sid : ℤ}, t.opens = some sid → t ∈ s'.tasks → t ∈ s.tasks := by
    intro t sid ht hmem
    rw [htasks'] at hmem
    rcases List.mem_append.1 hmem with hmem | hmem
    · rw [hnone t hmem] at ht
      cases ht
    · exact htasks ▸ List.mem_append_right _ hmem
  have hcount : ∀ sid, s'.tasks.countP (fun t => t.opens = some sid) =
      s.tasks.countP (fun t => t.opens = some sid) := by
    intro sid
    have hzero : ∀ l : List Task, (∀ t ∈ l, t.opens = none) →
        l.countP (fun t => t.opens = some sid) = 0 := by
      intro l hl
      refine List.countP_eq_zero.2 fun t ht => ?_
      simp [hl t ht]
    rw [htasks, htasks', List.countP_append, List.countP_append, hzero add hnone, hzero rem hrem]
  refine h.next hphase rem add htasks htasks' (Nat.le_of_eq hids.symm) ?_
    (fun sid _ => hsessions sid) ?_ ?_ ?_ ?_ (fun sid => (hcount sid).trans_le (h.single sid))
    hbytes hlimit
  · rw [hids]
    rcases hcurrent with heq | ⟨heq, -⟩
    · rw [heq]
      exact h.current
    · rw [heq]
      exact (show invalidSid ≤ 0 by decide).trans (Int.natCast_nonneg _)
  · intro t ht sid hsid
    rcases htarget t ht sid hsid with ⟨u, hu, hut⟩ | ⟨hfree, rfl⟩
    · have hmem : u ∈ s.tasks := htasks ▸ List.mem_append_left _ hu
      refine ⟨h.target u hmem sid hut, fun v hv hvo => ?_⟩
      exact (h.opening v (hopens hvo (htasks' ▸ hv)) sid hvo).2.2.2 u hmem hut
    · exact ⟨h.current, fun v hv hvo => h.not_opening hfree (hopens hvo (htasks' ▸ hv)) hvo⟩
  · intro t ht sid hsid
    rw [hnone t ht] at hsid
    cases hsid
  · intro sid ht
    have ht' := hopens (t := .addSession sid) rfl ht
    obtain ⟨hempty, hother⟩ := h.adding sid ht'
    obtain ⟨⟨hpos, -⟩, -, -, hfresh⟩ := h.opening _ ht' sid rfl
    refine ⟨Nat.le_zero.1 (hempty ▸ hqueued sid hfresh), ?_⟩
    rcases hcurrent with heq | ⟨heq, -⟩
    · rw [heq]
      exact hother
    · rw [heq]
      rintro rfl
      exact absurd hpos (by decide)
  · intro sid ht
    have ht' := hopens (t := .flushPending sid) rfl ht
    have hlock : s.locked ≠ false := fun hfree => by
      have hholds := h.phase.not_holdsLock hfree ht'
      cases hholds
    obtain ⟨hroom, hsame⟩ := h.flushing sid ht'
    have hle := hqueued sid (h.opening _ ht' sid rfl).2.2.2
    have hle' := hpending.resolve_left hlock
    exact ⟨by omega, (hcurrent.resolve_right fun hc => hlock hc.2).trans hsame⟩

/-! ## The steps of calls -/

/-- What a step of a call does to the connection, the sessions and the pending data. -/
inductive CallFrame (e : Event) (s s' : State) : Prop where
  | mk (rem add rest : List Task) (htasks : s.tasks = rem ++ rest) (htasks' : s'.tasks = add ++ rest)
      (hidle : ∀ t ∈ rem ++ add, t.opens = none ∧ t.message = none)
      (htarget : ∀ t ∈ add, ∀ sid ∈ t.target, (∃ u ∈ rem, u.target = some sid) ∨
        (s.locked = false ∧ s.canSend = true ∧ s.m_iSessionId = sid))
      (hconnection : s'.m_iSessionId = s.m_iSessionId ∧ s'.m_bConnected = s.m_bConnected ∧
        s'.iCurrentSessionId = s.iCurrentSessionId)
      (hmessages : s'.messages = s.messages ∧ s'.handedRaw = s.handedRaw)
      (hpending : (s'.m_vPending = s.m_vPending ∧ s'.m_iPendingBytes = s.m_iPendingBytes) ∨
        (e = .failHeldCalls ∧ s'.m_vPending = [] ∧ s'.m_iPendingBytes = 0))
      (hsessions : s'.sessions = s.sessions ∨ ∃ u ∈ rem, ∃ sid n stSession, u.target = some sid ∧
        Accepts (s.sessions sid) n stSession ∧
          s'.sessions = Function.update s.sessions sid stSession)

theorem callFrame_takeSlot (rem : List Task) {rest : List Task} (i : ℕ) (hrest : s.tasks = rest)
    (hrem : ∀ t ∈ rem, t.opens = none ∧ t.message = none) :
    CallFrame e { s with tasks := rem ++ rest } (s.takeSlot i) := by
  rw [State.takeSlot]
  cases s.calls i with
  | none =>
    exact .mk rem [] rest rfl hrest (by simpa using hrem) (by simp) ⟨rfl, rfl, rfl⟩ ⟨rfl, rfl⟩
      (Or.inl ⟨rfl, rfl⟩) (Or.inl rfl)
  | some stSlot =>
    refine .mk rem [.finish i stSlot.bAwaitingConnect] rest rfl (congrArg _ hrest) ?_
      (by simp [Task.target]) ⟨rfl, rfl, rfl⟩ ⟨rfl, rfl⟩ (Or.inl ⟨rfl, rfl⟩) (Or.inl rfl)
    intro t ht
    rcases List.mem_append.1 ht with ht | ht
    · exact hrem t ht
    · rw [List.mem_singleton.1 ht]
      exact ⟨rfl, rfl⟩

/-- A step of a call that changes only what calls use. -/
theorem callFrame_plain (rem add : List Task) {rest : List Task} (htasks : s.tasks = rem ++ rest)
    (htasks' : s'.tasks = add ++ rest) (hidle : ∀ t ∈ rem ++ add, t.opens = none ∧ t.message = none)
    (htarget : ∀ t ∈ add, ∀ sid ∈ t.target, ∃ u ∈ rem, u.target = some sid)
    (hconnection : s'.m_iSessionId = s.m_iSessionId ∧ s'.m_bConnected = s.m_bConnected ∧
      s'.iCurrentSessionId = s.iCurrentSessionId)
    (hmessages : s'.messages = s.messages ∧ s'.handedRaw = s.handedRaw)
    (hpending : s'.m_vPending = s.m_vPending ∧ s'.m_iPendingBytes = s.m_iPendingBytes)
    (hsessions : s'.sessions = s.sessions) : CallFrame e s s' :=
  .mk rem add rest htasks htasks' hidle (fun t ht sid hsid => Or.inl (htarget t ht sid hsid))
    hconnection hmessages (Or.inl hpending) (Or.inl hsessions)

theorem callFrame_callMoves (hmoves : CallMoves e s s') : CallFrame e s s' := by
  cases hmoves with
  | bind | limits | left =>
    exact callFrame_plain [] [] rfl rfl (by simp) (by simp) ⟨rfl, rfl, rfl⟩ ⟨rfl, rfl⟩ ⟨rfl, rfl⟩ rfl
  | direct s c hfree _ _ hcan =>
    refine .mk [] [.claim c s.m_iSessionId] _ rfl rfl (by simp [Task.opens, Task.message]) ?_
      ⟨rfl, rfl, rfl⟩ ⟨rfl, rfl⟩ (Or.inl ⟨rfl, rfl⟩) (Or.inl rfl)
    intro t ht sid hsid
    rw [List.mem_singleton.1 ht] at hsid
    exact Or.inr ⟨hfree, hcan, Option.some.inj hsid⟩
  | refused _ s c =>
    exact callFrame_plain [] [.wake c.callId] rfl rfl (by simp [Task.opens, Task.message])
      (by simp [Task.target]) ⟨rfl, rfl, rfl⟩ ⟨rfl, rfl⟩ ⟨rfl, rfl⟩ rfl
  | holding _ s c =>
    exact callFrame_plain [] [.mark c] rfl rfl (by simp [Task.opens, Task.message])
      (by simp [Task.target]) ⟨rfl, rfl, rfl⟩ ⟨rfl, rfl⟩ ⟨rfl, rfl⟩ rfl
  | failHeldCalls s =>
    exact .mk [] [.fail s.hold.held] _ rfl rfl (by simp [Task.opens, Task.message])
      (by simp [Task.target]) ⟨rfl, rfl, rfl⟩ ⟨rfl, rfl⟩ (Or.inr ⟨rfl, rfl, rfl⟩) (Or.inl rfl)
  | takeSlot s i => exact callFrame_takeSlot [] i rfl (by simp)
  | wake s i => exact callFrame_takeSlot [.wake i] i rfl (by simp [Task.opens, Task.message])
  | failNext s c v =>
    simp only [State.takeSlot]
    cases s.calls c.callId with
    | none =>
      exact callFrame_plain [.fail (c :: v)] [.fail v] rfl rfl
        (by simp [Task.opens, Task.message]) (by simp [Task.target]) ⟨rfl, rfl, rfl⟩ ⟨rfl, rfl⟩
        ⟨rfl, rfl⟩ rfl
    | some stSlot =>
      exact callFrame_plain [.fail (c :: v)]
        [.fail v, .finish c.callId stSlot.bAwaitingConnect] rfl rfl
        (by simp [Task.opens, Task.message]) (by simp [Task.target]) ⟨rfl, rfl, rfl⟩ ⟨rfl, rfl⟩
        ⟨rfl, rfl⟩ rfl
  | markMissed s c =>
    exact callFrame_plain [.mark c] [] rfl rfl (by simp [Task.opens, Task.message]) (by simp)
      ⟨rfl, rfl, rfl⟩ ⟨rfl, rfl⟩ ⟨rfl, rfl⟩ rfl
  | marked s c =>
    exact callFrame_plain [.mark c] [.queue c] rfl rfl (by simp [Task.opens, Task.message])
      (by simp [Task.target]) ⟨rfl, rfl, rfl⟩ ⟨rfl, rfl⟩ ⟨rfl, rfl⟩ rfl
  | queued s c =>
    exact callFrame_plain [.queue c] [] rfl rfl (by simp [Task.opens, Task.message]) (by simp)
      ⟨rfl, rfl, rfl⟩ ⟨rfl, rfl⟩ ⟨rfl, rfl⟩ rfl
  | claimMissed s c sid =>
    exact callFrame_plain [.claim c sid] [] rfl rfl (by simp [Task.opens, Task.message]) (by simp)
      ⟨rfl, rfl, rfl⟩ ⟨rfl, rfl⟩ ⟨rfl, rfl⟩ rfl
  | claimed s s₁ c sid hclaim =>
    obtain ⟨-, rfl⟩ := claimRpcSend_some hclaim
    exact callFrame_plain [.claim c sid] [.submit c sid] rfl rfl
      (by simp [Task.opens, Task.message]) (by simp [Task.target]) ⟨rfl, rfl, rfl⟩ ⟨rfl, rfl⟩
      ⟨rfl, rfl⟩ rfl
  | sent s s₁ c sid hsend =>
    obtain ⟨stSession, haccepts, rfl⟩ := sendCall_some hsend
    exact .mk [.submit c sid] [] _ rfl rfl (by simp [Task.opens, Task.message]) (by simp)
      ⟨rfl, rfl, rfl⟩ ⟨rfl, rfl⟩ (Or.inl ⟨rfl, rfl⟩)
      (Or.inr ⟨_, List.mem_singleton_self _, sid, c.size, stSession, rfl, haccepts, rfl⟩)
  | sendFailed s c sid =>
    exact callFrame_plain [.submit c sid] [.wake c.callId] rfl rfl
      (by simp [Task.opens, Task.message]) (by simp [Task.target]) ⟨rfl, rfl, rfl⟩ ⟨rfl, rfl⟩
      ⟨rfl, rfl⟩ rfl
  | finished s i =>
    exact callFrame_plain [.finish i false] [] rfl rfl (by simp [Task.opens, Task.message])
      (by simp) ⟨rfl, rfl, rfl⟩ ⟨rfl, rfl⟩ ⟨rfl, rfl⟩ rfl
  | dropped s i hold =>
    exact callFrame_plain [.finish i true] [] rfl rfl (by simp [Task.opens, Task.message])
      (by simp) ⟨rfl, rfl, rfl⟩ ⟨rfl, rfl⟩ ⟨rfl, rfl⟩ rfl
  | flushHeld s sid =>
    exact callFrame_plain [.flushHeld sid] [.flush sid s.hold.held] rfl rfl
      (by simp [Task.opens, Task.message]) (by simp [Task.target]) ⟨rfl, rfl, rfl⟩ ⟨rfl, rfl⟩
      ⟨rfl, rfl⟩ rfl
  | flushDone s sid =>
    exact callFrame_plain [.flush sid []] [] rfl rfl (by simp [Task.opens, Task.message]) (by simp)
      ⟨rfl, rfl, rfl⟩ ⟨rfl, rfl⟩ ⟨rfl, rfl⟩ rfl
  | flushMissed s sid c v =>
    exact callFrame_plain [.flush sid (c :: v)] [.flush sid v] rfl rfl
      (by simp [Task.opens, Task.message]) (by simp [Task.target]) ⟨rfl, rfl, rfl⟩ ⟨rfl, rfl⟩
      ⟨rfl, rfl⟩ rfl
  | flushClaimed s s₁ sid c v hclaim =>
    obtain ⟨-, rfl⟩ := claimRpcSend_some hclaim
    exact callFrame_plain [.flush sid (c :: v)] [.flushSend sid c v] rfl rfl
      (by simp [Task.opens, Task.message]) (by simp [Task.target]) ⟨rfl, rfl, rfl⟩ ⟨rfl, rfl⟩
      ⟨rfl, rfl⟩ rfl
  | flushSent s s₁ sid c v hsend =>
    obtain ⟨stSession, haccepts, rfl⟩ := sendCall_some hsend
    exact .mk [.flushSend sid c v] [.flush sid v] _ rfl rfl (by simp [Task.opens, Task.message])
      (by simp [Task.target]) ⟨rfl, rfl, rfl⟩ ⟨rfl, rfl⟩ (Or.inl ⟨rfl, rfl⟩)
      (Or.inr ⟨_, List.mem_singleton_self _, sid, c.size, stSession, rfl, haccepts, rfl⟩)
  | flushFailed s sid c v =>
    exact callFrame_plain [.flushSend sid c v] [.flush sid v, .wake c.callId] rfl rfl
      (by simp [Task.opens, Task.message]) (by simp [Task.target]) ⟨rfl, rfl, rfl⟩ ⟨rfl, rfl⟩
      ⟨rfl, rfl⟩ rfl
  | failDone s =>
    exact callFrame_plain [.fail []] [] rfl rfl (by simp [Task.opens, Task.message]) (by simp)
      ⟨rfl, rfl, rfl⟩ ⟨rfl, rfl⟩ ⟨rfl, rfl⟩ rfl

namespace CallFrame

/-- A step of a call may fill a session; it closes none and changes no limit. -/
theorem session (h : CallFrame e s s') (sid : ℤ) :
    (s'.sessions sid).inMap = (s.sessions sid).inMap ∧
      (s'.sessions sid).maxSendQueueBytes = (s.sessions sid).maxSendQueueBytes ∧
      (s'.sessions sid).closed = (s.sessions sid).closed := by
  cases h with
  | mk rem add rest _ _ _ _ _ _ _ hsessions =>
    rcases hsessions with heq | ⟨u, -, sid', n, stSession, -, haccepts, heq⟩
    · rw [heq]
      exact ⟨rfl, rfl, rfl⟩
    · by_cases hsid : sid = sid'
      · subst hsid
        rw [heq, Function.update_self, haccepts.eq]
        exact ⟨rfl, rfl, rfl⟩
      · rw [heq, Function.update_of_ne hsid]
        exact ⟨rfl, rfl, rfl⟩

/-- A session that no task sends to keeps its queue. -/
theorem queued (h : CallFrame e s s') {sid : ℤ} (hsid : ∀ u ∈ s.tasks, u.target ≠ some sid) :
    (s'.sessions sid).queuedBytes = (s.sessions sid).queuedBytes := by
  cases h with
  | mk rem add rest htasks _ _ _ _ _ _ hsessions =>
    rcases hsessions with heq | ⟨u, hu, sid', n, stSession, hut, -, heq⟩
    · rw [heq]
    · have hne : sid ≠ sid' := by
        rintro rfl
        exact hsid u (htasks ▸ List.mem_append_left _ hu) hut
      rw [heq, Function.update_of_ne hne]

end CallFrame

theorem links_callMoves (h : Links cfg s) (hmoves : CallMoves e s s') : Links cfg s' := by
  have hframe := callFrame_callMoves hmoves
  have hphase := phase_callMoves h.phase hmoves
  have hsession := hframe.session
  have hqueued := @CallFrame.queued _ _ _ hframe
  cases hframe with
  | mk rem add rest htasks htasks' hidle htarget hconnection _ hpending =>
    refine h.still hphase rem add htasks htasks' (fun t ht => (hidle t ht).1) ?_
      hconnection.2.2 (Or.inl hconnection.1) (fun sid => ⟨(hsession sid).1, (hsession sid).2.1⟩)
      (fun sid hsid => Nat.le_of_eq (hqueued hsid)) (Or.inr ?_) ?_ ?_
    · intro t ht sid hsid
      exact (htarget t ht sid hsid).imp_right fun ⟨hfree, _, heq⟩ => ⟨hfree, heq⟩
    · rcases hpending with ⟨-, hbytes⟩ | ⟨-, -, hbytes⟩
      · exact Nat.le_of_eq hbytes
      · exact hbytes ▸ Nat.zero_le _
    · rcases hpending with ⟨hv, hbytes⟩ | ⟨-, hv, hbytes⟩
      · rw [hv, hbytes]
        exact h.bytes
      · rw [hv, hbytes]
        rfl
    · rcases hpending with ⟨-, hbytes⟩ | ⟨-, -, hbytes⟩
      · rw [hbytes]
        exact h.limit
      · rw [hbytes]
        exact Nat.zero_le _

/-! ## The steps of raw data -/

theorem messageBytes_append (v w : List Message) :
    messageBytes (v ++ w) = messageBytes v + messageBytes w := by
  simp [messageBytes]

/-- What is pended stays within both limits. -/
theorem pended_le {size iMax : ℕ}
    (hroom : s.pendingFull (min iMax cfg.iMaxSendQueueBytes) size = false) :
    s.m_iPendingBytes + size ≤ min iMax cfg.iMaxSendQueueBytes := by
  simp only [State.pendingFull, Bool.or_eq_false_iff, decide_eq_false_iff_not] at hroom
  omega

/-- A session is opened once. -/
theorem Links.not_opens_of_spawn {u : Task} (h : Links cfg (s.spawn t)) (ht : t.opens = some sid)
    (hu : u ∈ s.tasks) : u.opens ≠ some sid := by
  intro huo
  have hcount : (t :: s.tasks).countP (fun t => t.opens = some sid) ≤ 1 := h.single sid
  rw [List.countP_cons_of_pos (by simp [ht])] at hcount
  have hpos : 0 < s.tasks.countP (fun t => t.opens = some sid) :=
    List.countP_pos_iff.2 ⟨u, hu, by simp [huo]⟩
  omega

theorem links_addSession (h : Links cfg s) (hphase : Phase (s.addSession cfg)) :
    Links cfg (s.addSession cfg) := by
  have hnew : ∀ sid : ℤ, sid ≤ s.iCurrentSessionId → sid ≠ (s.iCurrentSessionId + 1 : ℕ) := by
    intro sid hle heq
    omega
  have hold : ∀ sid : ℤ, sid ≤ s.iCurrentSessionId →
      (s.addSession cfg).sessions sid = s.sessions sid := fun sid hle =>
    Function.update_of_ne (hnew sid hle) _ _
  have hself : (s.addSession cfg).sessions (s.iCurrentSessionId + 1 : ℕ) =
      ⟨true, false, 0, cfg.iMaxSendQueueBytes, none⟩ := Function.update_self _ _ _
  refine h.next hphase [] [.addSession (s.iCurrentSessionId + 1 : ℕ)] rfl rfl (Nat.le_succ _) ?_
    (fun sid hle => by rw [hold sid hle]; exact ⟨rfl, rfl⟩) ?_ ?_ ?_ ?_ ?_ h.bytes h.limit
  · exact h.current.trans (by exact_mod_cast Nat.le_succ _)
  · intro t ht sid hsid
    rw [List.mem_singleton.1 ht] at hsid
    cases hsid
  · intro t ht sid hsid
    rw [List.mem_singleton.1 ht] at hsid
    obtain rfl := Option.some.inj hsid
    rw [hself]
    exact ⟨⟨by omega, le_refl _⟩, rfl, rfl, fun u hu hut => hnew _ (h.target u hu _ hut) rfl⟩
  · intro sid ht
    rcases List.mem_cons.1 ht with heq | ht
    · obtain rfl := Task.addSession.inj heq
      rw [hself]
      exact ⟨rfl, hnew _ h.current⟩
    · rw [hold sid (h.opening _ ht sid rfl).1.2]
      exact h.adding sid ht
  · intro sid ht
    rcases List.mem_cons.1 ht with heq | ht
    · cases heq
    · rw [hold sid (h.opening _ ht sid rfl).1.2]
      exact h.flushing sid ht
  · intro sid
    show (Task.addSession (s.iCurrentSessionId + 1 : ℕ) :: s.tasks).countP _ ≤ 1
    by_cases hsid : sid = (s.iCurrentSessionId + 1 : ℕ)
    · have hzero : s.tasks.countP (fun t => t.opens = some sid) = 0 := by
        refine List.countP_eq_zero.2 fun t ht hto => ?_
        have hto' : t.opens = some sid := by simpa using hto
        exact hnew sid (h.opening t ht sid hto').1.2 hsid
      rw [List.countP_cons_of_pos (by simp [Task.opens, hsid]), hzero]
    · rw [List.countP_cons_of_neg (by simpa [Task.opens] using fun heq => hsid heq.symm)]
      exact h.single sid

theorem links_onAddSession (h : Links cfg (s.spawn (.addSession sid))) (hfree : s.locked = false)
    (hphase : Phase (s.onAddSession sid)) : Links cfg (s.onAddSession sid) := by
  obtain ⟨hrange, hmap, hmax, hfresh⟩ := h.opening (.addSession sid) List.mem_cons_self sid rfl
  refine h.next hphase [.addSession sid] [.flushPending sid] rfl rfl (Nat.le_refl _) hrange.2
    (fun _ _ => ⟨rfl, rfl⟩) ?_ ?_ ?_ ?_ (fun sid' => ?_) h.bytes h.limit
  · intro t ht sid' hsid
    rw [List.mem_singleton.1 ht] at hsid
    cases hsid
  · intro t ht sid' hsid
    rw [List.mem_singleton.1 ht] at hsid
    obtain rfl := Option.some.inj hsid
    exact ⟨hrange, hmap, hmax, fun u hu => hfresh u (List.mem_cons_of_mem _ hu)⟩
  · intro sid' ht
    rcases List.mem_cons.1 ht with heq | ht
    · cases heq
    · refine ⟨(h.adding sid' (List.mem_cons_of_mem _ ht)).1, fun heq => ?_⟩
      exact h.not_opens_of_spawn (t := .addSession sid) rfl ht (congrArg some heq.symm)
  · intro sid' ht
    rcases List.mem_cons.1 ht with heq | ht
    · obtain rfl := Task.flushPending.inj heq
      refine ⟨?_, rfl⟩
      show (s.sessions sid').queuedBytes + s.m_iPendingBytes ≤ _
      have hempty : (s.sessions sid').queuedBytes = 0 := (h.adding sid' List.mem_cons_self).1
      rw [hempty, Nat.zero_add]
      exact h.limit
    · have hholds := h.phase.not_holdsLock hfree (List.mem_cons_of_mem _ ht)
      cases hholds
  · exact h.single sid'

theorem links_pendingSent {v : List Message} {stSession : SessionState}
    (h : Links cfg (s.spawn (.flushPending sid))) (hpending : s.m_vPending = m :: v)
    (haccepts : Accepts (s.sessions sid) m.size stSession)
    (hs' : s' = { s.setSession sid stSession with
      handedRaw := s.handedRaw ++ [(m.number, sid)]
      m_vPending := v
      m_iPendingBytes := subSize s.m_iPendingBytes m.size }.spawn (.flushPending sid))
    (hphase : Phase s') : Links cfg s' := by
  have hsum : s.m_iPendingBytes = m.size + messageBytes v := by
    have hbytes : s.m_iPendingBytes = messageBytes s.m_vPending := h.bytes
    rw [hbytes, hpending]
    rfl
  have hleft : subSize s.m_iPendingBytes m.size = messageBytes v := by
    rw [subSize, if_pos (by omega), hsum, Nat.add_sub_cancel_left]
  have hself : s'.sessions sid = stSession := by
    rw [hs']
    exact Function.update_self _ _ _
  have hother : ∀ sid', sid' ≠ sid → s'.sessions sid' = s.sessions sid' := by
    intro sid' hne
    rw [hs']
    exact Function.update_of_ne hne _ _
  have htasks' : s'.tasks = .flushPending sid :: s.tasks := by rw [hs']; rfl
  have hbytes' : s'.m_iPendingBytes = messageBytes v := by rw [hs']; exact hleft
  have hids : s'.m_iSessionId = s.m_iSessionId ∧ s'.iCurrentSessionId = s.iCurrentSessionId := by
    rw [hs']
    exact ⟨rfl, rfl⟩
  obtain ⟨hrange, hmap, hmax, hfresh⟩ := h.opening (.flushPending sid) List.mem_cons_self sid rfl
  have hsessions : ∀ sid', (s'.sessions sid').inMap = (s.sessions sid').inMap ∧
      (s'.sessions sid').maxSendQueueBytes = (s.sessions sid').maxSendQueueBytes := by
    intro sid'
    by_cases hsid : sid' = sid
    · rw [hsid, hself, haccepts.eq]
      exact ⟨rfl, rfl⟩
    · rw [hother sid' hsid]
      exact ⟨rfl, rfl⟩
  refine h.next hphase [.flushPending sid] [.flushPending sid] rfl htasks'
    (Nat.le_of_eq hids.2.symm) ?_ (fun sid' _ => hsessions sid') ?_ ?_ ?_ ?_ (fun sid' => ?_) ?_ ?_
  · rw [hids.1, hids.2]
    exact h.current
  · intro t ht sid' hsid
    rw [List.mem_singleton.1 ht] at hsid
    cases hsid
  · intro t ht sid' hsid
    rw [List.mem_singleton.1 ht] at hsid
    obtain rfl := Option.some.inj hsid
    rw [hids.2, (hsessions sid).1, (hsessions sid).2]
    exact ⟨hrange, hmap, hmax, fun u hu => hfresh u (List.mem_cons_of_mem _ hu)⟩
  · intro sid' ht
    rw [htasks'] at ht
    rcases List.mem_cons.1 ht with heq | ht
    · cases heq
    · have hne : sid' ≠ sid := fun heq =>
        h.not_opens_of_spawn (t := .flushPending sid) rfl ht (congrArg some heq)
      rw [hother sid' hne, hids.1]
      exact h.adding sid' (List.mem_cons_of_mem _ ht)
  · intro sid' ht
    rw [htasks'] at ht
    rcases List.mem_cons.1 ht with heq | ht
    · obtain rfl := Task.flushPending.inj heq
      obtain ⟨hroom, hsame⟩ := h.flushing sid' List.mem_cons_self
      refine ⟨?_, hids.1.trans hsame⟩
      have hroom' : (s.sessions sid').queuedBytes + s.m_iPendingBytes ≤ cfg.iMaxSendQueueBytes :=
        hroom
      rw [hself, haccepts.eq, hbytes']
      show (s.sessions sid').queuedBytes + m.size + messageBytes v ≤ _
      omega
    · have hholds := h.phase.not_holdsLock_of_spawn (t := .flushPending sid) rfl ht
      cases hholds
  · rw [htasks']
    exact h.single sid'
  · rw [hbytes', hs']
    rfl
  · rw [hbytes']
    have hlimit : s.m_iPendingBytes ≤ cfg.iMaxSendQueueBytes := h.limit
    omega

theorem links_pendingFlushed (h : Links cfg (s.spawn (.flushPending sid)))
    (hphase : Phase (s.pendingFlushed sid)) : Links cfg (s.pendingFlushed sid) := by
  obtain ⟨hrange, -⟩ := h.opening (.flushPending sid) List.mem_cons_self sid rfl
  refine h.next hphase [.flushPending sid] [.flushHeld sid] rfl rfl (Nat.le_refl _) h.current
    (fun _ _ => ⟨rfl, rfl⟩) ?_ ?_ ?_ ?_ (fun sid' => ?_) h.bytes h.limit
  · intro t ht sid' hsid
    rw [List.mem_singleton.1 ht] at hsid
    obtain rfl := Option.some.inj hsid
    refine ⟨hrange.2, fun u hu => ?_⟩
    rcases List.mem_cons.1 hu with rfl | hu
    · simp [Task.opens]
    · exact h.not_opens_of_spawn rfl hu
  · intro t ht sid' hsid
    rw [List.mem_singleton.1 ht] at hsid
    cases hsid
  · intro sid' ht
    rcases List.mem_cons.1 ht with heq | ht
    · cases heq
    · exact h.adding sid' (List.mem_cons_of_mem _ ht)
  · intro sid' ht
    rcases List.mem_cons.1 ht with heq | ht
    · cases heq
    · have hholds := h.phase.not_holdsLock_of_spawn (t := .flushPending sid) rfl ht
      cases hholds
  · show (Task.flushHeld sid :: s.tasks).countP _ ≤ 1
    rw [List.countP_cons_of_neg (by simp [Task.opens])]
    exact (List.Sublist.countP_le (List.sublist_cons_self _ _)).trans (h.single sid')

theorem links_rawMoves (h : Links cfg s) (hmoves : RawMoves cfg e s s') : Links cfg s' := by
  have hphase := phase_rawMoves h.phase hmoves
  have hsame : ∀ sid : ℤ, (s.sessions sid).inMap = (s.sessions sid).inMap ∧
      (s.sessions sid).maxSendQueueBytes = (s.sessions sid).maxSendQueueBytes := fun sid =>
    ⟨rfl, rfl⟩
  cases hmoves with
  | direct _ s size hfree =>
    refine h.still hphase [] [_] rfl rfl (by simp [Task.opens]) ?_ rfl (Or.inl rfl) hsame
      (fun _ _ => Nat.le_refl _) (Or.inl hfree) h.bytes h.limit
    intro t ht sid hsid
    rw [List.mem_singleton.1 ht] at hsid
    exact Or.inr ⟨hfree, Option.some.inj hsid⟩
  | refused =>
    exact h.still hphase [] [] rfl rfl (by simp) (by simp) rfl (Or.inl rfl) hsame
      (fun _ _ => Nat.le_refl _) (Or.inr (Nat.le_refl _)) h.bytes h.limit
  | pended s size iMax hfree _ hroom =>
    refine h.still hphase [] [] rfl rfl (by simp) (by simp) rfl (Or.inl rfl) hsame
      (fun _ _ => Nat.le_refl _) (Or.inl hfree) ?_ ((pended_le hroom).trans (Nat.min_le_right _ _))
    show s.m_iPendingBytes + size = messageBytes (s.m_vPending ++ [⟨s.messages, size⟩])
    rw [messageBytes_append, h.bytes]
    rfl
  | addSession => exact links_addSession h hphase
  | onDelSession s sid hfree =>
    revert hphase
    rw [State.onDelSession]
    split
    · intro hphase
      exact h.still hphase [] [] rfl rfl (by simp) (by simp) rfl (Or.inr ⟨rfl, hfree⟩) hsame
        (fun _ _ => Nat.le_refl _) (Or.inl hfree) h.bytes h.limit
    · intro _
      exact h
  | closeSession s sid =>
    refine h.still hphase [] [] rfl rfl (by simp) (by simp) rfl (Or.inl rfl) ?_ ?_
      (Or.inr (Nat.le_refl _)) h.bytes h.limit
    · intro sid'
      by_cases hsid : sid' = sid
      · subst hsid
        simp [State.setSession, SessionState.close]
      · simp [State.setSession, Function.update_of_ne hsid]
    · intro sid' _
      by_cases hsid : sid' = sid
      · subst hsid
        simp [State.setSession, SessionState.close]
      · simp [State.setSession, Function.update_of_ne hsid]
  | onBytesSent s sid n =>
    refine h.still hphase [] [] rfl rfl (by simp) (by simp) rfl (Or.inl rfl) ?_ ?_
      (Or.inr (Nat.le_refl _)) h.bytes h.limit
    · intro sid'
      by_cases hsid : sid' = sid
      · subst hsid
        simp [State.setSession]
      · simp [State.setSession, Function.update_of_ne hsid]
    · intro sid' _
      by_cases hsid : sid' = sid
      · subst hsid
        simp [State.setSession]
      · simp [State.setSession, Function.update_of_ne hsid]
  | sent s s₁ m sid hsend =>
    obtain ⟨stSession, haccepts, rfl⟩ := sendMessage_some hsend
    refine h.still hphase [.sendRaw m sid] [] rfl rfl (by simp [Task.opens]) (by simp) rfl
      (Or.inl rfl) ?_ ?_ (Or.inr (Nat.le_refl _)) h.bytes h.limit
    · intro sid'
      by_cases hsid : sid' = sid
      · subst hsid
        simp [State.setSession, State.spawn, haccepts.eq]
      · simp [State.setSession, State.spawn, Function.update_of_ne hsid]
    · intro sid' hfresh
      have hne : sid' ≠ sid := by
        rintro rfl
        exact hfresh (.sendRaw m sid') List.mem_cons_self rfl
      simp [State.setSession, State.spawn, Function.update_of_ne hne]
  | sendFailed s m sid =>
    exact h.still hphase [.sendRaw m sid] [] rfl rfl (by simp [Task.opens]) (by simp) rfl
      (Or.inl rfl) hsame (fun _ _ => Nat.le_refl _) (Or.inr (Nat.le_refl _)) h.bytes h.limit
  | onAddSession s sid hfree => exact links_onAddSession h hfree hphase
  | pendingSent s s₁ sid m v hpending hsend =>
    obtain ⟨stSession, haccepts, rfl⟩ := sendMessage_some hsend
    exact links_pendingSent h hpending haccepts rfl hphase
  | pendingFlushed s sid => exact links_pendingFlushed h hphase

/-! ## The order of the messages -/

/-- The numbers of the pending messages. -/
def pendingNumbers (s : State) : List ℕ := s.m_vPending.map Message.number

/-- The numbers of the messages that sessions have accepted. -/
def handedNumbers (s : State) : List ℕ := s.handedRaw.map Prod.fst

/-- The numbers of the messages in the hands of the task. -/
def Task.numbers (t : Task) : List ℕ := (t.message.map Message.number).toList

/-- How often a message is pending, with a task, or with a session. -/
def messagePlaces (s : State) (n : ℕ) : ℕ :=
  (pendingNumbers s).count n + tally (fun t => t.numbers.count n) s.tasks +
    (handedNumbers s).count n

/-- **Pending data and the messages on their way.** -/
structure Kept (cfg : Config) (s : State) : Prop where
  links : Links cfg s
  sorted : (pendingNumbers s).Pairwise (· < ·)
  once : ∀ n, messagePlaces s n ≤ 1
  fresh : ∀ n, s.messages ≤ n → messagePlaces s n = 0
  /-- What is left of a flush waits for the next connect. -/
  idle : (∀ sid, Task.flushPending sid ∉ s.tasks) → s.canSend = true →
    s.m_vPending = [] ∨ (s.sessions s.m_iSessionId).closed = true
  /-- No younger message is on its way to an open session. -/
  stale : ∀ n ∈ pendingNumbers s, ∀ t ∈ s.tasks, ∀ m ∈ t.message, n < m.number →
    ∀ sid ∈ t.target, (s.sessions sid).closed = true

theorem kept_init (cfg : Config) : Kept cfg init where
  links := links_init cfg
  sorted := List.Pairwise.nil
  once := fun _ => Nat.zero_le _
  fresh := fun _ _ => rfl
  idle := fun _ h => absurd h (by decide)
  stale := fun _ h => absurd h List.not_mem_nil

theorem messagePlaces_perm (hperm : tasks.Perm s.tasks) (n : ℕ) :
    messagePlaces { s with tasks := tasks } n = messagePlaces s n := by
  simp only [messagePlaces, pendingNumbers, handedNumbers, tally, (hperm.map _).sum_eq]

theorem Kept.perm (h : Kept cfg s) (hperm : tasks.Perm s.tasks) :
    Kept cfg { s with tasks := tasks } where
  links := h.links.perm hperm
  sorted := h.sorted
  once := fun n => (messagePlaces_perm hperm n).trans_le (h.once n)
  fresh := fun n hn => (messagePlaces_perm hperm n).trans (h.fresh n hn)
  idle := fun hno hcan => h.idle (fun sid ht => hno sid (hperm.symm.subset ht)) hcan
  stale := fun n hn t ht => h.stale n hn t (hperm.subset ht)

/-- The number of a message in some place is one that has been given out. -/
theorem Kept.lt_messages (h : Kept cfg s) (hn : 0 < messagePlaces s n) : n < s.messages := by
  by_contra hle
  rw [h.fresh n (Nat.le_of_not_lt hle)] at hn
  exact Nat.lt_irrefl _ hn

theorem messagePlaces_pos_of_pending (hn : n ∈ pendingNumbers s) : 0 < messagePlaces s n := by
  have hpos := List.count_pos_iff.2 hn
  simp only [messagePlaces]
  omega

theorem messagePlaces_pos_of_handed (hn : n ∈ handedNumbers s) : 0 < messagePlaces s n := by
  have hpos := List.count_pos_iff.2 hn
  simp only [messagePlaces]
  omega

theorem messagePlaces_pos_of_task (ht : t ∈ s.tasks) (hm : m ∈ t.message) :
    0 < messagePlaces s m.number := by
  obtain ⟨l₁, l₂, hl⟩ := List.append_of_mem ht
  have hmem : m.number ∈ t.numbers := by
    rw [Task.numbers, show t.message = some m from hm]
    exact List.mem_singleton_self _
  have hpos := List.count_pos_iff.2 hmem
  simp only [messagePlaces, hl, tally_append, tally_cons]
  omega

/-- What a step does to the messages. -/
inductive MessageStep (cfg : Config) (e : Event) (s s' : State) : Prop where
  /-- The pending data stays or is given up, and no message comes or goes. -/
  | still (hpending : s'.m_vPending = s.m_vPending ∨ (s'.m_vPending = [] ∧ e = .failHeldCalls))
      (hmessages : s.messages ≤ s'.messages) (hhanded : s'.handedRaw = s.handedRaw)
      (htasks : ∀ t ∈ s'.tasks, ∀ m ∈ t.message, t ∈ s.tasks)
      (hplaces : ∀ n, messagePlaces s' n ≤ messagePlaces s n)
  /-- A message is accepted while the manager is connected. -/
  | direct (m : Message) (hfree : s.locked = false) (hcan : s.canSend = true)
      (hnumber : m.number = s.messages) (hmessages : s'.messages = s.messages + 1)
      (htasks : s'.tasks = .sendRaw m s.m_iSessionId :: s.tasks)
      (hpending : s'.m_vPending = s.m_vPending) (hhanded : s'.handedRaw = s.handedRaw)
      (hsame : s'.canSend = s.canSend ∧ s'.m_iSessionId = s.m_iSessionId ∧
        s'.sessions = s.sessions)
  /-- A message is kept for the next connect. -/
  | pended (m : Message) (iMax : ℕ) (he : e = .sendRawOrPend m.size iMax)
      (hcan : s.canSend = false) (hcan' : s'.canSend = false) (hnumber : m.number = s.messages)
      (hmessages : s'.messages = s.messages + 1) (htasks : s'.tasks = s.tasks)
      (hpending : s'.m_vPending = s.m_vPending ++ [m]) (hhanded : s'.handedRaw = s.handedRaw)
      (hroom : s'.m_iPendingBytes ≤ min iMax cfg.iMaxSendQueueBytes)
  /-- A session has accepted a message of a caller. -/
  | sent (m : Message) (sid : ℤ) (rest : List Task) (htasks : s.tasks = .sendRaw m sid :: rest)
      (htasks' : s'.tasks = rest) (hopen : (s.sessions sid).closed = false)
      (hpending : s'.m_vPending = s.m_vPending) (hmessages : s'.messages = s.messages)
      (hhanded : s'.handedRaw = s.handedRaw ++ [(m.number, sid)])
  /-- A session has accepted the first pending message. -/
  | flushed (m : Message) (sid : ℤ) (hpending : s.m_vPending = m :: s'.m_vPending)
      (htasks' : s'.tasks = s.tasks) (hmem : Task.flushPending sid ∈ s.tasks)
      (hmessages : s'.messages = s.messages)
      (hhanded : s'.handedRaw = s.handedRaw ++ [(m.number, sid)])

/-- A task list that changes by tasks without messages keeps every message where it is. -/
theorem messagePlaces_idle (rem add : List Task) {rest : List Task} (htasks : s.tasks = rem ++ rest)
    (htasks' : s'.tasks = add ++ rest) (hidle : ∀ t ∈ rem ++ add, t.message = none)
    (hpending : s'.m_vPending = s.m_vPending ∨ s'.m_vPending = [])
    (hhanded : s'.handedRaw = s.handedRaw) (n : ℕ) : messagePlaces s' n ≤ messagePlaces s n := by
  have hzero : ∀ l : List Task, (∀ t ∈ l, t.message = none) →
      tally (fun t => t.numbers.count n) l = 0 := by
    intro l hl
    refine tally_eq_zero fun j t ht => ?_
    rw [Task.numbers, hl t (List.mem_of_getElem? ht)]
    rfl
  have hrem := hzero rem fun t ht => hidle t (List.mem_append_left _ ht)
  have hadd := hzero add fun t ht => hidle t (List.mem_append_right _ ht)
  have hle : (pendingNumbers s').count n ≤ (pendingNumbers s).count n := by
    rcases hpending with heq | heq
    · rw [pendingNumbers, heq]
      exact Nat.le_refl _
    · rw [pendingNumbers, heq]
      exact Nat.zero_le _
  simp only [messagePlaces, handedNumbers, hhanded, htasks, htasks', tally_append, hrem, hadd]
  omega

theorem messageStep_idle (rem add : List Task) {rest : List Task} (htasks : s.tasks = rem ++ rest)
    (htasks' : s'.tasks = add ++ rest) (hidle : ∀ t ∈ rem ++ add, t.message = none)
    (hpending : s'.m_vPending = s.m_vPending ∨ (s'.m_vPending = [] ∧ e = .failHeldCalls))
    (hmessages : s.messages ≤ s'.messages) (hhanded : s'.handedRaw = s.handedRaw) :
    MessageStep cfg e s s' := by
  refine .still hpending hmessages hhanded ?_
    (messagePlaces_idle rem add htasks htasks' hidle (hpending.imp_right And.left) hhanded)
  intro t ht m hm
  rw [htasks'] at ht
  rcases List.mem_append.1 ht with ht | ht
  · rw [hidle t (List.mem_append_right _ ht)] at hm
    cases hm
  · exact htasks ▸ List.mem_append_right _ ht

theorem messageStep_callMoves (hmoves : CallMoves e s s') : MessageStep cfg e s s' := by
  cases callFrame_callMoves hmoves with
  | mk rem add rest htasks htasks' hidle htarget hconnection hmessages hpending =>
    refine messageStep_idle rem add htasks htasks' (fun t ht => (hidle t ht).2) ?_
      (Nat.le_of_eq hmessages.1.symm) hmessages.2
    exact hpending.imp And.left fun ⟨he, hv, _⟩ => ⟨hv, he⟩

theorem messageStep_rawMoves (hmoves : RawMoves cfg e s s') : MessageStep cfg e s s' := by
  cases hmoves with
  | direct _ s size hfree hcan =>
    exact .direct ⟨s.messages, size⟩ hfree hcan rfl rfl rfl rfl rfl ⟨rfl, rfl, rfl⟩
  | refused =>
    exact messageStep_idle [] [] rfl rfl (by simp) (Or.inl rfl) (Nat.le_succ _) rfl
  | pended s size iMax hfree hcan hroom =>
    exact .pended ⟨s.messages, size⟩ iMax rfl hcan hcan rfl rfl rfl rfl rfl (pended_le hroom)
  | addSession s =>
    exact messageStep_idle [] [.addSession _] rfl rfl (by simp [Task.message]) (Or.inl rfl)
      (Nat.le_refl _) rfl
  | onDelSession s sid =>
    rw [State.onDelSession]
    split
    · exact messageStep_idle [] [] rfl rfl (by simp) (Or.inl rfl) (Nat.le_refl _) rfl
    · exact messageStep_idle [] [] rfl rfl (by simp) (Or.inl rfl) (Nat.le_refl _) rfl
  | closeSession | onBytesSent =>
    exact messageStep_idle [] [] rfl rfl (by simp) (Or.inl rfl) (Nat.le_refl _) rfl
  | sent s s₁ m sid hsend =>
    obtain ⟨stSession, haccepts, rfl⟩ := sendMessage_some hsend
    exact .sent m sid s.tasks rfl rfl haccepts.isOpen rfl rfl rfl
  | sendFailed s m sid =>
    refine .still (Or.inl rfl) (Nat.le_refl _) rfl
      (fun t ht _ _ => List.mem_cons_of_mem _ ht) fun n => ?_
    simp only [messagePlaces, pendingNumbers, handedNumbers, State.spawn, tally_cons]
    omega
  | onAddSession s sid =>
    exact messageStep_idle [.addSession sid] [.flushPending sid] rfl rfl (by simp [Task.message])
      (Or.inl rfl) (Nat.le_refl _) rfl
  | pendingSent s s₁ sid m v hpending hsend =>
    obtain ⟨stSession, haccepts, rfl⟩ := sendMessage_some hsend
    exact .flushed m sid hpending rfl List.mem_cons_self rfl rfl
  | pendingFlushed s sid =>
    exact messageStep_idle [.flushPending sid] [.flushHeld sid] rfl rfl (by simp [Task.message])
      (Or.inl rfl) (Nat.le_refl _) rfl

/-- A closed session stays closed. -/
theorem closed_rawMoves {cfg : Config} {e : Event} {s s' : State} (hmoves : RawMoves cfg e s s')
    {sid : ℤ} (hsid : sid ≤ s.iCurrentSessionId) (hclosed : (s.sessions sid).closed = true) :
    (s'.sessions sid).closed = true := by
  have hset : ∀ (u : State) (sid' : ℤ) (stSession : SessionState),
      (u.sessions sid).closed = true → (sid = sid' → stSession.closed = true) →
        ((u.setSession sid' stSession).sessions sid).closed = true := by
    intro u sid' stSession hu hnew
    by_cases heq : sid = sid'
    · subst heq
      simpa [State.setSession] using hnew rfl
    · simpa [State.setSession, Function.update_of_ne heq] using hu
  have hopen : ∀ {size : ℕ} {sid' : ℤ} {stSession : SessionState},
      Accepts (s.sessions sid') size stSession → sid = sid' → stSession.closed = true := by
    rintro size sid' stSession haccepts rfl
    rw [haccepts.isOpen] at hclosed
    cases hclosed
  cases hmoves with
  | addSession s =>
    exact hset s _ _ hclosed fun heq => by omega
  | onDelSession s sid' =>
    rw [State.onDelSession]
    split <;> exact hclosed
  | closeSession s sid' => exact hset s sid' _ hclosed fun _ => rfl
  | onBytesSent s sid' n => exact hset s sid' _ hclosed fun heq => heq ▸ hclosed
  | sent s s₁ m sid' hsend | pendingSent s s₁ sid' m v hpending hsend =>
    obtain ⟨stSession, haccepts, rfl⟩ := sendMessage_some hsend
    exact hset s sid' _ hclosed (hopen haccepts)
  | _ => exact hclosed

theorem idle_callMoves (h : Kept cfg s) (hmoves : CallMoves e s s')
    (hno : ∀ sid, Task.flushPending sid ∉ s'.tasks) (hcan : s'.canSend = true) :
    s'.m_vPending = [] ∨ (s'.sessions s'.m_iSessionId).closed = true := by
  have hframe := callFrame_callMoves hmoves
  have hsession := hframe.session
  cases hframe with
  | mk rem add rest htasks htasks' hidle htarget hconnection hmessages hpending =>
    have hno' : ∀ sid, Task.flushPending sid ∉ s.tasks := by
      intro sid ht
      rw [htasks] at ht
      rcases List.mem_append.1 ht with ht | ht
      · exact absurd (hidle _ (List.mem_append_left _ ht)).1 (Option.some_ne_none _)
      · exact hno sid (htasks' ▸ List.mem_append_right _ ht)
    have hcan' : s.canSend = true := by
      rw [State.canSend, hconnection.1, hconnection.2.1] at hcan
      exact hcan
    rw [hconnection.1, (hsession _).2.2]
    rcases hpending with ⟨hv, -⟩ | ⟨-, hv, -⟩
    · rw [hv]
      exact h.idle hno' hcan'
    · exact Or.inl hv

theorem idle_rawMoves (h : Kept cfg s) (hmoves : RawMoves cfg e s s')
    (hno : ∀ sid, Task.flushPending sid ∉ s'.tasks) (hcan : s'.canSend = true) :
    s'.m_vPending = [] ∨ (s'.sessions s'.m_iSessionId).closed = true := by
  have hclosed := @closed_rawMoves _ _ _ _ hmoves _ h.links.current
  cases hmoves with
  | direct _ s size =>
    exact h.idle (fun sid ht => hno sid (List.mem_cons_of_mem _ ht)) hcan
  | refused => exact h.idle hno hcan
  | pended s size iMax _ hcannot =>
    have hsame : s.canSend = true := hcan
    rw [hcannot] at hsame
    cases hsame
  | addSession s =>
    exact (h.idle (fun sid ht => hno sid (List.mem_cons_of_mem _ ht)) hcan).imp_right hclosed
  | onDelSession s sid =>
    revert hno hcan hclosed
    rw [State.onDelSession]
    split
    · intro _ hcan
      cases hcan
    · intro hno hcan _
      exact h.idle hno hcan
  | closeSession => exact (h.idle hno hcan).imp_right hclosed
  | onBytesSent => exact (h.idle hno hcan).imp_right hclosed
  | sent s s₁ m sid hsend =>
    obtain ⟨stSession, -, rfl⟩ := sendMessage_some hsend
    refine (h.idle (fun sid' ht => ?_) hcan).imp_right hclosed
    rcases List.mem_cons.1 ht with heq | ht
    · cases heq
    · exact hno sid' ht
  | sendFailed s m sid =>
    refine h.idle (fun sid' ht => ?_) hcan
    rcases List.mem_cons.1 ht with heq | ht
    · cases heq
    · exact hno sid' ht
  | onAddSession s sid => exact absurd List.mem_cons_self (hno sid)
  | pendingSent s s₁ sid => exact absurd List.mem_cons_self (hno sid)
  | pendingFlushed s sid hstop =>
    have hspawn := h.links
    obtain ⟨-, hmap, hmax, -⟩ := hspawn.opening (.flushPending sid) List.mem_cons_self sid rfl
    obtain ⟨hroom, hsame⟩ := hspawn.flushing sid List.mem_cons_self
    show s.m_vPending = [] ∨ (s.sessions s.m_iSessionId).closed = true
    rw [show s.m_iSessionId = sid from hsame]
    cases hpending : s.m_vPending with
    | nil => exact Or.inl rfl
    | cons m v =>
      refine Or.inr ?_
      by_contra hopen
      -- an open session has room for the message, which was counted when it was pended
      have hfull := sendMessage_none (hstop m v hpending) hmap (by simpa using hopen)
      have hbytes : s.m_iPendingBytes = messageBytes s.m_vPending := hspawn.bytes
      rw [hpending] at hbytes
      have hsize : messageBytes (m :: v) = m.size + messageBytes v := rfl
      have hmax' : (s.sessions sid).maxSendQueueBytes = cfg.iMaxSendQueueBytes := hmax
      have hroom' : (s.sessions sid).queuedBytes + s.m_iPendingBytes ≤ cfg.iMaxSendQueueBytes :=
        hroom
      omega

theorem closed_step (hmoves : CallMoves e s s' ∨ RawMoves cfg e s s')
    (hsid : sid ≤ s.iCurrentSessionId) (hclosed : (s.sessions sid).closed = true) :
    (s'.sessions sid).closed = true := by
  rcases hmoves with hmoves | hmoves
  · rw [((callFrame_callMoves hmoves).session sid).2.2]
    exact hclosed
  · exact closed_rawMoves hmoves hsid hclosed

namespace MessageStep

theorem sorted (hstep : MessageStep cfg e s s') (h : Kept cfg s) :
    (pendingNumbers s').Pairwise (· < ·) := by
  cases hstep with
  | still hpending =>
    rcases hpending with heq | ⟨heq, -⟩
    · rw [pendingNumbers, heq]
      exact h.sorted
    · rw [pendingNumbers, heq]
      exact List.Pairwise.nil
  | direct m _ _ _ _ _ hpending =>
    rw [pendingNumbers, hpending]
    exact h.sorted
  | pended m iMax _ _ _ hnumber _ _ hpending =>
    rw [pendingNumbers, hpending, List.map_append, List.pairwise_append]
    refine ⟨h.sorted, List.pairwise_singleton _ _, fun n hn k hk => ?_⟩
    rw [List.mem_singleton.1 hk, hnumber]
    exact h.lt_messages (messagePlaces_pos_of_pending hn)
  | sent m sid rest _ _ _ hpending =>
    rw [pendingNumbers, hpending]
    exact h.sorted
  | flushed m sid hpending =>
    have hsorted := h.sorted
    rw [pendingNumbers, hpending] at hsorted
    exact (List.pairwise_cons.1 hsorted).2

/-- A step leaves each message in its place, or gives out the next number. -/
theorem places (hstep : MessageStep cfg e s s') (n : ℕ) :
    (messagePlaces s' n ≤ messagePlaces s n ∧ s.messages ≤ s'.messages) ∨
      (messagePlaces s' n = [s.messages].count n + messagePlaces s n ∧
        s'.messages = s.messages + 1) := by
  cases hstep with
  | still _ hmessages _ _ hplaces => exact Or.inl ⟨hplaces n, hmessages⟩
  | direct m _ _ hnumber hmessages htasks hpending hhanded =>
    refine Or.inr ⟨?_, hmessages⟩
    simp only [messagePlaces, pendingNumbers, handedNumbers, htasks, hpending, hhanded, tally_cons,
      Task.numbers, Task.message, Option.map_some, Option.toList_some, hnumber]
    omega
  | pended m iMax _ _ _ hnumber hmessages htasks hpending hhanded =>
    refine Or.inr ⟨?_, hmessages⟩
    simp only [messagePlaces, pendingNumbers, handedNumbers, htasks, hpending, hhanded,
      List.map_append, List.map_cons, List.map_nil, List.count_append, hnumber]
    omega
  | sent m sid rest htasks htasks' _ hpending hmessages hhanded =>
    refine Or.inl ⟨?_, Nat.le_of_eq hmessages.symm⟩
    simp only [messagePlaces, pendingNumbers, handedNumbers, htasks, htasks', hpending, hhanded,
      tally_cons, Task.numbers, Task.message, Option.map_some, Option.toList_some,
      List.map_append, List.map_cons, List.map_nil, List.count_append]
    omega
  | flushed m sid hpending htasks' _ hmessages hhanded =>
    refine Or.inl ⟨?_, Nat.le_of_eq hmessages.symm⟩
    simp only [messagePlaces, pendingNumbers, handedNumbers, hpending, htasks', hhanded,
      List.map_append, List.map_cons, List.map_nil, List.count_append, List.count_cons,
      List.count_nil]
    omega

theorem stale (hstep : MessageStep cfg e s s') (h : Kept cfg s)
    (hclosed : ∀ sid : ℤ, sid ≤ s.iCurrentSessionId → (s.sessions sid).closed = true →
      (s'.sessions sid).closed = true) :
    ∀ n ∈ pendingNumbers s', ∀ t ∈ s'.tasks, ∀ m ∈ t.message, n < m.number →
      ∀ sid ∈ t.target, (s'.sessions sid).closed = true := by
  -- an old message before an old task
  have hold : ∀ n ∈ pendingNumbers s, ∀ t ∈ s.tasks, ∀ m ∈ t.message, n < m.number →
      ∀ sid ∈ t.target, (s'.sessions sid).closed = true := by
    intro n hn t ht m hm hlt sid hsid
    exact hclosed sid (h.links.target t ht sid hsid) (h.stale n hn t ht m hm hlt sid hsid)
  intro n hn t ht m hm hlt sid hsid
  cases hstep with
  | still hpending _ _ htasks =>
    refine hold n ?_ t (htasks t ht m hm) m hm hlt sid hsid
    rcases hpending with heq | ⟨heq, -⟩
    · rwa [pendingNumbers, heq] at hn
    · rw [pendingNumbers, heq] at hn
      cases hn
  | direct m' hfree hcan hnumber _ htasks hpending _ hsame =>
    rw [pendingNumbers, hpending] at hn
    rw [htasks] at ht
    rcases List.mem_cons.1 ht with rfl | ht
    · obtain rfl := Option.some.inj hsid
      rw [hsame.2.2]
      refine (h.idle (fun sid' ht' => ?_) hcan).resolve_left fun hnil => ?_
      · have hholds := h.links.phase.not_holdsLock hfree ht'
        cases hholds
      · rw [hnil] at hn
        cases hn
    · exact hold n hn t ht m hm hlt sid hsid
  | pended m' iMax _ _ _ hnumber _ htasks hpending =>
    rw [htasks] at ht
    rw [pendingNumbers, hpending, List.map_append] at hn
    rcases List.mem_append.1 hn with hn | hn
    · exact hold n hn t ht m hm hlt sid hsid
    · have hm' := h.lt_messages (messagePlaces_pos_of_task ht hm)
      rw [List.mem_singleton.1 hn, hnumber] at hlt
      omega
  | sent m' sid' rest htasks htasks' _ hpending =>
    rw [pendingNumbers, hpending] at hn
    exact hold n hn t (htasks ▸ List.mem_cons_of_mem _ (htasks' ▸ ht)) m hm hlt sid hsid
  | flushed m' sid' hpending htasks' =>
    refine hold n ?_ t (htasks' ▸ ht) m hm hlt sid hsid
    rw [pendingNumbers, hpending]
    exact List.mem_cons_of_mem _ hn

end MessageStep

theorem messageStep_of (hmoves : CallMoves e s s' ∨ RawMoves cfg e s s') :
    MessageStep cfg e s s' := by
  rcases hmoves with hmoves | hmoves
  · exact messageStep_callMoves hmoves
  · exact messageStep_rawMoves hmoves

/-- **Step.** -/
theorem kept_step (h : Kept cfg s) (hstep : step cfg s e = some s') : Kept cfg s' := by
  obtain ⟨tasks, hperm, hmoves⟩ := step_moves hstep
  replace h := h.perm hperm
  generalize { s with tasks := tasks } = u at h hmoves
  have hmessage := messageStep_of hmoves
  refine ⟨?_, hmessage.sorted h, ?_, ?_, ?_, hmessage.stale h fun sid => closed_step hmoves⟩
  · rcases hmoves with hmoves | hmoves
    · exact links_callMoves h.links hmoves
    · exact links_rawMoves h.links hmoves
  · intro n
    rcases hmessage.places n with ⟨hle, -⟩ | ⟨heq, -⟩
    · exact hle.trans (h.once n)
    · by_cases hn : n = u.messages
      · rw [heq, h.fresh n (Nat.le_of_eq hn.symm), hn]
        simp
      · rw [heq, List.count_eq_zero_of_not_mem (by simpa using hn), Nat.zero_add]
        exact h.once n
  · intro n hn
    rcases hmessage.places n with ⟨hle, hgrow⟩ | ⟨heq, hgrow⟩
    · exact Nat.le_zero.1 (h.fresh n (hgrow.trans hn) ▸ hle)
    · rw [heq, h.fresh n (by omega), List.count_eq_zero_of_not_mem]
      have hne : n ≠ u.messages := by omega
      simpa using hne
  · intro hno hcan
    rcases hmoves with hmoves | hmoves
    · exact idle_callMoves h hmoves hno hcan
    · exact idle_rawMoves h hmoves hno hcan

theorem kept_run {run : List Event} (h : Kept cfg s) (hrun : runFrom (step cfg) s run = some s') :
    Kept cfg s' :=
  runFrom_invariant (fun _ _ _ h hstep => kept_step h hstep) h hrun

/-! ## Two messages -/

/-- The call that accepted the message has returned: it is pended, or its send is done. -/
def MessageReturned (s : State) (x : ℕ) : Prop :=
  x < s.messages ∧ ∀ t ∈ s.tasks, x ∉ t.numbers

/-- The call of `x` had returned when that of `y` took the lock. -/
structure InTurn (x y : ℕ) (s : State) : Prop where
  returned : MessageReturned s x
  ahead : x ∈ pendingNumbers s → y ∉ handedNumbers s
  sent : x ∈ handedNumbers s → y ∈ handedNumbers s → Before x y (handedNumbers s)

theorem InTurn.perm (h : InTurn x y s) (hperm : tasks.Perm s.tasks) :
    InTurn x y { s with tasks := tasks } where
  returned := ⟨h.returned.1, fun t ht => h.returned.2 t (hperm.subset ht)⟩
  ahead := h.ahead
  sent := h.sent

theorem MessageStep.inTurn (hstep : MessageStep cfg e s s') (h : Kept cfg s) (hlt : x < y)
    (ho : InTurn x y s) : InTurn x y s' := by
  cases hstep with
  | still hpending hmessages hhanded htasks =>
    refine ⟨⟨ho.returned.1.trans_le hmessages, fun t ht hx => ?_⟩, ?_, ?_⟩
    · cases hm : t.message with
      | none =>
        rw [Task.numbers, hm] at hx
        cases hx
      | some m => exact ho.returned.2 t (htasks t ht m hm) hx
    · rw [handedNumbers, hhanded]
      rcases hpending with heq | ⟨heq, -⟩
      · rw [pendingNumbers, heq]
        exact ho.ahead
      · rw [pendingNumbers, heq]
        exact fun hx => absurd hx List.not_mem_nil
    · rw [handedNumbers, hhanded]
      exact ho.sent
  | direct m _ _ hnumber hmessages htasks hpending hhanded =>
    refine ⟨⟨by rw [hmessages]; exact Nat.lt_succ_of_lt ho.returned.1, fun t ht hx => ?_⟩, ?_, ?_⟩
    · rw [htasks] at ht
      rcases List.mem_cons.1 ht with rfl | ht
      · have hxm : x = m.number := List.mem_singleton.1 hx
        rw [hnumber] at hxm
        exact absurd ho.returned.1 (by omega)
      · exact ho.returned.2 t ht hx
    · rw [handedNumbers, hhanded, pendingNumbers, hpending]
      exact ho.ahead
    · rw [handedNumbers, hhanded]
      exact ho.sent
  | pended m iMax _ _ _ hnumber hmessages htasks hpending hhanded =>
    refine ⟨⟨by rw [hmessages]; exact Nat.lt_succ_of_lt ho.returned.1, fun t ht =>
      ho.returned.2 t (htasks ▸ ht)⟩, ?_, ?_⟩
    · rw [handedNumbers, hhanded, pendingNumbers, hpending, List.map_append]
      intro hx
      rcases List.mem_append.1 hx with hx | hx
      · exact ho.ahead hx
      · rw [List.mem_singleton.1 hx, hnumber] at ho
        exact absurd ho.returned.1 (Nat.lt_irrefl _)
    · rw [handedNumbers, hhanded]
      exact ho.sent
  | sent m sid rest htasks htasks' hopen hpending hmessages hhanded =>
    have hnumbers : handedNumbers s' = handedNumbers s ++ [m.number] := by
      rw [handedNumbers, hhanded, List.map_append]
      rfl
    have hmem : Task.sendRaw m sid ∈ s.tasks := htasks ▸ List.mem_cons_self
    refine ⟨⟨hmessages.symm ▸ ho.returned.1, fun t ht =>
      ho.returned.2 t (htasks ▸ List.mem_cons_of_mem _ (htasks' ▸ ht))⟩, ?_, ?_⟩
    · rw [pendingNumbers, hpending, hnumbers]
      intro hx hy
      rcases List.mem_append.1 hy with hy | hy
      · exact ho.ahead hx hy
      · -- while an older message is pending, the session of a younger one is closed
        have hym := List.mem_singleton.1 hy
        have hclosed := h.stale x hx _ hmem m rfl (hym ▸ hlt) sid rfl
        rw [hopen] at hclosed
        cases hclosed
    · rw [hnumbers]
      intro hx hy
      rcases List.mem_append.1 hx with hx | hx
      · rcases List.mem_append.1 hy with hy | hy
        · exact (ho.sent hx hy).append _
        · rw [List.mem_singleton.1 hy]
          exact Before.concat hx
      · exact absurd hx (ho.returned.2 _ hmem)
  | flushed m sid hpending htasks' hmem hmessages hhanded =>
    have hnumbers : handedNumbers s' = handedNumbers s ++ [m.number] := by
      rw [handedNumbers, hhanded, List.map_append]
      rfl
    have hbefore : pendingNumbers s = m.number :: pendingNumbers s' := by
      rw [pendingNumbers, hpending]
      rfl
    refine ⟨⟨hmessages.symm ▸ ho.returned.1, fun t ht => ho.returned.2 t (htasks' ▸ ht)⟩, ?_, ?_⟩
    · rw [hnumbers]
      intro hx hy
      rcases List.mem_append.1 hy with hy | hy
      · exact ho.ahead (hbefore ▸ List.mem_cons_of_mem _ hx) hy
      · -- the first pending message is the oldest
        have hsorted := h.sorted
        rw [hbefore] at hsorted
        have hle := (List.pairwise_cons.1 hsorted).1 x hx
        have hym := List.mem_singleton.1 hy
        omega
    · rw [hnumbers]
      intro hx hy
      rcases List.mem_append.1 hx with hx | hx
      · rcases List.mem_append.1 hy with hy | hy
        · exact (ho.sent hx hy).append _
        · rw [List.mem_singleton.1 hy]
          exact Before.concat hx
      · have hxm := List.mem_singleton.1 hx
        have hunsent := ho.ahead (by rw [hbefore, hxm]; exact List.mem_cons_self)
        rcases List.mem_append.1 hy with hy | hy
        · exact absurd hy hunsent
        · have hym := List.mem_singleton.1 hy
          omega
theorem inTurn_step (h : Kept cfg s) (hlt : x < y) (ho : InTurn x y s)
    (hstep : step cfg s e = some s') : InTurn x y s' := by
  obtain ⟨tasks, hperm, hmoves⟩ := step_moves hstep
  replace h := h.perm hperm
  replace ho := ho.perm hperm
  generalize { s with tasks := tasks } = u at h ho hmoves
  exact (messageStep_of hmoves).inTurn h hlt ho

/-- A number that has not been given out has not been handed over. -/
theorem inTurn_of_returned (h : Kept cfg s) (hx : MessageReturned s x) (hy : s.messages ≤ y) :
    InTurn x y s := by
  have hnot : y ∉ handedNumbers s := by
    intro hmem
    have hpos := messagePlaces_pos_of_handed hmem
    rw [h.fresh y hy] at hpos
    exact Nat.lt_irrefl _ hpos
  exact ⟨hx, fun _ => hnot, fun _ hmem => absurd hmem hnot⟩

theorem inTurn_run {run : List Event} (h : Kept cfg s) (hlt : x < y) (ho : InTurn x y s)
    (hrun : runFrom (step cfg) s run = some s') : InTurn x y s' := by
  refine (runFrom_invariant (I := fun s => Kept cfg s ∧ InTurn x y s) ?_ ⟨h, ho⟩ hrun).2
  intro s e s' hI hstep
  exact ⟨kept_step hI.1 hstep, inTurn_step hI.1 hlt hI.2 hstep⟩

/-- The call that pended a message has returned. -/
theorem Kept.returned (h : Kept cfg s) (hx : x ∈ pendingNumbers s) : MessageReturned s x := by
  refine ⟨h.lt_messages (messagePlaces_pos_of_pending hx), fun t ht hmem => ?_⟩
  have honce := h.once x
  have hpending := List.count_pos_iff.2 hx
  have htask := List.count_pos_iff.2 hmem
  obtain ⟨l₁, l₂, hl⟩ := List.append_of_mem ht
  simp only [messagePlaces, hl, tally_append, tally_cons] at honce
  omega

/-- Data is pended within the limit of its caller and that of the sessions. -/
def PendsWithin (cfg : Config) (run : List Event) : Prop :=
  ∀ es e es' t t', run = es ++ e :: es' → runFrom (step cfg) init es = some t →
    step cfg t e = some t' → t.m_vPending.length < t'.m_vPending.length →
      ∃ size iMax, e = .sendRawOrPend size iMax ∧
        t'.m_iPendingBytes ≤ min iMax cfg.iMaxSendQueueBytes

/-- Pended data goes to a session, oldest first, or it is given up. -/
def LeavesSent (cfg : Config) (run : List Event) : Prop :=
  ∀ es e es' t t' m, run = es ++ e :: es' → runFrom (step cfg) init es = some t →
    step cfg t e = some t' → m ∈ t.m_vPending → m ∉ t'.m_vPending →
      e = .failHeldCalls ∨
        ∃ sid, t.m_vPending = m :: t'.m_vPending ∧ t'.handedRaw = t.handedRaw ++ [(m.number, sid)]

theorem pendsWithin_step (hstep : step cfg s e = some s')
    (hmore : s.m_vPending.length < s'.m_vPending.length) :
    ∃ size iMax, e = .sendRawOrPend size iMax ∧
      s'.m_iPendingBytes ≤ min iMax cfg.iMaxSendQueueBytes := by
  obtain ⟨tasks, -, hmoves⟩ := step_moves hstep
  cases messageStep_of hmoves with
  | still hpending =>
    rcases hpending with heq | ⟨heq, -⟩
    · rw [heq] at hmore
      exact absurd hmore (Nat.lt_irrefl _)
    · rw [heq] at hmore
      exact absurd hmore (Nat.not_lt_zero _)
  | direct m _ _ _ _ _ hpending =>
    rw [hpending] at hmore
    exact absurd hmore (Nat.lt_irrefl _)
  | pended m iMax he _ _ _ _ _ _ _ hroom => exact ⟨m.size, iMax, he, hroom⟩
  | sent m sid rest _ _ _ hpending =>
    rw [hpending] at hmore
    exact absurd hmore (Nat.lt_irrefl _)
  | flushed m sid hpending =>
    have hlength := congrArg List.length hpending
    simp only [List.length_cons] at hlength
    omega

theorem leavesSent_step (hstep : step cfg s e = some s') (hm : m ∈ s.m_vPending)
    (hgone : m ∉ s'.m_vPending) :
    e = .failHeldCalls ∨
      ∃ sid, s.m_vPending = m :: s'.m_vPending ∧ s'.handedRaw = s.handedRaw ++ [(m.number, sid)] := by
  obtain ⟨tasks, -, hmoves⟩ := step_moves hstep
  cases messageStep_of hmoves with
  | still hpending =>
    rcases hpending with heq | ⟨-, he⟩
    · rw [heq] at hgone
      exact absurd hm hgone
    · exact Or.inl he
  | direct m' _ _ _ _ _ hpending =>
    rw [hpending] at hgone
    exact absurd hm hgone
  | pended m' iMax _ _ _ _ _ _ hpending =>
    rw [hpending] at hgone
    exact absurd (List.mem_append_left _ hm) hgone
  | sent m' sid rest _ _ _ hpending =>
    rw [hpending] at hgone
    exact absurd hm hgone
  | flushed m' sid hpending _ _ _ hhanded =>
    have hsame : m = m' := by
      have hcons : m ∈ m' :: s'.m_vPending := hpending ▸ hm
      exact (List.mem_cons.1 hcons).resolve_right hgone
    rw [hsame]
    exact Or.inr ⟨sid, hpending, hhanded⟩

/-- What a run does to raw data, and the state that it reaches. -/
structure PendingKept (cfg : Config) (run : List Event) (s : State) : Prop where
  /-- Each message is handed over at most once, after it was accepted. -/
  once : (handedNumbers s).Nodup
  accepted : ∀ x ∈ handedNumbers s, x < s.messages
  pended : ∀ x ∈ pendingNumbers s, MessageReturned s x
  /-- A message goes before all that are accepted after its call has returned. -/
  order : ∀ es es' t x y, run = es ++ es' → runFrom (step cfg) init es = some t →
    MessageReturned t x → t.messages ≤ y → y ∈ handedNumbers s →
      x ∉ pendingNumbers s ∧ (x ∈ handedNumbers s → Before x y (handedNumbers s))
  bytes : s.m_iPendingBytes = messageBytes s.m_vPending
  limit : s.m_iPendingBytes ≤ cfg.iMaxSendQueueBytes
  admits : PendsWithin cfg run
  leaves : LeavesSent cfg run

/-- **Pending data is sent first, in order and once.** In every run: no message is handed over
twice; a message whose call has returned, as that of every pending message has, goes before all that
are accepted later; the bytes are those of the pending messages and within their limits; and pending
data is sent, oldest first, or given up by `FailHeldCalls`. -/
theorem pending_kept {cfg : Config} {run : List Event} {s : State}
    (hrun : runFrom (step cfg) init run = some s) : PendingKept cfg run s := by
  have h := kept_run (kept_init cfg) hrun
  refine ⟨?_, fun x hx => h.lt_messages (messagePlaces_pos_of_handed hx), fun x hx => h.returned hx,
    ?_, h.links.bytes, h.links.limit, ?_, ?_⟩
  · rw [List.nodup_iff_count_le_one]
    intro x
    have honce := h.once x
    simp only [messagePlaces] at honce
    omega
  · intro es es' t x y hsplit ht hx hy hsent
    obtain ⟨t', ht', hrest⟩ := runFrom_append.1 (hsplit ▸ hrun)
    obtain rfl := Option.some.inj (ht.symm.trans ht')
    have hkept := kept_run (kept_init cfg) ht
    have hturn := inTurn_run hkept (hx.1.trans_le hy) (inTurn_of_returned hkept hx hy) hrest
    exact ⟨fun hpending => hturn.ahead hpending hsent, fun hx' => hturn.sent hx' hsent⟩
  · intro es e es' t t' _ _ hstep hmore
    exact pendsWithin_step hstep hmore
  · intro es e es' t t' m _ _ hstep hm hgone
    exact leavesSent_step hstep hm hgone

/-! ## Two callers outside the lock -/

/-- Two messages are accepted while the manager is connected. The second caller sends first. -/
def sentOutOfTurn : List Event :=
  [.addSession, .run (.addSession 1), .run (.flushPending 1), .run (.flushHeld 1),
    .sendRawOrPend 3 100, .sendRawOrPend 3 100, .run (.sendRaw ⟨1, 3⟩ 1), .run (.sendRaw ⟨0, 3⟩ 1)]

/-- **Callers that send outside the lock may pass each other.** -/
theorem handed_out_of_turn :
    ∃ s, runFrom (step ⟨100⟩) init sentOutOfTurn = some s ∧
      ¬ (handedNumbers s).Pairwise (· < ·) := by
  have hrun : (runFrom (step ⟨100⟩) init sentOutOfTurn).map (fun s =>
      decide (handedNumbers s = [1, 0])) = some true := by
    decide +kernel
  obtain ⟨s, hs, hfacts⟩ := Option.map_eq_some_iff.1 hrun
  refine ⟨s, hs, ?_⟩
  rw [of_decide_eq_true hfacts]
  decide

/-- Two messages are pended, one of them is sent to a session that then closes, and the other is
sent after the next connect, before a later one. -/
def pendedThenSent : List Event :=
  [.sendRawOrPend 3 100, .sendRawOrPend 4 100, .addSession, .run (.addSession 1),
    .run (.flushPending 1), .closeSession 1, .run (.flushPending 1), .onDelSession 1, .addSession,
    .run (.addSession 2), .run (.flushPending 2), .run (.flushPending 2), .sendRawOrPend 5 100,
    .run (.sendRaw ⟨2, 5⟩ 2)]

theorem pending_kept_pendedThenSent :
    ∃ s, runFrom (step ⟨100⟩) init pendedThenSent = some s ∧
      PendingKept ⟨100⟩ pendedThenSent s ∧ s.handedRaw = [(0, 1), (1, 2), (2, 2)] ∧
      s.m_vPending = [] := by
  have hrun : (runFrom (step ⟨100⟩) init pendedThenSent).map (fun s =>
      decide (s.handedRaw = [(0, 1), (1, 2), (2, 2)] ∧ s.m_vPending = [])) = some true := by
    decide +kernel
  obtain ⟨s, hs, hfacts⟩ := Option.map_eq_some_iff.1 hrun
  exact ⟨s, hs, pending_kept hs, of_decide_eq_true hfacts⟩

end OpenIdea.Rpc.ClientManager
