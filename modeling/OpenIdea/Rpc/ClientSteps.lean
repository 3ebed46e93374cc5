import Mathlib.Data.List.Count
import OpenIdea.Rpc.ClientManager

/-!
# The steps of a client manager

`CallMoves` and `RawMoves` list what one step can do: the first the steps of calls, the second those
of raw data and connections. A step of a task starts from the state with the task first in the list;
the order of the list does not matter (`step_moves`).

The invariants that both sides need come next: one task at most has the client lock, and what a task
may be depends on whether the manager has ever been connected (`Phase`).
-/

set_option autoImplicit false

namespace OpenIdea.Rpc.ClientManager

open OpenIdea.Lib OpenIdea.Lib.Runs

/-! ## Sends -/

/-- The session takes `size` bytes more. -/
structure Accepts (stSession : SessionState) (size : ℕ) (stSession' : SessionState) : Prop where
  inMap : stSession.inMap = true
  isOpen : stSession.closed = false
  room : stSession.queuedBytes + size ≤ stSession.maxSendQueueBytes
  eq : stSession' = { stSession with queuedBytes := stSession.queuedBytes + size }

variable {iSessionId : ℤ} {s s' : State} {e : Event} {cfg : Config}

theorem sendBytesResult_ok {size : ℕ} (hok : (s.sendBytesResult iSessionId size).1 = oiOk) :
    Accepts (s.sessions iSessionId) size (s.sendBytesResult iSessionId size).2 := by
  have hconnect : oiErrConnect ≠ oiOk := by decide
  have hbusy : oiErrBusy ≠ oiOk := by decide
  simp only [State.sendBytesResult, SessionState.sendResult] at hok ⊢
  split at hok
  · rename_i hmap
    rw [if_pos hmap]
    split at hok
    · exact absurd hok hconnect
    · rename_i hclosed
      split at hok
      · exact absurd hok hbusy
      · rename_i hroom
        rw [if_neg hclosed, if_neg hroom]
        have hclosed' : (s.sessions iSessionId).closed = false := by simpa using hclosed
        exact ⟨hmap, hclosed', by omega, rfl⟩
  · exact absurd hok hconnect

theorem sendCall_some {stCall : HeldCall} (hsend : s.sendCall stCall iSessionId = some s') :
    ∃ stSession, Accepts (s.sessions iSessionId) stCall.size stSession ∧
      s' = { s.setSession iSessionId stSession with
        handed := s.handed ++ [(stCall.callId, iSessionId)] } := by
  rw [State.sendCall] at hsend
  obtain ⟨hok, hsend⟩ := Option.ite_none_right_eq_some.1 hsend
  exact ⟨_, sendBytesResult_ok hok, (Option.some.inj hsend).symm⟩

theorem sendMessage_some {stMessage : Message}
    (hsend : s.sendMessage stMessage iSessionId = some s') :
    ∃ stSession, Accepts (s.sessions iSessionId) stMessage.size stSession ∧
      s' = { s.setSession iSessionId stSession with
        handedRaw := s.handedRaw ++ [(stMessage.number, iSessionId)] } := by
  rw [State.sendMessage] at hsend
  obtain ⟨hok, hsend⟩ := Option.ite_none_right_eq_some.1 hsend
  exact ⟨_, sendBytesResult_ok hok, (Option.some.inj hsend).symm⟩

/-- An open session refuses data only for want of room. -/
theorem sendMessage_none {stMessage : Message} (hsend : s.sendMessage stMessage iSessionId = none)
    (hmap : (s.sessions iSessionId).inMap = true) (hopen : (s.sessions iSessionId).closed = false) :
    (s.sessions iSessionId).maxSendQueueBytes <
      (s.sessions iSessionId).queuedBytes + stMessage.size := by
  by_contra hroom
  rw [State.sendMessage, if_pos] at hsend
  · cases hsend
  · simp only [State.sendBytesResult, if_pos hmap, SessionState.sendResult, hopen,
      Bool.false_eq_true, if_false]
    rw [if_neg (by omega)]

theorem claimRpcSend_some {iCallId : ℕ} (hclaim : s.claimRpcSend iCallId iSessionId = some s') :
    s.calls iCallId ≠ none ∧
      s' = { s with
        calls := Function.update s.calls iCallId (some ⟨false, iSessionId⟩)
        claimed := (iCallId, iSessionId) :: s.claimed } := by
  obtain ⟨calls, hcalls, rfl⟩ := Option.map_eq_some_iff.1 hclaim
  obtain ⟨stSlot, hslot, rfl⟩ := Option.map_eq_some_iff.1 hcalls
  exact ⟨by rw [hslot]; exact Option.some_ne_none _, rfl⟩

theorem claimRpcSend_none {iCallId : ℕ} (hclaim : s.claimRpcSend iCallId iSessionId = none) :
    s.calls iCallId = none :=
  Option.map_eq_none_iff.1 (Option.map_eq_none_iff.1 hclaim)

/-! ## What a step can do -/

/-- A call has been submitted. -/
def State.submit (s : State) (iCallId : ℕ) : State := { s with submitted := iCallId :: s.submitted }

/-- The steps of calls. -/
inductive CallMoves : Event → State → State → Prop where
  | bind (s : State) : CallMoves .bindRpcCall s
      { s with
        bound := s.bound + 1
        calls := Function.update s.calls s.bound (some ⟨false, invalidSid⟩) }
  | limits (s : State) (iCount iBytes : ℕ) (hfree : s.locked = false) :
      CallMoves (.setPendingCallLimits iCount iBytes) s
        { s with m_iHeldMaxCount := iCount, m_iHeldMaxBytes := iBytes }
  | direct (s : State) (c : HeldCall) (hfree : s.locked = false) (hbound : c.callId < s.bound)
      (hnew : c.callId ∉ s.submitted) (hcan : s.canSend = true) :
      CallMoves (.submitCall c) s ((s.submit c.callId).lock.spawn (.claim c s.m_iSessionId))
  | refused (e : Event) (s : State) (c : HeldCall) (hfree : s.locked = false)
      (hbound : c.callId < s.bound) (hnew : c.callId ∉ s.submitted) :
      CallMoves e s ((s.submit c.callId).spawn (.wake c.callId))
  | holding (e : Event) (s : State) (c : HeldCall) (hfree : s.locked = false)
      (hbound : c.callId < s.bound) (hnew : c.callId ∉ s.submitted)
      (hnever : s.m_bEverConnected = false)
      (hroom : s.hold.full s.m_iHeldMaxCount s.m_iHeldMaxBytes c.size = false) :
      CallMoves e s ((s.submit c.callId).lock.spawn (.mark c))
  | left (e : Event) (s : State) : CallMoves e s s
  | failHeldCalls (s : State) (hfree : s.locked = false) :
      CallMoves .failHeldCalls s s.failHeldCalls
  | takeSlot (s : State) (i : ℕ) : CallMoves (.takeSlot i) s (s.takeSlot i)
  | markMissed (s : State) (c : HeldCall) (hslot : s.calls c.callId = none) :
      CallMoves (.run (.mark c)) (s.spawn (.mark c)) s.unlock
  | marked (s : State) (c : HeldCall) (stSlot : CallSlot) (hslot : s.calls c.callId = some stSlot) :
      CallMoves (.run (.mark c)) (s.spawn (.mark c))
        ({ s with
          calls := Function.update s.calls c.callId
            (some { stSlot with bAwaitingConnect := true }) }.spawn (.queue c))
  | queued (s : State) (c : HeldCall) :
      CallMoves (.run (.queue c)) (s.spawn (.queue c)) { s with hold := s.hold.push c }.unlock
  | claimMissed (s : State) (c : HeldCall) (sid : ℤ) (hslot : s.calls c.callId = none) :
      CallMoves (.run (.claim c sid)) (s.spawn (.claim c sid)) s.unlock
  | claimed (s s' : State) (c : HeldCall) (sid : ℤ)
      (hclaim : s.claimRpcSend c.callId sid = some s') :
      CallMoves (.run (.claim c sid)) (s.spawn (.claim c sid)) (s'.unlock.spawn (.submit c sid))
  | sent (s s' : State) (c : HeldCall) (sid : ℤ) (hsend : s.sendCall c sid = some s') :
      CallMoves (.run (.submit c sid)) (s.spawn (.submit c sid)) s'
  | sendFailed (s : State) (c : HeldCall) (sid : ℤ) :
      CallMoves (.run (.submit c sid)) (s.spawn (.submit c sid)) (s.spawn (.wake c.callId))
  | wake (s : State) (i : ℕ) : CallMoves (.run (.wake i)) (s.spawn (.wake i)) (s.takeSlot i)
  | finished (s : State) (i : ℕ) :
      CallMoves (.run (.finish i false)) (s.spawn (.finish i false)) s
  | dropped (s : State) (i : ℕ) (hold : HoldList) (hfree : s.locked = false)
      (hdrop : s.hold.drop i = some hold) :
      CallMoves (.run (.finish i true)) (s.spawn (.finish i true)) { s with hold := hold }
  | flushHeld (s : State) (sid : ℤ) (hfree : s.locked = false) :
      CallMoves (.run (.flushHeld sid)) (s.spawn (.flushHeld sid)) (s.flushHeldCalls sid)
  | flushDone (s : State) (sid : ℤ) :
      CallMoves (.run (.flush sid [])) (s.spawn (.flush sid [])) s
  | flushMissed (s : State) (sid : ℤ) (c : HeldCall) (v : List HeldCall)
      (hslot : s.calls c.callId = none) :
      CallMoves (.run (.flush sid (c :: v))) (s.spawn (.flush sid (c :: v)))
        (s.spawn (.flush sid v))
  | flushClaimed (s s' : State) (sid : ℤ) (c : HeldCall) (v : List HeldCall)
      (hclaim : s.claimRpcSend c.callId sid = some s') :
      CallMoves (.run (.flush sid (c :: v))) (s.spawn (.flush sid (c :: v)))
        (s'.spawn (.flushSend sid c v))
  | flushSent (s s' : State) (sid : ℤ) (c : HeldCall) (v : List HeldCall)
      (hsend : s.sendCall c sid = some s') :
      CallMoves (.run (.flushSend sid c v)) (s.spawn (.flushSend sid c v)) (s'.spawn (.flush sid v))
  | flushFailed (s : State) (sid : ℤ) (c : HeldCall) (v : List HeldCall) :
      CallMoves (.run (.flushSend sid c v)) (s.spawn (.flushSend sid c v))
        ((s.spawn (.wake c.callId)).spawn (.flush sid v))
  | failDone (s : State) : CallMoves (.run (.fail [])) (s.spawn (.fail [])) s
  | failNext (s : State) (c : HeldCall) (v : List HeldCall) :
      CallMoves (.run (.fail (c :: v))) (s.spawn (.fail (c :: v)))
        ((s.takeSlot c.callId).spawn (.fail v))

/-- The steps of raw data and connections. -/
inductive RawMoves (cfg : Config) : Event → State → State → Prop where
  | direct (e : Event) (s : State) (size : ℕ) (hfree : s.locked = false)
      (hcan : s.canSend = true) :
      RawMoves cfg e s
        ({ s with messages := s.messages + 1 }.spawn (.sendRaw ⟨s.messages, size⟩ s.m_iSessionId))
  | refused (e : Event) (s : State) : RawMoves cfg e s { s with messages := s.messages + 1 }
  | pended (s : State) (size iMax : ℕ) (hfree : s.locked = false) (hcan : s.canSend = false)
      (hroom : s.pendingFull (min iMax cfg.iMaxSendQueueBytes) size = false) :
      RawMoves cfg (.sendRawOrPend size iMax) s
        { s with
          messages := s.messages + 1
          m_vPending := s.m_vPending ++ [⟨s.messages, size⟩]
          m_iPendingBytes := s.m_iPendingBytes + size }
  | addSession (s : State) : RawMoves cfg .addSession s (s.addSession cfg)
  | onDelSession (s : State) (sid : ℤ) (hfree : s.locked = false) :
      RawMoves cfg (.onDelSession sid) s (s.onDelSession sid)
  | closeSession (s : State) (sid : ℤ) :
      RawMoves cfg (.closeSession sid) s (s.setSession sid (s.sessions sid).close)
  | onBytesSent (s : State) (sid : ℤ) (n : ℕ) :
      RawMoves cfg (.onBytesSent sid n) s (s.setSession sid
        { s.sessions sid with queuedBytes := (s.sessions sid).queuedBytes - n })
  | sent (s s' : State) (m : Message) (sid : ℤ) (hsend : s.sendMessage m sid = some s') :
      RawMoves cfg (.run (.sendRaw m sid)) (s.spawn (.sendRaw m sid)) s'
  | sendFailed (s : State) (m : Message) (sid : ℤ) :
      RawMoves cfg (.run (.sendRaw m sid)) (s.spawn (.sendRaw m sid)) s
  | onAddSession (s : State) (sid : ℤ) (hfree : s.locked = false) :
      RawMoves cfg (.run (.addSession sid)) (s.spawn (.addSession sid)) (s.onAddSession sid)
  | pendingSent (s s' : State) (sid : ℤ) (m : Message) (v : List Message)
      (hpending : s.m_vPending = m :: v) (hsend : s.sendMessage m sid = some s') :
      RawMoves cfg (.run (.flushPending sid)) (s.spawn (.flushPending sid))
        ({ s' with m_vPending := v, m_iPendingBytes := subSize s.m_iPendingBytes m.size }.spawn
          (.flushPending sid))
  | pendingFlushed (s : State) (sid : ℤ)
      (hstop : ∀ m v, s.m_vPending = m :: v → s.sendMessage m sid = none) :
      RawMoves cfg (.run (.flushPending sid)) (s.spawn (.flushPending sid)) (s.pendingFlushed sid)

theorem runTask_moves (cfg : Config) {t : Task} (hrun : runTask s t = some s') :
    CallMoves (.run t) (s.spawn t) s' ∨ RawMoves cfg (.run t) (s.spawn t) s' := by
  cases t with
  | mark c =>
    rw [runTask] at hrun
    cases hslot : s.calls c.callId with
    | none =>
      simp only [CallTable.mark, hslot, Option.map_none] at hrun
      obtain rfl := Option.some.inj hrun
      exact Or.inl (.markMissed s c hslot)
    | some stSlot =>
      simp only [CallTable.mark, hslot, Option.map_some] at hrun
      obtain rfl := Option.some.inj hrun
      exact Or.inl (.marked s c stSlot hslot)
  | queue c =>
    obtain rfl := Option.some.inj hrun
    exact Or.inl (.queued s c)
  | claim c sid =>
    rw [runTask] at hrun
    cases hclaim : s.claimRpcSend c.callId sid with
    | none =>
      simp only [hclaim] at hrun
      obtain rfl := Option.some.inj hrun
      exact Or.inl (.claimMissed s c sid (claimRpcSend_none hclaim))
    | some s₁ =>
      simp only [hclaim] at hrun
      obtain rfl := Option.some.inj hrun
      exact Or.inl (.claimed s s₁ c sid hclaim)
  | submit c sid =>
    rw [runTask] at hrun
    cases hsend : s.sendCall c sid with
    | none =>
      simp only [hsend] at hrun
      obtain rfl := Option.some.inj hrun
      exact Or.inl (.sendFailed s c sid)
    | some s₁ =>
      simp only [hsend] at hrun
      obtain rfl := Option.some.inj hrun
      exact Or.inl (.sent s s₁ c sid hsend)
  | wake i =>
    obtain rfl := Option.some.inj hrun
    exact Or.inl (.wake s i)
  | finish i bAwaitingConnect =>
    cases bAwaitingConnect with
    | false =>
      obtain rfl := Option.some.inj hrun
      exact Or.inl (.finished s i)
    | true =>
      rw [runTask] at hrun
      obtain ⟨hlock, hrun⟩ := Option.ite_none_left_eq_some.1 hrun
      obtain ⟨hold, hdrop, rfl⟩ := Option.map_eq_some_iff.1 hrun
      exact Or.inl (.dropped s i hold (by simpa using hlock) hdrop)
  | sendRaw m sid =>
    rw [runTask] at hrun
    cases hsend : s.sendMessage m sid with
    | none =>
      simp only [hsend] at hrun
      obtain rfl := Option.some.inj hrun
      exact Or.inr (.sendFailed s m sid)
    | some s₁ =>
      simp only [hsend] at hrun
      obtain rfl := Option.some.inj hrun
      exact Or.inr (.sent s s₁ m sid hsend)
  | addSession sid =>
    rw [runTask] at hrun
    obtain ⟨hlock, rfl⟩ := of_guard_not hrun
    exact Or.inr (.onAddSession s sid (by simpa using hlock))
  | flushPending sid =>
    rw [runTask] at hrun
    cases hpending : s.m_vPending with
    | nil =>
      simp only [hpending] at hrun
      obtain rfl := Option.some.inj hrun
      refine Or.inr (.pendingFlushed s sid ?_)
      intro m v hcons
      rw [hpending] at hcons
      cases hcons
    | cons m v =>
      simp only [hpending] at hrun
      cases hsend : s.sendMessage m sid with
      | none =>
        simp only [hsend] at hrun
        obtain rfl := Option.some.inj hrun
        refine Or.inr (.pendingFlushed s sid ?_)
        intro m' v' hcons
        obtain ⟨rfl, rfl⟩ := List.cons.inj (hpending.symm.trans hcons)
        exact hsend
      | some s₁ =>
        simp only [hsend] at hrun
        obtain rfl := Option.some.inj hrun
        exact Or.inr (.pendingSent s s₁ sid m v hpending hsend)
  | flushHeld sid =>
    rw [runTask] at hrun
    obtain ⟨hlock, rfl⟩ := of_guard_not hrun
    exact Or.inl (.flushHeld s sid (by simpa using hlock))
  | flush sid vHeld =>
    cases vHeld with
    | nil =>
      obtain rfl := Option.some.inj hrun
      exact Or.inl (.flushDone s sid)
    | cons c v =>
      rw [runTask] at hrun
      cases hclaim : s.claimRpcSend c.callId sid with
      | none =>
        simp only [hclaim] at hrun
        obtain rfl := Option.some.inj hrun
        exact Or.inl (.flushMissed s sid c v (claimRpcSend_none hclaim))
      | some s₁ =>
        simp only [hclaim] at hrun
        obtain rfl := Option.some.inj hrun
        exact Or.inl (.flushClaimed s s₁ sid c v hclaim)
  | flushSend sid c v =>
    rw [runTask] at hrun
    cases hsend : s.sendCall c sid with
    | none =>
      simp only [hsend] at hrun
      obtain rfl := Option.some.inj hrun
      exact Or.inl (.flushFailed s sid c v)
    | some s₁ =>
      simp only [hsend] at hrun
      obtain rfl := Option.some.inj hrun
      exact Or.inl (.flushSent s s₁ sid c v hsend)
  | fail vHeld =>
    cases vHeld with
    | nil =>
      obtain rfl := Option.some.inj hrun
      exact Or.inl (.failDone s)
    | cons c v =>
      obtain rfl := Option.some.inj hrun
      exact Or.inl (.failNext s c v)

theorem canSubmit_iff {i : ℕ} :
    s.canSubmit i = true ↔ s.locked = false ∧ i < s.bound ∧ i ∉ s.submitted := by
  simp [State.canSubmit, and_assoc]

theorem holdCallLocked_moves {c : HeldCall} (hfree : s.locked = false) (hbound : c.callId < s.bound)
    (hnew : c.callId ∉ s.submitted) (hnever : s.m_bEverConnected = false) :
    CallMoves e s ((s.submit c.callId).holdCallLocked c) := by
  rw [State.holdCallLocked]
  split
  · exact .refused e s c hfree hbound hnew
  · rename_i hroom
    exact .holding e s c hfree hbound hnew hnever (Bool.not_eq_true _ ▸ hroom)

/-- **What a step can do.** The task of a step that runs one is taken to stand first. -/
theorem step_moves (hstep : step cfg s e = some s') :
    ∃ tasks, tasks.Perm s.tasks ∧ (CallMoves e { s with tasks := tasks } s' ∨
      RawMoves cfg e { s with tasks := tasks } s') := by
  cases e with
  | run t =>
    obtain ⟨hmem, hstep⟩ := Option.ite_none_right_eq_some.1 hstep
    exact ⟨t :: s.tasks.erase t, (List.perm_cons_erase hmem).symm, runTask_moves cfg hstep⟩
  | bindRpcCall =>
    obtain rfl := Option.some.inj hstep
    exact ⟨s.tasks, .refl _, Or.inl (.bind s)⟩
  | submitCall c =>
    obtain ⟨hcan, hstep⟩ := Option.ite_none_right_eq_some.1 hstep
    obtain ⟨hfree, hbound, hnew⟩ := canSubmit_iff.1 hcan
    obtain rfl := Option.some.inj hstep
    refine ⟨s.tasks, .refl _, Or.inl ?_⟩
    show CallMoves _ s (s.submitCall c)
    simp only [State.submitCall]
    split
    · rename_i hsend
      exact .direct s c hfree hbound hnew hsend
    · split
      · exact .refused _ s c hfree hbound hnew
      · rename_i hever
        exact holdCallLocked_moves hfree hbound hnew (by simpa using hever)
  | tryPendCall c =>
    obtain ⟨hcan, hstep⟩ := Option.ite_none_right_eq_some.1 hstep
    obtain ⟨hfree, hbound, hnew⟩ := canSubmit_iff.1 hcan
    obtain rfl := Option.some.inj hstep
    refine ⟨s.tasks, .refl _, Or.inl ?_⟩
    show CallMoves _ s (s.tryPendCall c)
    simp only [State.tryPendCall]
    split
    · exact .left _ s
    · rename_i hever
      simp only [Bool.or_eq_true, not_or, Bool.not_eq_true] at hever
      exact holdCallLocked_moves hfree hbound hnew hever.1
  | sendRaw size =>
    obtain ⟨hlock, rfl⟩ := of_guard_not hstep
    refine ⟨s.tasks, .refl _, Or.inr ?_⟩
    show RawMoves cfg _ s (s.sendRaw size)
    simp only [State.sendRaw]
    split
    · rename_i hcan
      exact .direct _ s size (by simpa using hlock) hcan
    · exact .refused _ s
  | sendRawOrPend size iMax =>
    obtain ⟨hlock, rfl⟩ := of_guard_not hstep
    refine ⟨s.tasks, .refl _, Or.inr ?_⟩
    show RawMoves cfg _ s (s.sendRawOrPend cfg size iMax)
    simp only [State.sendRawOrPend]
    split
    · rename_i hcan
      exact .direct _ s size (by simpa using hlock) hcan
    · rename_i hcan
      split
      · exact .refused _ s
      · rename_i hroom
        exact .pended s size iMax (by simpa using hlock) (Bool.not_eq_true _ ▸ hcan)
          (Bool.not_eq_true _ ▸ hroom)
  | setPendingCallLimits iCount iBytes =>
    obtain ⟨hlock, rfl⟩ := of_guard_not hstep
    exact ⟨s.tasks, .refl _, Or.inl (.limits s iCount iBytes (by simpa using hlock))⟩
  | addSession =>
    obtain rfl := Option.some.inj hstep
    exact ⟨s.tasks, .refl _, Or.inr (.addSession s)⟩
  | failHeldCalls =>
    obtain ⟨hlock, rfl⟩ := of_guard_not hstep
    exact ⟨s.tasks, .refl _, Or.inl (.failHeldCalls s (by simpa using hlock))⟩
  | onDelSession sid =>
    obtain ⟨hlock, rfl⟩ := of_guard_not hstep
    exact ⟨s.tasks, .refl _, Or.inr (.onDelSession s sid (by simpa using hlock))⟩
  | takeSlot i =>
    obtain rfl := Option.some.inj hstep
    exact ⟨s.tasks, .refl _, Or.inl (.takeSlot s i)⟩
  | closeSession sid =>
    obtain rfl := Option.some.inj hstep
    exact ⟨s.tasks, .refl _, Or.inr (.closeSession s sid)⟩
  | onBytesSent sid n =>
    obtain rfl := Option.some.inj hstep
    exact ⟨s.tasks, .refl _, Or.inr (.onBytesSent s sid n)⟩

/-! ## The client lock and the first connect -/

namespace Task

/-- The task has the client lock. -/
def holdsLock : Task → Bool
  | .mark _ | .queue _ | .claim _ _ | .flushPending _ => true
  | _ => false

/-- Calls are put into the hold before the first connect is done, and sent after it. -/
def fits (bEverConnected : Bool) : Task → Bool
  | .mark _ | .queue _ => !bEverConnected
  | .claim _ _ | .submit _ _ | .flushHeld _ | .flush _ _ | .flushSend _ _ _ => bEverConnected
  | _ => true

end Task

/-- What the tasks and the flags of the manager have to do with each other. -/
structure Phase (s : State) : Prop where
  lock : s.tasks.countP Task.holdsLock = s.locked.toNat
  fits : ∀ t ∈ s.tasks, t.fits s.m_bEverConnected = true
  connected : s.m_bConnected = true →
    s.m_bEverConnected = true ∨ ∃ sid, Task.flushPending sid ∈ s.tasks

theorem phase_init : Phase init where
  lock := rfl
  fits := fun _ ht => absurd ht List.not_mem_nil
  connected := fun h => absurd h (by decide)

namespace Phase

theorem perm (h : Phase s) {tasks : List Task} (hperm : tasks.Perm s.tasks) :
    Phase { s with tasks := tasks } where
  lock := (hperm.countP_eq _).trans h.lock
  fits := fun t ht => h.fits t (hperm.subset ht)
  connected := fun hc => (h.connected hc).imp_right fun ⟨sid, hsid⟩ =>
    ⟨sid, hperm.symm.subset hsid⟩

variable {t : Task}

/-- Where nobody has the lock, no task is one that has it. -/
theorem not_holdsLock (h : Phase s) (hfree : s.locked = false) (ht : t ∈ s.tasks) :
    t.holdsLock = false := by
  have hzero : s.tasks.countP Task.holdsLock = 0 := by
    rw [h.lock, hfree]
    rfl
  simpa using List.countP_eq_zero.1 hzero t ht

/-- Next to a task that has the lock there is no other. -/
theorem not_holdsLock_of_spawn {u : Task} (h : Phase (s.spawn t)) (hholds : t.holdsLock = true)
    (hu : u ∈ s.tasks) : u.holdsLock = false := by
  have hcount : (t :: s.tasks).countP Task.holdsLock = s.locked.toNat := h.lock
  rw [List.countP_cons_of_pos hholds] at hcount
  have hle := Bool.toNat_le s.locked
  have hzero : s.tasks.countP Task.holdsLock = 0 := by omega
  simpa using List.countP_eq_zero.1 hzero u hu

theorem locked_of_spawn (h : Phase (s.spawn t)) (hholds : t.holdsLock = true) :
    s.locked = true := by
  have hcount : (t :: s.tasks).countP Task.holdsLock = s.locked.toNat := h.lock
  rw [List.countP_cons_of_pos hholds] at hcount
  cases hlocked : s.locked with
  | true => rfl
  | false =>
    rw [hlocked] at hcount
    simp at hcount

/-- A manager that can send outside the lock has been connected. -/
theorem ever_of_canSend (h : Phase s) (hfree : s.locked = false) (hcan : s.canSend = true) :
    s.m_bEverConnected = true := by
  rw [State.canSend, Bool.and_eq_true] at hcan
  rcases h.connected hcan.1 with hever | ⟨sid, hsid⟩
  · exact hever
  · exact absurd (h.not_holdsLock hfree hsid) (by simp [Task.holdsLock])

/-- A step that replaces the tasks `rem` by `add`. -/
theorem next (h : Phase s) (rem add : List Task) {rest : List Task} (htasks : s.tasks = rem ++ rest)
    (htasks' : s'.tasks = add ++ rest) (hlock : add.countP Task.holdsLock + s.locked.toNat =
      rem.countP Task.holdsLock + s'.locked.toNat)
    (hever : s'.m_bEverConnected = s.m_bEverConnected)
    (hadd : ∀ t ∈ add, t.fits s.m_bEverConnected = true)
    (hconnected : s'.m_bConnected = true → (∃ sid, Task.flushPending sid ∈ add) ∨
      (s.m_bConnected = true ∧ ∀ sid, Task.flushPending sid ∉ rem)) : Phase s' where
  lock := by
    have hcount := h.lock
    rw [htasks, List.countP_append] at hcount
    rw [htasks', List.countP_append]
    omega
  fits := by
    intro t ht
    rw [hever]
    rw [htasks'] at ht
    rcases List.mem_append.1 ht with ht | ht
    · exact hadd t ht
    · exact h.fits t (htasks ▸ List.mem_append_right _ ht)
  connected := by
    intro hc
    rw [hever, htasks']
    rcases hconnected hc with ⟨sid, hsid⟩ | ⟨hc', hrem⟩
    · exact Or.inr ⟨sid, List.mem_append_left _ hsid⟩
    · refine (h.connected hc').imp_right fun ⟨sid, hsid⟩ => ⟨sid, ?_⟩
      rw [htasks] at hsid
      exact List.mem_append_right _ ((List.mem_append.1 hsid).resolve_left (hrem sid))

end Phase

/-- A slot that is taken out leaves all but the table and the tasks alone. -/
theorem takeSlot_fields (s : State) (i : ℕ) :
    ∃ calls tasks, s.takeSlot i = { s with calls := calls, tasks := tasks } := by
  rw [State.takeSlot]
  cases s.calls i with
  | none => exact ⟨s.calls, s.tasks, rfl⟩
  | some stSlot => exact ⟨_, _, rfl⟩

/-- A slot that is taken out leaves one more task. -/
theorem phase_takeSlot (rem : List Task) {rest : List Task} (i : ℕ)
    (h : Phase { s with tasks := rem ++ rest }) (hs : s.tasks = rest)
    (hlock : rem.countP Task.holdsLock = 0) (hrem : ∀ sid, Task.flushPending sid ∉ rem) :
    Phase (s.takeSlot i) := by
  rw [State.takeSlot]
  cases s.calls i with
  | none =>
    refine h.next rem [] rfl hs ?_ rfl (by simp) fun hc => Or.inr ⟨hc, hrem⟩
    rw [hlock]
    rfl
  | some stSlot =>
    refine h.next rem [.finish i stSlot.bAwaitingConnect] rfl (congrArg _ hs) ?_ rfl
      (by simp [Task.fits]) fun hc => Or.inr ⟨hc, hrem⟩
    rw [hlock]
    rfl

theorem phase_callMoves (h : Phase s) (hmoves : CallMoves e s s') : Phase s' := by
  cases hmoves with
  | bind => exact h.next [] [] rfl rfl rfl rfl (by simp) fun hc => Or.inr ⟨hc, by simp⟩
  | limits => exact h.next [] [] rfl rfl rfl rfl (by simp) fun hc => Or.inr ⟨hc, by simp⟩
  | direct s c hfree _ _ hcan =>
    refine h.next [] [.claim c s.m_iSessionId] rfl rfl ?_ rfl ?_ fun hc => Or.inr ⟨hc, by simp⟩
    · rw [hfree]
      rfl
    · simpa [Task.fits] using h.ever_of_canSend hfree hcan
  | refused _ s c hfree =>
    exact h.next [] [.wake c.callId] rfl rfl rfl rfl (by simp [Task.fits]) fun hc =>
      Or.inr ⟨hc, by simp⟩
  | holding _ s c hfree _ _ hnever =>
    refine h.next [] [.mark c] rfl rfl ?_ rfl ?_ fun hc => Or.inr ⟨hc, by simp⟩
    · rw [hfree]
      rfl
    · simpa [Task.fits] using hnever
  | left => exact h
  | failHeldCalls s =>
    exact h.next [] [.fail s.hold.held] rfl rfl rfl rfl (by simp [Task.fits]) fun hc =>
      Or.inr ⟨hc, by simp⟩
  | takeSlot s i => exact phase_takeSlot [] i h rfl rfl (by simp)
  | markMissed s c =>
    refine h.next [.mark c] [] rfl rfl ?_ rfl (by simp) fun hc => Or.inr ⟨hc, by simp⟩
    rw [show (s.spawn (.mark c)).locked = true from h.locked_of_spawn rfl]
    rfl
  | marked s c stSlot =>
    refine h.next [.mark c] [.queue c] rfl rfl rfl rfl ?_ fun hc => Or.inr ⟨hc, by simp⟩
    simpa [Task.fits] using h.fits (.mark c) List.mem_cons_self
  | queued s c =>
    refine h.next [.queue c] [] rfl rfl ?_ rfl (by simp) fun hc => Or.inr ⟨hc, by simp⟩
    rw [show (s.spawn (.queue c)).locked = true from h.locked_of_spawn rfl]
    rfl
  | claimMissed s c sid =>
    refine h.next [.claim c sid] [] rfl rfl ?_ rfl (by simp) fun hc => Or.inr ⟨hc, by simp⟩
    rw [show (s.spawn (.claim c sid)).locked = true from h.locked_of_spawn rfl]
    rfl
  | claimed s s₁ c sid hclaim =>
    obtain ⟨-, rfl⟩ := claimRpcSend_some hclaim
    refine h.next [.claim c sid] [.submit c sid] rfl rfl ?_ rfl ?_ fun hc => Or.inr ⟨hc, by simp⟩
    · rw [show (s.spawn (.claim c sid)).locked = true from h.locked_of_spawn rfl]
      rfl
    · simpa [Task.fits] using h.fits (.claim c sid) List.mem_cons_self
  | sent s s₁ c sid hsend =>
    obtain ⟨stSession, -, rfl⟩ := sendCall_some hsend
    exact h.next [.submit c sid] [] rfl rfl rfl rfl (by simp) fun hc => Or.inr ⟨hc, by simp⟩
  | sendFailed s c sid =>
    exact h.next [.submit c sid] [.wake c.callId] rfl rfl rfl rfl (by simp [Task.fits]) fun hc =>
      Or.inr ⟨hc, by simp⟩
  | wake s i => exact phase_takeSlot [.wake i] i h rfl rfl (by simp)
  | finished s i =>
    exact h.next [.finish i false] [] rfl rfl rfl rfl (by simp) fun hc => Or.inr ⟨hc, by simp⟩
  | dropped s i hold =>
    exact h.next [.finish i true] [] rfl rfl rfl rfl (by simp) fun hc => Or.inr ⟨hc, by simp⟩
  | flushHeld s sid =>
    refine h.next [.flushHeld sid] [.flush sid s.hold.held] rfl rfl rfl rfl ?_ fun hc =>
      Or.inr ⟨hc, by simp⟩
    simpa [Task.fits] using h.fits (.flushHeld sid) List.mem_cons_self
  | flushDone s sid =>
    exact h.next [.flush sid []] [] rfl rfl rfl rfl (by simp) fun hc => Or.inr ⟨hc, by simp⟩
  | flushMissed s sid c v =>
    refine h.next [.flush sid (c :: v)] [.flush sid v] rfl rfl rfl rfl ?_ fun hc =>
      Or.inr ⟨hc, by simp⟩
    simpa [Task.fits] using h.fits (.flush sid (c :: v)) List.mem_cons_self
  | flushClaimed s s₁ sid c v hclaim =>
    obtain ⟨-, rfl⟩ := claimRpcSend_some hclaim
    refine h.next [.flush sid (c :: v)] [.flushSend sid c v] rfl rfl rfl rfl ?_ fun hc =>
      Or.inr ⟨hc, by simp⟩
    simpa [Task.fits] using h.fits (.flush sid (c :: v)) List.mem_cons_self
  | flushSent s s₁ sid c v hsend =>
    obtain ⟨stSession, -, rfl⟩ := sendCall_some hsend
    refine h.next [.flushSend sid c v] [.flush sid v] rfl rfl rfl rfl ?_ fun hc =>
      Or.inr ⟨hc, by simp⟩
    simpa [Task.fits] using h.fits (.flushSend sid c v) List.mem_cons_self
  | flushFailed s sid c v =>
    refine h.next [.flushSend sid c v] [.flush sid v, .wake c.callId] rfl rfl rfl rfl ?_ fun hc =>
      Or.inr ⟨hc, by simp⟩
    simpa [Task.fits] using h.fits (.flushSend sid c v) List.mem_cons_self
  | failDone s =>
    exact h.next [.fail []] [] rfl rfl rfl rfl (by simp) fun hc => Or.inr ⟨hc, by simp⟩
  | failNext s c v =>
    have htaken := phase_takeSlot [.fail (c :: v)] c.callId h rfl rfl (by simp)
    exact htaken.next [] [.fail v] rfl rfl rfl rfl (by simp [Task.fits]) fun hc =>
      Or.inr ⟨hc, by simp⟩

theorem phase_rawMoves (h : Phase s) (hmoves : RawMoves cfg e s s') : Phase s' := by
  cases hmoves with
  | direct _ s size =>
    exact h.next [] [.sendRaw ⟨s.messages, size⟩ s.m_iSessionId] rfl rfl rfl rfl
      (by simp [Task.fits]) fun hc => Or.inr ⟨hc, by simp⟩
  | refused => exact h.next [] [] rfl rfl rfl rfl (by simp) fun hc => Or.inr ⟨hc, by simp⟩
  | pended => exact h.next [] [] rfl rfl rfl rfl (by simp) fun hc => Or.inr ⟨hc, by simp⟩
  | addSession =>
    exact h.next [] [.addSession _] rfl rfl rfl rfl (by simp [Task.fits]) fun hc =>
      Or.inr ⟨hc, by simp⟩
  | onDelSession s sid =>
    rw [State.onDelSession]
    split
    · exact h.next [] [] rfl rfl rfl rfl (by simp) fun hc => absurd hc (by simp)
    · exact h
  | closeSession => exact h.next [] [] rfl rfl rfl rfl (by simp) fun hc => Or.inr ⟨hc, by simp⟩
  | onBytesSent => exact h.next [] [] rfl rfl rfl rfl (by simp) fun hc => Or.inr ⟨hc, by simp⟩
  | sent s s₁ m sid hsend =>
    obtain ⟨stSession, -, rfl⟩ := sendMessage_some hsend
    exact h.next [.sendRaw m sid] [] rfl rfl rfl rfl (by simp) fun hc => Or.inr ⟨hc, by simp⟩
  | sendFailed s m sid =>
    exact h.next [.sendRaw m sid] [] rfl rfl rfl rfl (by simp) fun hc => Or.inr ⟨hc, by simp⟩
  | onAddSession s sid hfree =>
    refine h.next [.addSession sid] [.flushPending sid] rfl rfl ?_ rfl (by simp [Task.fits])
      fun _ => Or.inl ⟨sid, List.mem_singleton_self _⟩
    rw [show (s.spawn (.addSession sid)).locked = false from hfree]
    rfl
  | pendingSent s s₁ sid m v hpending hsend =>
    obtain ⟨stSession, -, rfl⟩ := sendMessage_some hsend
    exact h.next [.flushPending sid] [.flushPending sid] rfl rfl rfl rfl (by simp [Task.fits])
      fun _ => Or.inl ⟨sid, List.mem_singleton_self _⟩
  | pendingFlushed s sid =>
    -- nobody else has the lock, so nobody is putting a call into the hold
    have hothers : ∀ t ∈ s.tasks, t.holdsLock = false := fun t ht =>
      h.not_holdsLock_of_spawn (t := .flushPending sid) rfl ht
    refine ⟨?_, ?_, fun _ => Or.inl rfl⟩
    · exact List.countP_eq_zero.2 fun t ht => by
        rcases List.mem_cons.1 ht with rfl | ht
        · simp [Task.holdsLock]
        · simp [hothers t ht]
    · intro t ht
      rcases List.mem_cons.1 ht with rfl | ht
      · rfl
      · have hfits := h.fits t (List.mem_cons_of_mem _ ht)
        have hholds := hothers t ht
        cases t <;> simp_all [Task.fits, Task.holdsLock, State.pendingFlushed, State.spawn,
          State.unlock]

end OpenIdea.Rpc.ClientManager
