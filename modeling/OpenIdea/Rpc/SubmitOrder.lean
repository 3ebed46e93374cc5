import OpenIdea.Lib.Before
import OpenIdea.Rpc.HeldCalls

/-!
# The order of submitted calls

`OnAddSession` publishes the connection and releases the client lock before `FlushHeldCalls` sends
what is held. A `SubmitCall` that takes the lock in between sends at once, and its call overtakes
the held ones. Where no call is submitted to a connection while others still wait in the hold or in
a flush, the calls of one session go out in the order of their submissions. The main result is
`submit_order`; `overtaken_out_of_order` is the call that overtakes.
-/

set_option autoImplicit false

namespace OpenIdea.Rpc.ClientManager

open OpenIdea.Lib OpenIdea.Lib.Runs OpenIdea.Lib.Tally

namespace Task

/-- The calls that a flush has still to send. -/
def flushes : Task → List ℕ
  | .flush _ v => v.map HeldCall.callId
  | .flushSend _ c v => c.callId :: v.map HeldCall.callId
  | _ => []

/-- The call whose `SubmitCall` this is. -/
def submits : Task → Option ℕ
  | .mark c | .queue c | .claim c _ | .submit c _ => some c.callId
  | _ => none

/-- The call that `SubmitCall` sends itself. -/
def sends : Task → Option ℕ
  | .claim c _ | .submit c _ => some c.callId
  | _ => none

theorem flushes_subset_carries (t : Task) {i : ℕ} (hi : i ∈ t.flushes) : i ∈ t.carries := by
  cases t <;> first | exact hi | cases hi

end Task

/-- The calls that wait in the hold or in a flush. -/
def waiting (s : State) : List ℕ := s.hold.ids ++ s.tasks.flatMap Task.flushes

variable {a b i : ℕ} {s s' : State} {t : Task} {e : Event} {cfg : Config}

theorem mem_waiting : i ∈ waiting s ↔ i ∈ s.hold.ids ∨ ∃ t ∈ s.tasks, i ∈ t.flushes := by
  rw [waiting, List.mem_append, List.mem_flatMap]

/-- **The condition.** No call is submitted to a connection while others wait. -/
def NothingWaits (s : State) : Event → Prop
  | .submitCall _ => s.canSend = true → waiting s = []
  | _ => True

instance (s : State) (e : Event) : Decidable (NothingWaits s e) := by
  cases e <;> unfold NothingWaits <;> infer_instance

/-- `SubmitCall` of the call has returned, or it only has to wake it. -/
def Returned (s : State) (i : ℕ) : Prop :=
  i ∈ s.submitted ∧ ∀ t ∈ s.tasks, t.submits ≠ some i

/-- What follows `a` while it waits: `b` is behind it in the hold, behind it in the same flush, or
nowhere yet. -/
structure Ahead (a b : ℕ) (s : State) : Prop where
  unsent : ∀ sid, (b, sid) ∉ s.handed
  undirected : ∀ t ∈ s.tasks, t.sends ≠ some b
  hold : b ∈ s.hold.ids → Before a b s.hold.ids
  flush : ∀ t ∈ s.tasks, b ∈ t.flushes → Before a b t.flushes

/-- `a` had returned when `b` was submitted. -/
structure Ordered (a b : ℕ) (s : State) : Prop where
  returned : Returned s a
  ahead : a ∈ waiting s → Ahead a b s
  sent : ∀ sid, (a, sid) ∈ s.handed → (b, sid) ∈ s.handed → Before (a, sid) (b, sid) s.handed

section Perm

variable {tasks : List Task}

theorem mem_waiting_perm (hperm : tasks.Perm s.tasks) {i : ℕ} :
    i ∈ waiting { s with tasks := tasks } ↔ i ∈ waiting s := by
  rw [mem_waiting, mem_waiting]
  exact or_congr_right ⟨fun ⟨t, ht, hi⟩ => ⟨t, hperm.subset ht, hi⟩,
    fun ⟨t, ht, hi⟩ => ⟨t, hperm.symm.subset ht, hi⟩⟩

theorem Ordered.perm (h : Ordered a b s) (hperm : tasks.Perm s.tasks) :
    Ordered a b { s with tasks := tasks } where
  returned := ⟨h.returned.1, fun t ht => h.returned.2 t (hperm.subset ht)⟩
  ahead := fun hw => by
    have hahead := h.ahead ((mem_waiting_perm hperm).1 hw)
    exact ⟨hahead.unsent, fun t ht => hahead.undirected t (hperm.subset ht), hahead.hold,
      fun t ht => hahead.flush t (hperm.subset ht)⟩
  sent := h.sent

end Perm

/-! ## What a step does to the waiting calls -/

/-- A task that has a call in its hands is the only one to have it. -/
theorem Wf.not_waiting_of_spawn (h : Wf (s.spawn t)) (hi : i ∈ t.carries) : i ∉ waiting s := by
  obtain ⟨hzero, hheld⟩ := h.not_held_of_spawn hi
  rw [mem_waiting, not_or]
  refine ⟨hheld, ?_⟩
  rintro ⟨u, hu, hiu⟩
  obtain ⟨l₁, l₂, hl⟩ := List.append_of_mem hu
  have hpos := List.count_pos_iff.2 (u.flushes_subset_carries hiu)
  simp only [places, hl, tally_append, tally_cons] at hzero
  omega

theorem Wf.nodup_carries (h : Wf (s.spawn t)) : t.carries.Nodup := by
  rw [List.nodup_iff_count_le_one]
  intro i
  have honce := h.once i
  rw [places_spawn] at honce
  omega

/-- A call in the hold is in no flush. -/
theorem Wf.not_flushed (h : Wf s) (hi : i ∈ s.hold.ids) (ht : t ∈ s.tasks) : i ∉ t.flushes := by
  intro hflush
  have hwf := h.perm (List.perm_cons_erase ht).symm
  exact (hwf.not_held_of_spawn (s := { s with tasks := s.tasks.erase t }) (t := t)
    (t.flushes_subset_carries hflush)).2 hi

/-- The hold of a state and the calls in the flushes of its tasks. -/
theorem mem_waiting_of {add rest : List Task} (htasks : s.tasks = add ++ rest) :
    i ∈ waiting s ↔ i ∈ s.hold.ids ∨ (∃ t ∈ add, i ∈ t.flushes) ∨ ∃ t ∈ rest, i ∈ t.flushes := by
  rw [mem_waiting, htasks]
  refine or_congr_right ?_
  constructor
  · rintro ⟨t, ht, hi⟩
    rcases List.mem_append.1 ht with ht | ht
    · exact Or.inl ⟨t, ht, hi⟩
    · exact Or.inr ⟨t, ht, hi⟩
  · rintro (⟨t, ht, hi⟩ | ⟨t, ht, hi⟩)
    · exact ⟨t, List.mem_append_left _ ht, hi⟩
    · exact ⟨t, List.mem_append_right _ ht, hi⟩

/-- How a step changes the tasks and the hold, as far as the waiting calls go. -/
inductive WaitStep (e : Event) (s s' : State) : Prop where
  /-- The hold keeps its order or is emptied, and the flushes stay. -/
  | same (rem add rest : List Task) (htasks : s.tasks = rem ++ rest)
      (htasks' : s'.tasks = add ++ rest) (hhold : s'.hold.ids = s.hold.ids ∨ s'.hold.ids = [])
      (hhanded : s'.handed = s.handed)
      (hflush : ∀ t ∈ add, t.flushes = [] ∨ ∃ u ∈ rem, t.flushes = u.flushes)
      (hsends : ∀ t ∈ add, t.sends = none ∨ ∃ u ∈ rem, t.sends = u.sends)
      (hsubmits : ∀ t ∈ add, t.submits = none ∨ (∃ u ∈ rem, t.submits = u.submits) ∨
        ∃ i, i ∉ s.submitted ∧ t.submits = some i)
  /-- `SubmitCall` will send the call itself. -/
  | direct (c : HeldCall) (sid : ℤ) (he : e = .submitCall c) (hcan : s.canSend = true)
      (htasks' : s'.tasks = .claim c sid :: s.tasks) (hhold : s'.hold = s.hold)
      (hhanded : s'.handed = s.handed) (hnew : c.callId ∉ s.submitted)
  /-- A call is put into the hold. -/
  | queued (c : HeldCall) (rest : List Task) (htasks : s.tasks = .queue c :: rest)
      (htasks' : s'.tasks = rest) (hhold : s'.hold.ids = s.hold.ids ++ [c.callId])
      (hhanded : s'.handed = s.handed)
  /-- A call is dropped from the hold. -/
  | dropped (i : ℕ) (rest : List Task) (htasks : s.tasks = .finish i true :: rest)
      (htasks' : s'.tasks = rest) (hhold : s'.hold.ids = s.hold.ids.filter (· ≠ i))
      (hhanded : s'.handed = s.handed)
  /-- The hold goes into a flush. -/
  | swapped (sid : ℤ) (rest : List Task) (htasks : s.tasks = .flushHeld sid :: rest)
      (htasks' : s'.tasks = .flush sid s.hold.held :: rest) (hhold : s'.hold.ids = [])
      (hhanded : s'.handed = s.handed)
  /-- A flush leaves its first call behind. -/
  | advanced (t : Task) (c : HeldCall) (add : List Task) (sid : ℤ) (v : List HeldCall)
      (rest : List Task) (htasks : s.tasks = t :: rest)
      (htasks' : s'.tasks = .flush sid v :: (add ++ rest)) (hhold : s'.hold = s.hold)
      (ht : t.flushes = c.callId :: v.map HeldCall.callId)
      (hadd : ∀ u ∈ add, u.flushes = [] ∧ u.sends = none ∧ u.submits = none)
      (hhanded : s'.handed = s.handed ∨ s'.handed = s.handed ++ [(c.callId, sid)])
  /-- `SubmitCall` has sent its call. -/
  | sent (c : HeldCall) (sid : ℤ) (rest : List Task) (htasks : s.tasks = .submit c sid :: rest)
      (htasks' : s'.tasks = rest) (hhold : s'.hold = s.hold)
      (hhanded : s'.handed = s.handed ++ [(c.callId, sid)])

theorem waitStep_takeSlot (rem : List Task) {rest : List Task} (i : ℕ) (hrest : s.tasks = rest) :
    WaitStep e { s with tasks := rem ++ rest } (s.takeSlot i) := by
  rw [State.takeSlot]
  cases s.calls i with
  | none =>
    exact .same rem [] rest rfl hrest (Or.inl rfl) rfl (by simp) (by simp) (by simp)
  | some stSlot =>
    exact .same rem [.finish i stSlot.bAwaitingConnect] rest rfl (congrArg _ hrest) (Or.inl rfl) rfl
      (by simp [Task.flushes]) (by simp [Task.sends]) (by simp [Task.submits])

theorem waitStep_callMoves (h : Wf s) (hmoves : CallMoves e s s') : WaitStep e s s' := by
  cases hmoves with
  | bind => exact .same [] [] _ rfl rfl (Or.inl rfl) rfl (by simp) (by simp) (by simp)
  | limits => exact .same [] [] _ rfl rfl (Or.inl rfl) rfl (by simp) (by simp) (by simp)
  | left => exact .same [] [] _ rfl rfl (Or.inl rfl) rfl (by simp) (by simp) (by simp)
  | direct s c _ _ hnew hcan => exact .direct c s.m_iSessionId rfl hcan rfl rfl rfl hnew
  | refused _ s c =>
    exact .same [] [.wake c.callId] s.tasks rfl rfl (Or.inl rfl) rfl (by simp [Task.flushes])
      (by simp [Task.sends]) (by simp [Task.submits])
  | holding _ s c _ _ hnew =>
    refine .same [] [.mark c] s.tasks rfl rfl (Or.inl rfl) rfl (by simp [Task.flushes])
      (by simp [Task.sends]) fun t ht => Or.inr (Or.inr ⟨c.callId, hnew, ?_⟩)
    rw [List.mem_singleton.1 ht]
    rfl
  | failHeldCalls s =>
    exact .same [] [.fail s.hold.held] s.tasks rfl rfl (Or.inr rfl) rfl (by simp [Task.flushes])
      (by simp [Task.sends]) (by simp [Task.submits])
  | takeSlot s i => exact waitStep_takeSlot [] i rfl
  | wake s i => exact waitStep_takeSlot [.wake i] i rfl
  | failNext s c v =>
    simp only [State.takeSlot]
    cases s.calls c.callId with
    | none =>
      exact .same [.fail (c :: v)] [.fail v] s.tasks rfl rfl (Or.inl rfl) rfl
        (by simp [Task.flushes]) (by simp [Task.sends]) (by simp [Task.submits])
    | some stSlot =>
      exact .same [.fail (c :: v)] [.fail v, .finish c.callId stSlot.bAwaitingConnect] s.tasks rfl
        rfl (Or.inl rfl) rfl (by simp [Task.flushes]) (by simp [Task.sends])
        (by simp [Task.submits])
  | markMissed s c =>
    exact .same [.mark c] [] s.tasks rfl rfl (Or.inl rfl) rfl (by simp) (by simp) (by simp)
  | marked s c =>
    exact .same [.mark c] [.queue c] s.tasks rfl rfl (Or.inl rfl) rfl (by simp [Task.flushes])
      (by simp [Task.sends]) (by simp [Task.submits])
  | queued s c => exact .queued c s.tasks rfl rfl (HoldList.ids_push s.hold c) rfl
  | claimMissed s c sid =>
    exact .same [.claim c sid] [] s.tasks rfl rfl (Or.inl rfl) rfl (by simp) (by simp) (by simp)
  | claimed s s₁ c sid hclaim =>
    obtain ⟨-, rfl⟩ := claimRpcSend_some hclaim
    exact .same [.claim c sid] [.submit c sid] s.tasks rfl rfl (Or.inl rfl) rfl
      (by simp [Task.flushes]) (by simp [Task.sends]) (by simp [Task.submits])
  | sent s s₁ c sid hsend =>
    obtain ⟨stSession, -, rfl⟩ := sendCall_some hsend
    exact .sent c sid s.tasks rfl rfl rfl rfl
  | sendFailed s c sid =>
    exact .same [.submit c sid] [.wake c.callId] s.tasks rfl rfl (Or.inl rfl) rfl
      (by simp [Task.flushes]) (by simp [Task.sends]) (by simp [Task.submits])
  | finished s i =>
    exact .same [.finish i false] [] _ rfl rfl (Or.inl rfl) rfl (by simp) (by simp) (by simp)
  | dropped s i hold hfree hdrop =>
    obtain ⟨hold', hdrop', -, hids⟩ := h.hold.drop i
    obtain rfl := Option.some.inj (hdrop.symm.trans hdrop')
    exact .dropped i s.tasks rfl rfl hids rfl
  | flushHeld s sid => exact .swapped sid s.tasks rfl rfl rfl rfl
  | flushDone s sid =>
    exact .same [.flush sid []] [] _ rfl rfl (Or.inl rfl) rfl (by simp) (by simp) (by simp)
  | flushMissed s sid c v =>
    exact .advanced (.flush sid (c :: v)) c [] sid v s.tasks rfl rfl rfl rfl (by simp) (Or.inl rfl)
  | flushClaimed s s₁ sid c v hclaim =>
    obtain ⟨-, rfl⟩ := claimRpcSend_some hclaim
    exact .same [.flush sid (c :: v)] [.flushSend sid c v] s.tasks rfl rfl (Or.inl rfl) rfl
      (by simp [Task.flushes]) (by simp [Task.sends]) (by simp [Task.submits])
  | flushSent s s₁ sid c v hsend =>
    obtain ⟨stSession, -, rfl⟩ := sendCall_some hsend
    exact .advanced (.flushSend sid c v) c [] sid v s.tasks rfl rfl rfl rfl (by simp) (Or.inr rfl)
  | flushFailed s sid c v =>
    exact .advanced (.flushSend sid c v) c [.wake c.callId] sid v s.tasks rfl rfl rfl rfl
      (by simp [Task.flushes, Task.sends, Task.submits]) (Or.inl rfl)
  | failDone s =>
    exact .same [.fail []] [] _ rfl rfl (Or.inl rfl) rfl (by simp) (by simp) (by simp)

theorem waitStep_rawMoves (hmoves : RawMoves cfg e s s') : WaitStep e s s' := by
  cases hmoves with
  | direct _ s size =>
    exact .same [] [_] s.tasks rfl rfl (Or.inl rfl) rfl (by simp [Task.flushes])
      (by simp [Task.sends]) (by simp [Task.submits])
  | refused => exact .same [] [] _ rfl rfl (Or.inl rfl) rfl (by simp) (by simp) (by simp)
  | pended => exact .same [] [] _ rfl rfl (Or.inl rfl) rfl (by simp) (by simp) (by simp)
  | addSession =>
    exact .same [] [.addSession _] _ rfl rfl (Or.inl rfl) rfl (by simp [Task.flushes])
      (by simp [Task.sends]) (by simp [Task.submits])
  | onDelSession s sid =>
    rw [State.onDelSession]
    split
    · exact .same [] [] s.tasks rfl rfl (Or.inl rfl) rfl (by simp) (by simp) (by simp)
    · exact .same [] [] s.tasks rfl rfl (Or.inl rfl) rfl (by simp) (by simp) (by simp)
  | closeSession => exact .same [] [] _ rfl rfl (Or.inl rfl) rfl (by simp) (by simp) (by simp)
  | onBytesSent => exact .same [] [] _ rfl rfl (Or.inl rfl) rfl (by simp) (by simp) (by simp)
  | sent s s₁ m sid hsend =>
    obtain ⟨stSession, -, rfl⟩ := sendMessage_some hsend
    exact .same [.sendRaw m sid] [] s.tasks rfl rfl (Or.inl rfl) rfl (by simp) (by simp) (by simp)
  | sendFailed s m sid =>
    exact .same [.sendRaw m sid] [] _ rfl rfl (Or.inl rfl) rfl (by simp) (by simp) (by simp)
  | onAddSession s sid =>
    exact .same [.addSession sid] [.flushPending sid] s.tasks rfl rfl (Or.inl rfl) rfl
      (by simp [Task.flushes]) (by simp [Task.sends]) (by simp [Task.submits])
  | pendingSent s s₁ sid m v hpending hsend =>
    obtain ⟨stSession, -, rfl⟩ := sendMessage_some hsend
    exact .same [.flushPending sid] [.flushPending sid] s.tasks rfl rfl (Or.inl rfl) rfl
      (by simp [Task.flushes]) (by simp [Task.sends]) (by simp [Task.submits])
  | pendingFlushed s sid =>
    exact .same [.flushPending sid] [.flushHeld sid] s.tasks rfl rfl (Or.inl rfl) rfl
      (by simp [Task.flushes]) (by simp [Task.sends]) (by simp [Task.submits])

/-- A call that waits after a step waited before it, or has just been put into the hold. -/
theorem WaitStep.waiting_subset (hstep : WaitStep e s s') (hi : i ∈ waiting s') :
    i ∈ waiting s ∨ ∃ c, Task.queue c ∈ s.tasks ∧ c.callId = i := by
  cases hstep with
  | same rem add rest htasks htasks' hhold _ hflush =>
    refine Or.inl ((mem_waiting_of htasks).2 ?_)
    rcases (mem_waiting_of htasks').1 hi with hi | ⟨t, ht, hi⟩ | hi
    · rcases hhold with hhold | hhold
      · exact Or.inl (hhold ▸ hi)
      · rw [hhold] at hi
        cases hi
    · rcases hflush t ht with hnil | ⟨u, hu, heq⟩
      · rw [hnil] at hi
        cases hi
      · exact Or.inr (Or.inl ⟨u, hu, heq ▸ hi⟩)
    · exact Or.inr (Or.inr hi)
  | direct c sid _ _ htasks' hhold =>
    refine Or.inl (mem_waiting.2 ?_)
    rw [mem_waiting, hhold, htasks'] at hi
    refine hi.imp_right ?_
    rintro ⟨t, ht, hi⟩
    rcases List.mem_cons.1 ht with rfl | ht
    · cases hi
    · exact ⟨t, ht, hi⟩
  | queued c rest htasks htasks' hhold =>
    rw [mem_waiting, hhold, List.mem_append, List.mem_singleton] at hi
    rcases hi with (hi | rfl) | ⟨t, ht, hi⟩
    · exact Or.inl (mem_waiting.2 (Or.inl hi))
    · exact Or.inr ⟨c, htasks ▸ List.mem_cons_self, rfl⟩
    · exact Or.inl (mem_waiting.2
        (Or.inr ⟨t, htasks ▸ List.mem_cons_of_mem _ (htasks' ▸ ht), hi⟩))
  | dropped j rest htasks htasks' hhold =>
    refine Or.inl (mem_waiting.2 ?_)
    rw [mem_waiting, hhold, List.mem_filter, htasks'] at hi
    exact hi.imp And.left fun ⟨t, ht, hi⟩ => ⟨t, htasks ▸ List.mem_cons_of_mem _ ht, hi⟩
  | swapped sid rest htasks htasks' hhold =>
    refine Or.inl (mem_waiting.2 ?_)
    rw [mem_waiting, hhold, htasks'] at hi
    rcases hi with hi | ⟨t, ht, hi⟩
    · cases hi
    · rcases List.mem_cons.1 ht with rfl | ht
      · exact Or.inl ((HoldList.ids_eq_map_held s.hold).symm ▸ hi)
      · exact Or.inr ⟨t, htasks ▸ List.mem_cons_of_mem _ ht, hi⟩
  | advanced t c add sid v rest htasks htasks' hhold hflush hadd =>
    refine Or.inl (mem_waiting.2 ?_)
    rw [mem_waiting, hhold, htasks'] at hi
    refine hi.imp_right ?_
    rintro ⟨u, hu, hi⟩
    rcases List.mem_cons.1 hu with rfl | hu
    · exact ⟨t, htasks ▸ List.mem_cons_self, hflush ▸ List.mem_cons_of_mem _ hi⟩
    · rcases List.mem_append.1 hu with hu | hu
      · rw [(hadd u hu).1] at hi
        cases hi
      · exact ⟨u, htasks ▸ List.mem_cons_of_mem _ hu, hi⟩
  | sent c sid rest htasks htasks' hhold =>
    refine Or.inl (mem_waiting.2 ?_)
    rw [mem_waiting, hhold, htasks'] at hi
    exact hi.imp_right fun ⟨t, ht, hi⟩ => ⟨t, htasks ▸ List.mem_cons_of_mem _ ht, hi⟩

/-- A call that has returned is in the hands of no `SubmitCall` after a step either. -/
theorem WaitStep.returned (hstep : WaitStep e s s') (h : Returned s i) :
    ∀ t ∈ s'.tasks, t.submits ≠ some i := by
  intro t ht heq
  cases hstep with
  | same rem add rest htasks htasks' _ _ _ _ hsubmits =>
    rw [htasks'] at ht
    rcases List.mem_append.1 ht with ht | ht
    · rcases hsubmits t ht with hnone | ⟨u, hu, hsame⟩ | ⟨j, hj, hsome⟩
      · rw [hnone] at heq
        cases heq
      · exact h.2 u (htasks ▸ List.mem_append_left _ hu) (hsame ▸ heq)
      · obtain rfl := Option.some.inj (hsome.symm.trans heq)
        exact hj h.1
    · exact h.2 t (htasks ▸ List.mem_append_right _ ht) heq
  | direct c sid _ _ htasks' _ _ hnew =>
    rw [htasks'] at ht
    rcases List.mem_cons.1 ht with rfl | ht
    · rw [Option.some.inj heq] at hnew
      exact hnew h.1
    · exact h.2 t ht heq
  | queued c rest htasks htasks' | dropped j rest htasks htasks' =>
    exact h.2 t (htasks ▸ List.mem_cons_of_mem _ (htasks' ▸ ht)) heq
  | swapped sid rest htasks htasks' =>
    rw [htasks'] at ht
    rcases List.mem_cons.1 ht with rfl | ht
    · cases heq
    · exact h.2 t (htasks ▸ List.mem_cons_of_mem _ ht) heq
  | advanced u c add sid v rest htasks htasks' _ _ hadd =>
    rw [htasks'] at ht
    rcases List.mem_cons.1 ht with rfl | ht
    · cases heq
    · rcases List.mem_append.1 ht with ht | ht
      · rw [(hadd t ht).2.2] at heq
        cases heq
      · exact h.2 t (htasks ▸ List.mem_cons_of_mem _ ht) heq
  | sent c sid rest htasks htasks' =>
    exact h.2 t (htasks ▸ List.mem_cons_of_mem _ (htasks' ▸ ht)) heq

/-- While `a` waits, `b` stays behind it. -/
theorem WaitStep.ahead (h : Wf s) (hstep : WaitStep e s s') (hcalm : NothingWaits s e)
    (hreturned : Returned s a) (hahead : a ∈ waiting s → Ahead a b s) (hwaits : a ∈ waiting s') :
    Ahead a b s' := by
  have hbefore : a ∈ waiting s := by
    rcases hstep.waiting_subset hwaits with hw | ⟨c, hc, rfl⟩
    · exact hw
    · exact absurd rfl (hreturned.2 _ hc)
  have ha := hahead hbefore
  cases hstep with
  | same rem add rest htasks htasks' hhold hhanded hflush hsends hsubmits =>
    refine ⟨by rw [hhanded]; exact ha.unsent, ?_, ?_, ?_⟩
    · intro t ht heq
      rw [htasks'] at ht
      rcases List.mem_append.1 ht with ht | ht
      · rcases hsends t ht with hnone | ⟨u, hu, hsame⟩
        · rw [hnone] at heq
          cases heq
        · exact ha.undirected u (htasks ▸ List.mem_append_left _ hu) (hsame ▸ heq)
      · exact ha.undirected t (htasks ▸ List.mem_append_right _ ht) heq
    · intro hb
      rcases hhold with hhold | hhold
      · rw [hhold] at hb ⊢
        exact ha.hold hb
      · rw [hhold] at hb
        cases hb
    · intro t ht hb
      rw [htasks'] at ht
      rcases List.mem_append.1 ht with ht | ht
      · rcases hflush t ht with hnil | ⟨u, hu, hsame⟩
        · rw [hnil] at hb
          cases hb
        · rw [hsame] at hb ⊢
          exact ha.flush u (htasks ▸ List.mem_append_left _ hu) hb
      · exact ha.flush t (htasks ▸ List.mem_append_right _ ht) hb
  | direct c sid he hcan =>
    -- the condition: nothing waits where a call is sent past the hold
    rw [he] at hcalm
    rw [hcalm hcan] at hbefore
    cases hbefore
  | queued c rest htasks htasks' hhold hhanded =>
    have hmem : ∀ t ∈ rest, t ∈ s.tasks := fun t ht => htasks ▸ List.mem_cons_of_mem _ ht
    refine ⟨by rw [hhanded]; exact ha.unsent, fun t ht => ha.undirected t (hmem t (htasks' ▸ ht)),
      ?_, fun t ht => ha.flush t (hmem t (htasks' ▸ ht))⟩
    intro hb
    rw [hhold] at hb ⊢
    rcases List.mem_append.1 hb with hb | hb
    · exact (ha.hold hb).append _
    · rw [List.mem_singleton.1 hb]
      -- no flush has begun while calls are put into the hold, so `a` is there
      have hqueue : Task.queue c ∈ s.tasks := htasks ▸ List.mem_cons_self
      have hnever := h.phase.fits _ hqueue
      refine Before.concat ((mem_waiting.1 hbefore).resolve_right ?_)
      rintro ⟨t, ht, hi⟩
      have hever := h.phase.fits t ht
      simp only [Task.fits, Bool.not_eq_true'] at hnever
      rw [hnever] at hever
      cases t with
      | flush sid v => cases hever
      | flushSend sid c v => cases hever
      | _ => cases hi
  | dropped j rest htasks htasks' hhold hhanded =>
    have hmem : ∀ t ∈ rest, t ∈ s.tasks := fun t ht => htasks ▸ List.mem_cons_of_mem _ ht
    refine ⟨by rw [hhanded]; exact ha.unsent, fun t ht => ha.undirected t (hmem t (htasks' ▸ ht)),
      ?_, fun t ht => ha.flush t (hmem t (htasks' ▸ ht))⟩
    intro hb
    rw [hhold] at hb ⊢
    obtain ⟨hb, hbj⟩ := List.mem_filter.1 hb
    have hord := ha.hold hb
    refine hord.filter ?_ hbj
    -- `a` is in the hold before the step, so it waits there and nowhere else
    rw [mem_waiting, hhold, htasks'] at hwaits
    rcases hwaits with hwaits | ⟨t, ht, hi⟩
    · exact (List.mem_filter.1 hwaits).2
    · exact absurd hi (h.not_flushed hord.left_mem (hmem t ht))
  | swapped sid rest htasks htasks' hhold hhanded =>
    have hmem : ∀ t ∈ rest, t ∈ s.tasks := fun t ht => htasks ▸ List.mem_cons_of_mem _ ht
    refine ⟨by rw [hhanded]; exact ha.unsent, ?_, ?_, ?_⟩
    · intro t ht heq
      rw [htasks'] at ht
      rcases List.mem_cons.1 ht with rfl | ht
      · cases heq
      · exact ha.undirected t (hmem t ht) heq
    · intro hb
      rw [hhold] at hb
      cases hb
    · intro t ht hb
      rw [htasks'] at ht
      rcases List.mem_cons.1 ht with rfl | ht
      · have hids : (Task.flush sid s.hold.held).flushes = s.hold.ids :=
          (HoldList.ids_eq_map_held s.hold).symm
        rw [hids] at hb ⊢
        exact ha.hold hb
      · exact ha.flush t (hmem t ht) hb
  | advanced t c add sid v rest htasks htasks' hhold hflush hadd hhanded =>
    have hmem : ∀ u ∈ rest, u ∈ s.tasks := fun u hu => htasks ▸ List.mem_cons_of_mem _ hu
    have ht : t ∈ s.tasks := htasks ▸ List.mem_cons_self
    have hwf : Wf ({ s with tasks := rest }.spawn t) := h.perm (by rw [htasks])
    have hcarries : ∀ i ∈ t.flushes, i ∈ t.carries := fun i hi => t.flushes_subset_carries hi
    have hnodup : (c.callId :: v.map HeldCall.callId).Nodup := by
      rw [← hflush]
      cases t <;> first | exact hwf.nodup_carries | cases hflush
    -- `a` still waits, so it is not the call that the flush leaves behind
    have hne : c.callId ≠ a := by
      rintro rfl
      have hgone := hwf.not_waiting_of_spawn (hcarries c.callId (hflush ▸ List.mem_cons_self))
      rw [mem_waiting, not_or] at hgone
      rw [mem_waiting, hhold, htasks'] at hwaits
      rcases hwaits with hw | ⟨u, hu, hi⟩
      · exact hgone.1 hw
      · rcases List.mem_cons.1 hu with rfl | hu
        · exact (List.nodup_cons.1 hnodup).1 hi
        · rcases List.mem_append.1 hu with hu | hu
          · rw [(hadd u hu).1] at hi
            cases hi
          · exact hgone.2 ⟨u, hu, hi⟩
    have hcb : c.callId ≠ b := by
      rintro rfl
      have hord := ha.flush t ht (hflush ▸ List.mem_cons_self)
      rw [hflush] at hord
      exact Before.not_head hnodup hord
    refine ⟨?_, ?_, by rw [hhold]; exact ha.hold, ?_⟩
    · intro sid' hp
      rcases hhanded with hhanded | hhanded
      · exact ha.unsent sid' (hhanded ▸ hp)
      · rw [hhanded, List.mem_append, List.mem_singleton] at hp
        rcases hp with hp | hp
        · exact ha.unsent sid' hp
        · exact hcb (Prod.mk.inj hp).1.symm
    · intro u hu heq
      rw [htasks'] at hu
      rcases List.mem_cons.1 hu with rfl | hu
      · cases heq
      · rcases List.mem_append.1 hu with hu | hu
        · rw [(hadd u hu).2.1] at heq
          cases heq
        · exact ha.undirected u (hmem u hu) heq
    · intro u hu hb
      rw [htasks'] at hu
      rcases List.mem_cons.1 hu with rfl | hu
      · have hord := ha.flush t ht (hflush ▸ List.mem_cons_of_mem _ hb)
        rw [hflush] at hord
        exact hord.tail hne
      · rcases List.mem_append.1 hu with hu | hu
        · rw [(hadd u hu).1] at hb
          cases hb
        · exact ha.flush u (hmem u hu) hb
  | sent c sid rest htasks htasks' hhold hhanded =>
    have hmem : ∀ t ∈ rest, t ∈ s.tasks := fun t ht => htasks ▸ List.mem_cons_of_mem _ ht
    refine ⟨?_, fun t ht => ha.undirected t (hmem t (htasks' ▸ ht)), by rw [hhold]; exact ha.hold,
      fun t ht => ha.flush t (hmem t (htasks' ▸ ht))⟩
    intro sid' hp
    rw [hhanded, List.mem_append, List.mem_singleton] at hp
    rcases hp with hp | hp
    · exact ha.unsent sid' hp
    · refine ha.undirected (.submit c sid) (htasks ▸ List.mem_cons_self) ?_
      rw [(Prod.mk.inj hp).1]
      rfl

/-- A session accepts `a` before `b`. -/
theorem WaitStep.sent_order (hstep : WaitStep e s s') (hne : a ≠ b) (ho : Ordered a b s) (sid : ℤ)
    (ha : (a, sid) ∈ s'.handed) (hb : (b, sid) ∈ s'.handed) :
    Before (a, sid) (b, sid) s'.handed := by
  -- the same list, or one more call that some task has sent
  have hgrow : s'.handed = s.handed ∨ ∃ c sid', s'.handed = s.handed ++ [(c, sid')] ∧
      (c = a → a ∈ waiting s) := by
    cases hstep with
    | same _ _ _ _ _ _ hhanded => exact Or.inl hhanded
    | direct _ _ _ _ _ _ hhanded => exact Or.inl hhanded
    | queued _ _ _ _ _ hhanded => exact Or.inl hhanded
    | dropped _ _ _ _ _ hhanded => exact Or.inl hhanded
    | swapped _ _ _ _ _ hhanded => exact Or.inl hhanded
    | advanced t c add sid' v rest htasks _ _ hflush _ hhanded =>
      refine hhanded.imp_right fun hhanded => ⟨c.callId, sid', hhanded, ?_⟩
      rintro rfl
      exact mem_waiting.2
        (Or.inr ⟨t, htasks ▸ List.mem_cons_self, hflush ▸ List.mem_cons_self⟩)
    | sent c sid' rest htasks _ _ hhanded =>
      refine Or.inr ⟨c.callId, sid', hhanded, ?_⟩
      rintro rfl
      exact absurd rfl (ho.returned.2 (.submit c sid') (htasks ▸ List.mem_cons_self))
  rcases hgrow with heq | ⟨c, sid', heq, hca⟩
  · rw [heq] at ha hb ⊢
    exact ho.sent sid ha hb
  · rw [heq, List.mem_append, List.mem_singleton] at ha hb
    rw [heq]
    rcases ha with ha | ha
    · rcases hb with hb | hb
      · exact (ho.sent sid ha hb).append _
      · rw [hb]
        exact Before.concat ha
    · -- `a` has only now been sent, so `b` was behind it
      have hunsent := (ho.ahead (hca (Prod.mk.inj ha).1.symm)).unsent sid
      rcases hb with hb | hb
      · exact absurd hb hunsent
      · exact absurd (Prod.mk.inj (hb.trans ha.symm)).1.symm hne

/-! ## Runs -/

theorem submitted_step (hstep : step cfg s e = some s') (hi : i ∈ s.submitted) :
    i ∈ s'.submitted := by
  have htake : ∀ (u : State) (j : ℕ), (u.takeSlot j).submitted = u.submitted := by
    intro u j
    obtain ⟨calls, tasks, heq⟩ := takeSlot_fields u j
    rw [heq]
  obtain ⟨tasks, -, hmoves | hmoves⟩ := step_moves hstep
  · have hbefore : i ∈ ({ s with tasks := tasks } : State).submitted := hi
    revert hbefore
    generalize { s with tasks := tasks } = u at hmoves
    intro hbefore
    cases hmoves with
    | direct => exact List.mem_cons_of_mem _ hbefore
    | refused => exact List.mem_cons_of_mem _ hbefore
    | holding => exact List.mem_cons_of_mem _ hbefore
    | takeSlot _ j => exact (htake _ j).symm ▸ hbefore
    | wake u j => exact (htake u j).symm ▸ hbefore
    | failNext u c => exact (htake u c.callId).symm ▸ hbefore
    | claimed u u₁ c sid hclaim | flushClaimed u u₁ sid c v hclaim =>
      obtain ⟨-, rfl⟩ := claimRpcSend_some hclaim
      exact hbefore
    | sent u u₁ c sid hsend | flushSent u u₁ sid c v hsend =>
      obtain ⟨stSession, -, rfl⟩ := sendCall_some hsend
      exact hbefore
    | _ => exact hbefore
  · have hbefore : i ∈ ({ s with tasks := tasks } : State).submitted := hi
    revert hbefore
    generalize { s with tasks := tasks } = u at hmoves
    intro hbefore
    cases hmoves with
    | onDelSession u sid =>
      rw [State.onDelSession]
      split <;> exact hbefore
    | sent u u₁ m sid hsend | pendingSent u u₁ sid m v hpending hsend =>
      obtain ⟨stSession, -, rfl⟩ := sendMessage_some hsend
      exact hbefore
    | _ => exact hbefore

theorem NothingWaits.perm (hcalm : NothingWaits s e) {tasks : List Task}
    (hperm : tasks.Perm s.tasks) : NothingWaits { s with tasks := tasks } e := by
  cases e with
  | submitCall c =>
    intro hcan
    have hnil := hcalm hcan
    refine List.eq_nil_iff_forall_not_mem.2 fun i hi => ?_
    have hi' := (mem_waiting_perm hperm).1 hi
    rw [hnil] at hi'
    cases hi'
  | _ => trivial

theorem step_waitStep (h : Wf s) (hstep : step cfg s e = some s') :
    ∃ tasks, tasks.Perm s.tasks ∧ Wf { s with tasks := tasks } ∧
      WaitStep e { s with tasks := tasks } s' := by
  obtain ⟨tasks, hperm, hmoves | hmoves⟩ := step_moves hstep
  · exact ⟨tasks, hperm, h.perm hperm, waitStep_callMoves (h.perm hperm) hmoves⟩
  · exact ⟨tasks, hperm, h.perm hperm, waitStep_rawMoves hmoves⟩

/-- **Step.** Where nothing waits behind a call that is sent at once, the order is kept. -/
theorem ordered_step (h : Wf s) (hne : a ≠ b) (ho : Ordered a b s) (hcalm : NothingWaits s e)
    (hstep : step cfg s e = some s') : Ordered a b s' := by
  obtain ⟨tasks, hperm, hwf, hwait⟩ := step_waitStep h hstep
  have ho' := ho.perm hperm
  exact ⟨⟨submitted_step hstep ho.returned.1, hwait.returned ho'.returned⟩,
    hwait.ahead hwf (hcalm.perm hperm) ho'.returned ho'.ahead, hwait.sent_order hne ho'⟩

/-- A call that has not been submitted is in no place. -/
theorem Wf.nowhere (h : Wf s) (hb : b ∉ s.submitted) :
    b ∉ s.hold.ids ∧ (∀ t ∈ s.tasks, b ∉ t.carries) ∧ ∀ sid, (b, sid) ∉ s.handed := by
  have hzero := h.fresh b hb
  rw [places] at hzero
  refine ⟨fun hm => ?_, fun t ht hm => ?_, fun sid hm => ?_⟩
  · have := List.count_pos_iff.2 hm
    omega
  · obtain ⟨l₁, l₂, hl⟩ := List.append_of_mem ht
    have := List.count_pos_iff.2 hm
    simp only [hl, tally_append, tally_cons] at hzero
    omega
  · have hpos : 0 < (s.handed.map Prod.fst).count b :=
      List.count_pos_iff.2 (List.mem_map_of_mem (f := Prod.fst) hm)
    omega

/-- When `a` has returned and `b` has not been submitted, they are in order. -/
theorem ordered_of_returned (h : Wf s) (ha : Returned s a) (hb : b ∉ s.submitted) :
    Ordered a b s := by
  obtain ⟨hheld, htask, hsent⟩ := h.nowhere hb
  refine ⟨ha, fun _ => ⟨hsent, ?_, fun hm => absurd hm hheld, fun t ht hm => absurd ?_ (htask t ht)⟩,
    fun sid _ hm => absurd hm (hsent sid)⟩
  · intro t ht heq
    refine htask t ht ?_
    cases t <;> first | exact List.mem_singleton.2 (Option.some.inj heq).symm | cases heq
  · exact t.flushes_subset_carries hm

/-- If `SubmitCall(a)` returned before `SubmitCall(b)` began, a session that accepts both gets `a`
first. -/
def KeepsOrder (cfg : Config) (s : State) (run : List Event) : Prop :=
  ∀ es es' t t' a b sid, run = es ++ es' → runFrom (step cfg) s es = some t →
    runFrom (step cfg) t es' = some t' → Returned t a → b ∉ t.submitted →
      (a, sid) ∈ t'.handed → (b, sid) ∈ t'.handed → Before (a, sid) (b, sid) t'.handed

/-- `SubmitCall` uses the room of a session only while no call waits. -/
def KeepsQuota (cfg : Config) (s : State) (run : List Event) : Prop :=
  ∀ es es' t c sid, run = es ++ Event.run (.submit c sid) :: es' →
    runFrom (step cfg) s es = some t → Task.submit c sid ∈ t.tasks → waiting t = []

/-- A call is on its way past the hold only while nothing waits. -/
def Unhindered (s : State) : Prop := (∃ t ∈ s.tasks, t.sends ≠ none) → waiting s = []


theorem Unhindered.perm (hu : Unhindered s) {tasks : List Task} (hperm : tasks.Perm s.tasks) :
    Unhindered { s with tasks := tasks } := by
  rintro ⟨t, ht, hs⟩
  have hnil := hu ⟨t, hperm.subset ht, hs⟩
  refine List.eq_nil_iff_forall_not_mem.2 fun i hi => ?_
  have hi' := (mem_waiting_perm hperm).1 hi
  rw [hnil] at hi'
  cases hi'

/-- A task that sends past the hold after a step did so before it, or `SubmitCall` has begun. -/
theorem WaitStep.sends_origin (hstep : WaitStep e s s') (ht : t ∈ s'.tasks) (hs : t.sends ≠ none) :
    (∃ u ∈ s.tasks, u.sends ≠ none) ∨
      ∃ c, e = .submitCall c ∧ s.canSend = true ∧ ∀ i ∈ waiting s', i ∈ waiting s := by
  cases hstep with
  | same rem add rest htasks htasks' _ _ _ hsends =>
    refine Or.inl ?_
    rw [htasks'] at ht
    rcases List.mem_append.1 ht with ht | ht
    · rcases hsends t ht with hnone | ⟨u, hu, hsame⟩
      · exact absurd hnone hs
      · exact ⟨u, htasks ▸ List.mem_append_left _ hu, hsame ▸ hs⟩
    · exact ⟨t, htasks ▸ List.mem_append_right _ ht, hs⟩
  | direct c sid he hcan htasks' hhold =>
    refine Or.inr ⟨c, he, hcan, fun i hi => ?_⟩
    rw [mem_waiting, hhold, htasks'] at hi
    refine mem_waiting.2 (hi.imp_right ?_)
    rintro ⟨u, hu, hi⟩
    rcases List.mem_cons.1 hu with rfl | hu
    · cases hi
    · exact ⟨u, hu, hi⟩
  | queued c rest htasks htasks' | dropped j rest htasks htasks' =>
    exact Or.inl ⟨t, htasks ▸ List.mem_cons_of_mem _ (htasks' ▸ ht), hs⟩
  | swapped sid rest htasks htasks' =>
    rw [htasks'] at ht
    rcases List.mem_cons.1 ht with rfl | ht
    · exact absurd rfl hs
    · exact Or.inl ⟨t, htasks ▸ List.mem_cons_of_mem _ ht, hs⟩
  | advanced u c add sid v rest htasks htasks' _ _ hadd =>
    rw [htasks'] at ht
    rcases List.mem_cons.1 ht with rfl | ht
    · exact absurd rfl hs
    · rcases List.mem_append.1 ht with ht | ht
      · exact absurd (hadd t ht).2.1 hs
      · exact Or.inl ⟨t, htasks ▸ List.mem_cons_of_mem _ ht, hs⟩
  | sent c sid rest htasks htasks' =>
    exact Or.inl ⟨t, htasks ▸ List.mem_cons_of_mem _ (htasks' ▸ ht), hs⟩

theorem WaitStep.unhindered (h : Wf s) (hstep : WaitStep e s s') (hu : Unhindered s)
    (hcalm : NothingWaits s e) : Unhindered s' := by
  rintro ⟨t, ht, hs⟩
  refine List.eq_nil_iff_forall_not_mem.2 fun i hi => ?_
  rcases hstep.sends_origin ht hs with ⟨u, hmem, hus⟩ | ⟨c, rfl, hcan, hsub⟩
  · have hnil := hu ⟨u, hmem, hus⟩
    rcases hstep.waiting_subset hi with hw | ⟨c, hc, -⟩
    · rw [hnil] at hw
      cases hw
    · -- calls are put into the hold before the first connect and sent past it after that
      have hnever := h.phase.fits _ hc
      have hever := h.phase.fits u hmem
      simp only [Task.fits, Bool.not_eq_true'] at hnever
      rw [hnever] at hever
      cases u with
      | claim c sid => cases hever
      | submit c sid => cases hever
      | _ => exact hus rfl
  · have hw := hsub i hi
    rw [hcalm hcan] at hw
    cases hw

theorem unhindered_run {run : List Event} (h : Wf s) (hu : Unhindered s)
    (hcalm : Along (step cfg) NothingWaits s run) (hrun : runFrom (step cfg) s run = some s') :
    Unhindered s' := by
  refine (runFrom_invariant_along (I := fun s => Wf s ∧ Unhindered s) ?_ ⟨h, hu⟩ hcalm hrun).2
  intro s e s' hI hP hstep
  obtain ⟨tasks, hperm, hwf, hwait⟩ := step_waitStep hI.1 hstep
  exact ⟨wf_step hI.1 hstep, hwait.unhindered hwf (hI.2.perm hperm) (hP.perm hperm)⟩

theorem ordered_run {run : List Event} (h : Wf s) (hne : a ≠ b) (ho : Ordered a b s)
    (hcalm : Along (step cfg) NothingWaits s run) (hrun : runFrom (step cfg) s run = some s') :
    Ordered a b s' := by
  refine (runFrom_invariant_along (I := fun s => Wf s ∧ Ordered a b s) ?_ ⟨h, ho⟩ hcalm hrun).2
  intro s e s' hI hP hstep
  exact ⟨wf_step hI.1 hstep, ordered_step hI.1 hne hI.2 hP hstep⟩

/-- **Submitted calls keep their order.** In every run in which no call is submitted to a connection
while others still wait in the hold or in a flush, the calls that a session accepts come in the
order in which they were submitted, and no call uses the room that a waiting one needs. -/
theorem submit_order {cfg : Config} {run : List Event}
    (hcalm : Along (step cfg) NothingWaits init run) :
    KeepsOrder cfg init run ∧ KeepsQuota cfg init run := by
  constructor
  · intro es es' t t' a b sid hsplit ht ht' ha hb hsent hsent'
    rw [hsplit, along_append] at hcalm
    have hwf := wf_run wf_init ht
    have hne : a ≠ b := fun heq => hb (heq ▸ ha.1)
    exact (ordered_run hwf hne (ordered_of_returned hwf ha hb) (hcalm.2 t ht) ht').sent sid hsent
      hsent'
  · intro es es' t c sid hsplit ht hmem
    rw [hsplit, along_append] at hcalm
    refine unhindered_run wf_init ?_ hcalm.1 ht ⟨_, hmem, Option.some_ne_none _⟩
    rintro ⟨t, ht, -⟩
    cases ht

/-! ## A call that overtakes -/

/-- The first of two calls is held. The manager connects; before it flushes the hold, the second
call is submitted and sent. -/
def overtaken : List Event :=
  [.bindRpcCall, .bindRpcCall, .submitCall ⟨0, 4⟩, .run (.mark ⟨0, 4⟩), .run (.queue ⟨0, 4⟩)]

/-- The rest of that run. -/
def overtakes : List Event :=
  [.addSession, .run (.addSession 1), .run (.flushPending 1), .submitCall ⟨1, 5⟩,
    .run (.claim ⟨1, 5⟩ 1), .run (.submit ⟨1, 5⟩ 1), .run (.flushHeld 1), .run (.flush 1 [⟨0, 4⟩]),
    .run (.flushSend 1 ⟨0, 4⟩ [])]

instance (s : State) (i : ℕ) : Decidable (Returned s i) := inferInstanceAs (Decidable (_ ∧ _))

instance (a b : ℕ × ℤ) (l : List (ℕ × ℤ)) : Decidable (Before a b l) :=
  inferInstanceAs (Decidable (List.Sublist _ _))

/-- **A held call is overtaken.** -/
theorem overtaken_out_of_order : ¬ KeepsOrder hundredBytes init (overtaken ++ overtakes) := by
  have hrun : (runFrom (step hundredBytes) init overtaken).map (fun t =>
      decide (Returned t 0 ∧ 1 ∉ t.submitted ∧
        (runFrom (step hundredBytes) t overtakes).map (fun t' => t'.handed) =
          some [(1, 1), (0, 1)])) = some true := by
    decide +kernel
  obtain ⟨t, ht, hfacts⟩ := Option.map_eq_some_iff.1 hrun
  obtain ⟨hreturned, hnew, hrest⟩ := of_decide_eq_true hfacts
  obtain ⟨t', ht', hhanded⟩ := Option.map_eq_some_iff.1 hrest
  intro horder
  have hbefore := horder overtaken overtakes t t' 0 1 1 rfl ht ht' hreturned hnew
    (hhanded ▸ by decide) (hhanded ▸ by decide)
  rw [hhanded] at hbefore
  exact absurd hbefore (by decide)

/-- The second call is submitted after the flush. -/
def inTurn : List Event :=
  overtaken ++ [.addSession, .run (.addSession 1), .run (.flushPending 1), .run (.flushHeld 1),
    .run (.flush 1 [⟨0, 4⟩]), .run (.flushSend 1 ⟨0, 4⟩ []), .run (.flush 1 []), .submitCall ⟨1, 5⟩,
    .run (.claim ⟨1, 5⟩ 1), .run (.submit ⟨1, 5⟩ 1)]

theorem submit_order_inTurn :
    ∃ s, runFrom (step hundredBytes) init inTurn = some s ∧
      (KeepsOrder hundredBytes init inTurn ∧ KeepsQuota hundredBytes init inTurn) ∧
      s.handed = [(0, 1), (1, 1)] := by
  have hrun : (runFrom (step hundredBytes) init inTurn).map (fun s =>
      decide (s.handed = [(0, 1), (1, 1)])) = some true := by
    decide +kernel
  obtain ⟨s, hs, hfacts⟩ := Option.map_eq_some_iff.1 hrun
  exact ⟨s, hs, submit_order (by decide +kernel), of_decide_eq_true hfacts⟩

end OpenIdea.Rpc.ClientManager
