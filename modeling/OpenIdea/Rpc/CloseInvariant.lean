import OpenIdea.Rpc.FailCalls
import OpenIdea.Rpc.Sending

/-!
# The invariant behind closing a session

`CloseSession` takes the session out of the map, closes it, and lets `FailRpcCalls` pass over the
shards, while other threads claim calls for the session, look it up and send on it. The invariant:
a call bound to the session in a shard that `FailRpcCalls` has passed is in the hands of a thread
that will look the session up in vain, find it closed, or wake the call.

`Effect` says what a step of one thread may do; whatever has an effect keeps the invariant. Most
steps have one of two shapes: an event of the call table, or a step beside it. The two shapes are
`Effect.onTable` and `Effect.quiet`.
-/

set_option autoImplicit false

namespace OpenIdea.Rpc

open OpenIdea.Lib OpenIdea.Lib.LinkedIndex OpenIdea.Lib.Runs

variable {M : Type} [DecidableEq M]

/-! ## What an event does to the bindings -/

variable {e : CallEvent M} {v v' : CallView M}

variable {i : Nat}

/-- A slot after an event was there before with the same session, or the event bound or claimed
it. -/
theorem CallMove.table_key (h : CallMove v e v') {s' : RpcCoroSlot M} (hs' : v'.table i = some s') :
    (∃ s, v.table i = some s ∧ s.key = s'.key) ∨
      (∃ args fails iNow, e = .bind i args fails iNow) ∨ ∃ sid fails, e = .claim i sid fails := by
  have hupdate : ∀ {j : Nat} {x : Option (RpcCoroSlot M)}, Function.update v.table j x i = some s' →
      (i = j ∧ x = some s') ∨ v.table i = some s' := by
    intro j x hx
    rcases eq_or_ne i j with rfl | hne
    · rw [Function.update_self] at hx
      exact Or.inl ⟨rfl, hx⟩
    · rw [Function.update_of_ne hne] at hx
      exact Or.inr hx
  have hold : v.table i = some s' → ∃ s, v.table i = some s ∧ s.key = s'.key :=
    fun hs => ⟨s', hs, rfl⟩
  cases h with
  | bound j args fails iNow s hj hnone hs =>
    rcases hupdate hs' with ⟨rfl, -⟩ | hs'
    · exact Or.inr (Or.inl ⟨args, fails, iNow, rfl⟩)
    · exact Or.inl (hold hs')
  | claimed j sid fails s t hs ht =>
    rcases hupdate hs' with ⟨rfl, -⟩ | hs'
    · exact Or.inr (Or.inr ⟨sid, fails, rfl⟩)
    · exact Or.inl (hold hs')
  | marked j s hs =>
    rcases hupdate hs' with ⟨rfl, hx⟩ | hs'
    · obtain rfl := Option.some.inj hx
      exact Or.inl ⟨s, hs, rfl⟩
    · exact Or.inl (hold hs')
  | woken j iCode s t hs ht | delivered j iId bytes m sid s t hj hs ht hm =>
    rcases hupdate hs' with ⟨-, hx⟩ | hs'
    · cases hx
    · exact Or.inl (hold hs')
  | taken _ ids ts code hnodup hids hts hcode =>
    change eraseSlots v.table ids i = some s' at hs'
    unfold eraseSlots at hs'
    obtain ⟨_, hs'⟩ := Option.ite_none_left_eq_some.1 hs'
    exact Or.inl (hold hs')
  | abandoned j =>
    rcases hupdate hs' with ⟨-, hx⟩ | hs'
    · cases hx
    · exact Or.inl (hold hs')
  | _ => exact Or.inl (hold hs')

/-- A call that leaves the table is taken out for its completion, or abandoned. -/
theorem CallMove.taken_out (h : CallMove v e v') (hempty : v.inFlight = [])
    (hid : ∀ j s, v.table j = some s → s.callId = j) (hi : (v.table i).isSome) :
    (v'.table i).isSome ∨ (∃ c ∈ v'.inFlight, c.slot.callId = i) ∨ e = .abandon i := by
  have hkept : ∀ {j : Nat} {x : Option (RpcCoroSlot M)}, i ≠ j ∨ x.isSome →
      (Function.update v.table j x i).isSome := by
    intro j x hx
    rcases eq_or_ne i j with rfl | hne
    · rw [Function.update_self]
      exact hx.resolve_left (fun hne => hne rfl)
    · rwa [Function.update_of_ne hne]
  cases h with
  | bound j args fails iNow s hj hnone hs => exact Or.inl (hkept (Or.inr rfl))
  | claimed j sid fails s t hs ht => exact Or.inl (hkept (Or.inr rfl))
  | marked j s hs => exact Or.inl (hkept (Or.inr rfl))
  | woken j iCode s t hs ht =>
    rcases eq_or_ne i j with rfl | hne
    · exact Or.inr (Or.inl ⟨⟨t, iCode, none⟩, List.mem_append_right _ List.mem_cons_self,
        (callId_of_call ht).trans (hid i s hs)⟩)
    · exact Or.inl (hkept (Or.inl hne))
  | delivered j iId bytes m sid s t hj hs ht hm =>
    rcases eq_or_ne i j with rfl | hne
    · exact Or.inr (Or.inl ⟨_, List.mem_append_right _ List.mem_cons_self,
        (callId_of_call ht).trans (hid i s hs)⟩)
    · exact Or.inl (hkept (Or.inl hne))
  | taken _ ids ts code hnodup hids hts hcode =>
    by_cases hmem : i ∈ ids
    · rw [← hids] at hmem
      obtain ⟨t, ht, rfl⟩ := List.mem_map.1 hmem
      refine Or.inr (Or.inl ⟨⟨t, code t, none⟩, List.mem_append_right _ ?_, rfl⟩)
      exact List.mem_map_of_mem ht
    · left
      change (eraseSlots v.table ids i).isSome
      rwa [eraseSlots, if_neg hmem]
  | abandoned j =>
    rcases eq_or_ne i j with rfl | hne
    · exact Or.inr (Or.inr rfl)
    · exact Or.inl (hkept (Or.inl hne))
  | finished n c hc =>
    rw [hempty] at hc
    cases hc
  | _ => exact Or.inl hi

/-- Completions without a reply carry an error code. -/
theorem CallMove.codes (h : CallMove v e v') (hempty : v.inFlight = [])
    (hwake : ∀ i iCode, e = .wake i iCode → iCode ≠ 0) :
    ∀ c ∈ v'.inFlight, c.reply = none → c.code ≠ 0 := by
  have hnone : ∀ {c : Completion M}, c ∉ v.inFlight := by
    intro c hc
    rw [hempty] at hc
    cases hc
  cases h with
  | woken j iCode s t hs ht =>
    intro c hc _
    rcases List.mem_append.1 hc with hc | hc
    · exact absurd hc hnone
    · obtain rfl := List.mem_singleton.1 hc
      exact hwake j iCode rfl
  | delivered j iId bytes m sid s t hj hs ht hm =>
    intro c hc hreply
    rcases List.mem_append.1 hc with hc | hc
    · exact absurd hc hnone
    · obtain rfl := List.mem_singleton.1 hc
      cases hreply
  | taken _ ids ts code hnodup hids hts hcode =>
    intro c hc _
    rcases List.mem_append.1 hc with hc | hc
    · exact absurd hc hnone
    · obtain ⟨t, -, rfl⟩ := List.mem_map.1 hc
      exact hcode t
  | finished n c hc =>
    rw [hempty] at hc
    cases hc
  | lost n =>
    intro c hc
    exact absurd (List.mem_of_mem_eraseIdx hc) hnone
  | _ =>
    intro c hc
    exact absurd hc hnone

/-! ## The invariant -/

/-- The calls a task still has to claim, each with its sender. -/
def After.mentions : After → List (Nat × Nat)
  | .flush p _ rest => rest.map fun c => (c.callId, p)
  | _ => []

def Task.mentions : Task M → List (Nat × Nat)
  | .encode i (.sender p) _ => [(i, p)]
  | .submit p i _ => [(i, p)]
  | .flush p _ rest => rest.map fun c => (c.callId, p)
  | .lookup _ _ _ next => next.mentions
  | .send _ _ _ next => next.mentions
  | .wake _ _ next => next.mentions
  | .woken next => next.mentions
  | _ => []

/-- The task will look session `key` up for call `i`, send on it, or wake the call. -/
def Task.Pending (i : Nat) (key : M × Int) : Task M → Prop
  | .encode i' (.session m sid) _ => i' = i ∧ (m, sid) = key
  | .lookup i' key' _ _ => i' = i ∧ key' = key
  | .send i' key' _ _ => i' = i ∧ key' = key
  | .wake i' _ _ => i' = i
  | _ => False

/-- The task belongs to the operation that submits call `i`. -/
def Task.Submits (i : Nat) : Task M → Prop
  | .drawn i' _ _ _ => i' = i
  | .encode i' _ _ => i' = i
  | .submit _ i' _ => i' = i
  | .lookup i' _ _ _ => i' = i
  | .send i' _ _ _ => i' = i
  | .wake i' _ _ => i' = i
  | _ => False

omit [DecidableEq M] in
theorem Task.Pending.submits {key : M × Int} {task : Task M} (h : task.Pending i key) :
    task.Submits i := by
  cases task with
  | encode i' target size =>
    cases target with
    | session m sid => exact h.1
    | sender p => exact h.elim
  | lookup i' key' size next => exact h.1
  | send i' key' size next => exact h.1
  | wake i' iCode next => exact h
  | _ => exact h.elim

/-- What is fixed in a task: where its call goes, and that it wakes with an error code. -/
def Task.Ok (managerOf : Nat → M) : Task M → Prop
  | .drawn _ (.session m sid) args _ => args.manager = m ∧ args.sessionId = sid
  | .drawn _ (.sender p) args _ => args.manager = managerOf p ∧ args.sessionId = invalidSid
  | .wake _ iCode _ => iCode ≠ 0
  | _ => True

namespace NetState

/-- Some thread or sender still has to claim call `i` for sender `p`. -/
def Mention (N : NetState M) (i p : Nat) : Prop :=
  (∃ t, (i, p) ∈ (N.threads t).task.mentions) ∨ ∃ c ∈ (N.senders p).held.calls, c.callId = i

/-- The session number has been handed out. -/
def Known (N : NetState M) (key : M × Int) : Prop :=
  1 ≤ key.2 ∧ key.2 ≤ N.currentSessionId key.1

/-- The session is closed and no longer in the map. -/
def Closed (N : NetState M) (key : M × Int) : Prop :=
  N.Known key ∧ (N.sessions key).closed = true ∧ (N.sessions key).inMap = false

/-- What is known of the session a task closes. -/
def CloseOk (N : NetState M) : Task M → Prop
  | .activeClose key => N.Known key ∧ (N.sessions key).inMap = false
  | .fail key shard => N.Closed key ∧ shard ≤ N.passed key
  | _ => True

/-- Where a call is that was once in the table. -/
def Accounted (N : NetState M) (i : Nat) : Prop :=
  (N.calls.table i).isSome ∨ (∃ t, ∃ c ∈ (N.threads t).held, c.slot.callId = i) ∨
    (∃ c ∈ N.finished, c.slot.callId = i) ∨ i ∈ N.abandoned ∨ i ∈ N.lost

/-- The call's number has been drawn. -/
def Drawn (N : NetState M) (i : Nat) : Prop := ∃ n < N.calls.issued, i = callIdOf n

end NetState

/-- The call table as the threads share it: what they take out is theirs. -/
structure CallsOk (S : CallSystem M) : Prop where
  table : TableInv S
  inFlight : S.inFlight = []
  tracked : Tracked S.view
  unarmed : Unarmed S.table

theorem setHeld_held (s : RpcSender) (h : HeldCalls) : (s.setHeld h).held = h := by
  cases s <;> rfl

structure NetInv (managerOf : Nat → M) (N : NetState M) : Prop where
  calls : CallsOk N.calls
  issued : N.calls.issued ≤ 2 ^ 63
  task : ∀ t, (N.threads t).task.Ok managerOf
  mention : ∀ i p, N.Mention i p → i ∉ N.calls.pending ∧ N.Drawn i ∧
    ∀ s, N.calls.table i = some s → s.manager = managerOf p
  close : ∀ t, N.CloseOk (N.threads t).task
  inMap : ∀ key, (N.sessions key).inMap = true → N.Known key
  closed : ∀ key, 0 < N.passed key → N.Closed key
  /-- a call bound to a session in a shard that has been passed is in a thread's hands -/
  passed : ∀ i s, N.calls.table i = some s → shardOf i < N.passed s.key →
    ∃ t, (N.threads t).task.Pending i s.key
  /-- a thread that completes slots has no call in its hands -/
  free : ∀ t, (N.threads t).held ≠ [] → ∀ i key, ¬ (N.threads t).task.Pending i key
  errors : ∀ c, (c ∈ N.finished ∨ ∃ t, c ∈ (N.threads t).held) → c.reply = none → c.code ≠ 0

omit [DecidableEq M] in
theorem init_netInv (managerOf : Nat → M) (senders : Nat → RpcSender) :
    NetInv managerOf (NetState.init M senders) where
  calls := ⟨init_tableInv, rfl, init_tracked, fun i s hs => by cases hs⟩
  issued := Nat.zero_le _
  task _ := trivial
  mention := by
    rintro i p (⟨t, ht⟩ | ⟨c, hc, -⟩)
    · cases ht
    · change c ∈ ((senders p).setHeld { (senders p).held with calls := [], bytes := 0 }).held.calls
        at hc
      rw [setHeld_held] at hc
      cases hc
  close _ := trivial
  inMap key hkey := by cases hkey
  closed key hkey := absurd hkey (lt_irrefl 0)
  passed i s hs := by cases hs
  free t hheld := absurd rfl hheld
  errors := by
    rintro c (hc | ⟨t, hc⟩)
    · cases hc
    · cases hc

/-! ## One step -/

/-- What a step of thread `t` does, as far as the invariant is concerned. -/
structure Effect (managerOf : Nat → M) (N : NetState M) (t : Nat) (N' : NetState M) : Prop where
  other : ∀ t', t' ≠ t → N'.threads t' = N.threads t'
  calls : CallsOk N'.calls
  issued : N'.calls.issued ≤ 2 ^ 63
  drawn : ∀ i, N.Drawn i → N'.Drawn i
  pending : ∀ i ∈ N'.calls.pending, i ∈ N.calls.pending ∨ ¬ N.Drawn i
  /-- every slot was there before, unless this step bound or claimed it -/
  table : ∀ i s', N'.calls.table i = some s' →
    (∃ s, N.calls.table i = some s ∧ s.key = s'.key) ∨
      ((i ∈ N.calls.pending ∨ ∃ s, N.calls.table i = some s ∧ s.manager = s'.manager) ∧
        ((N'.threads t).task.Pending i s'.key ∨ s'.key.2 = invalidSid))
  /-- known sessions stay known, closed and out of the map -/
  known : ∀ key, N.Known key → N'.Known key
  stays : ∀ key, N.Known key → ((N.sessions key).closed = true → (N'.sessions key).closed = true) ∧
    ((N.sessions key).inMap = false → (N'.sessions key).inMap = false)
  inMap : ∀ key, (N'.sessions key).inMap = true → N'.Known key
  /-- a shard is passed when it has no call of the session left -/
  passed : ∀ key, N'.passed key = N.passed key ∨ (N.Closed key ∧ ∃ shard ≤ N.passed key,
    N'.passed key = max (N.passed key) (shard + 1) ∧
      ∀ i s, N'.calls.table i = some s → shardOf i = shard → s.key ≠ key)
  /-- a thread lets a call go when the call is not bound or its session still open -/
  release : ∀ i key, (N.threads t).task.Pending i key → (N'.threads t).task.Pending i key ∨
    N'.calls.table i = none ∨ N.passed key = 0
  mention : ∀ i p, ((i, p) ∈ (N'.threads t).task.mentions ∨
      ∃ c ∈ (N'.senders p).held.calls, c.callId = i) → N.Mention i p ∨
    (i ∉ N'.calls.pending ∧ N'.Drawn i ∧
      ∀ s, N'.calls.table i = some s → s.manager = managerOf p)
  task : (N'.threads t).task.Ok managerOf
  close : N'.CloseOk (N'.threads t).task
  free : (N'.threads t).held ≠ [] → ∀ i key, ¬ (N'.threads t).task.Pending i key
  accounted : ∀ i, N.Accounted i → N'.Accounted i
  errors : ∀ c, (c ∈ N'.finished ∨ c ∈ (N'.threads t).held) →
    (c ∈ N.finished ∨ c ∈ (N.threads t).held) ∨ (c.reply = none → c.code ≠ 0)

section Step

variable {managerOf : Nat → M} {N N' : NetState M} {t : Nat}

omit [DecidableEq M] in
theorem Effect.passed_le (h : Effect managerOf N t N') (key : M × Int) :
    N.passed key ≤ N'.passed key := by
  rcases h.passed key with heq | ⟨-, shard, -, heq, -⟩
  · exact heq.ge
  · rw [heq]
    exact le_max_left _ _

omit [DecidableEq M] in
theorem Effect.closed_mono (h : Effect managerOf N t N') {key : M × Int} (hkey : N.Closed key) :
    N'.Closed key :=
  ⟨h.known key hkey.1, (h.stays key hkey.1).1 hkey.2.1, (h.stays key hkey.1).2 hkey.2.2⟩

omit [DecidableEq M] in
theorem Effect.closeOk_mono (h : Effect managerOf N t N') {task : Task M}
    (htask : N.CloseOk task) : N'.CloseOk task := by
  cases task with
  | activeClose key => exact ⟨h.known key htask.1, (h.stays key htask.1).2 htask.2⟩
  | fail key shard => exact ⟨h.closed_mono htask.1, htask.2.trans (h.passed_le key)⟩
  | _ => trivial

omit [DecidableEq M] in
/-- No slot is bound to `INVALID_SID` of a manager behind a pass of `FailRpcCalls`. -/
theorem NetInv.not_invalid (hN : NetInv managerOf N) {key : M × Int} (hkey : 0 < N.passed key) :
    key.2 ≠ invalidSid := by
  intro heq
  have hknown := (hN.closed key hkey).1.1
  rw [heq, invalidSid] at hknown
  omega

omit [DecidableEq M] in
/-- The bindings behind the passes of `FailRpcCalls` stay in the hands of threads. -/
theorem Effect.passed_pending (h : Effect managerOf N t N') (hN : NetInv managerOf N) {i : Nat}
    {s' : RpcCoroSlot M} (hs' : N'.calls.table i = some s')
    (hlt : shardOf i < N'.passed s'.key) : ∃ t, (N'.threads t).task.Pending i s'.key := by
  -- the shard of the call had been passed before: a shard passed now has no such call
  have hlt₀ : shardOf i < N.passed s'.key := by
    rcases h.passed s'.key with heq | ⟨-, shard, hshard, heq, hnone⟩
    · rwa [← heq]
    · have hne : shardOf i ≠ shard := fun hij => hnone i s' hs' hij rfl
      rw [heq] at hlt
      rcases lt_max_iff.1 hlt with hlt | hlt
      · exact hlt
      · omega
  have hpos : 0 < N.passed s'.key := lt_of_le_of_lt (Nat.zero_le _) hlt₀
  rcases h.table i s' hs' with ⟨s, hs, hkey⟩ | ⟨-, hpending | hinvalid⟩
  · obtain ⟨t', ht'⟩ := hN.passed i s hs (hkey ▸ hlt₀)
    rw [hkey] at ht'
    rcases eq_or_ne t' t with rfl | hne
    · rcases h.release i s'.key ht' with hpending | hnone | hzero
      · exact ⟨t', hpending⟩
      · rw [hnone] at hs'
        cases hs'
      · exact absurd hzero hpos.ne'
    · exact ⟨t', by rwa [h.other t' hne]⟩
  · exact ⟨t, hpending⟩
  · exact absurd hinvalid (hN.not_invalid hpos)

omit [DecidableEq M] in
/-- A call that still has to be claimed keeps the manager of its sender. -/
theorem Effect.mention_ok (h : Effect managerOf N t N') (hN : NetInv managerOf N) {i p : Nat}
    (hmention : N.Mention i p) : i ∉ N'.calls.pending ∧ N'.Drawn i ∧
      ∀ s, N'.calls.table i = some s → s.manager = managerOf p := by
  obtain ⟨hpending, hdrawn, hmanager⟩ := hN.mention i p hmention
  refine ⟨fun hi => ?_, h.drawn i hdrawn, fun s' hs' => ?_⟩
  · rcases h.pending i hi with hi | hi
    · exact hpending hi
    · exact hi hdrawn
  · rcases h.table i s' hs' with ⟨s, hs, hkey⟩ | ⟨hi | ⟨s, hs, hkey⟩, -⟩
    · exact (congrArg Prod.fst hkey).symm.trans (hmanager s hs)
    · exact absurd hi hpending
    · exact hkey.symm.trans (hmanager s hs)

omit [DecidableEq M] in
/-- **A step keeps the invariant.** -/
theorem Effect.netInv (h : Effect managerOf N t N') (hN : NetInv managerOf N) :
    NetInv managerOf N' := by
  have hthread : ∀ {P : Thread M → Prop} (t' : Nat), P (N'.threads t) → (P (N.threads t')) →
      P (N'.threads t') := by
    intro P t' hself hother
    rcases eq_or_ne t' t with rfl | hne
    · exact hself
    · rwa [h.other t' hne]
  refine ⟨h.calls, h.issued,
    fun t' => hthread (P := fun th => th.task.Ok managerOf) t' h.task (hN.task t'),
    fun i p hmention => ?_, fun t' => hthread (P := fun th => N'.CloseOk th.task) t' h.close
      (h.closeOk_mono (hN.close t')), h.inMap, fun key hkey => ?_,
    fun i s hs hlt => h.passed_pending hN hs hlt,
    fun t' => hthread (P := fun th => th.held ≠ [] → ∀ i key, ¬ th.task.Pending i key) t' h.free
      (hN.free t'), fun c hc => ?_⟩
  · have hold : N.Mention i p → _ := h.mention_ok hN
    rcases hmention with ⟨t', ht'⟩ | hheld
    · rcases eq_or_ne t' t with rfl | hne
      · exact (h.mention i p (Or.inl ht')).elim hold id
      · rw [h.other t' hne] at ht'
        exact hold (Or.inl ⟨t', ht'⟩)
    · exact (h.mention i p (Or.inr hheld)).elim hold id
  · rcases h.passed key with heq | ⟨hclosed, -⟩
    · rw [heq] at hkey
      exact h.closed_mono (hN.closed key hkey)
    · exact h.closed_mono hclosed
  · have hnew : c ∈ N'.finished ∨ c ∈ (N'.threads t).held → c.reply = none → c.code ≠ 0 := by
      intro hc
      rcases h.errors c hc with (hc | hc) | hc
      · exact hN.errors c (Or.inl hc)
      · exact hN.errors c (Or.inr ⟨t, hc⟩)
      · exact hc
    rcases hc with hc | ⟨t', hc⟩
    · exact hnew (Or.inl hc)
    · rcases eq_or_ne t' t with rfl | hne
      · exact hnew (Or.inr hc)
      · rw [h.other t' hne] at hc
        exact hN.errors c (Or.inr ⟨t', hc⟩)

end Step

/-! ## Steps on the table and steps beside it -/

theorem CallMove.pending_cases (h : CallMove v e v') :
    (v'.issued = v.issued ∧ ∀ i ∈ v'.pending, i ∈ v.pending) ∨
      (e = .draw ∧ v'.issued = v.issued + 1 ∧
        ∀ i ∈ v'.pending, i ∈ v.pending ∨ i = callIdOf v.issued) := by
  cases h with
  | drawn => exact Or.inr ⟨rfl, rfl, fun i hi => (List.mem_cons.1 hi).symm⟩
  | bound j args fails iNow s hj hnone hs =>
    exact Or.inl ⟨rfl, fun i hi => List.mem_of_mem_erase hi⟩
  | bindFailed j args fails iNow => exact Or.inl ⟨rfl, fun i hi => List.mem_of_mem_erase hi⟩
  | _ => exact Or.inl ⟨rfl, fun i hi => hi⟩

omit [DecidableEq M] in
/-- The slots a thread has taken out no longer count. -/
theorem Tracked.takeAway {S : CallSystem M} (h : Tracked S.view) :
    Tracked ({ S with inFlight := [] } : CallSystem M).view := by
  have hle : ∀ i, ({ S with inFlight := [] } : CallSystem M).view.weight i ≤ S.view.weight i := by
    intro i
    change S.pending.count i + _ + 0 + _ ≤ S.pending.count i + _ + _ + _
    exact Nat.add_le_add_right (Nat.le_add_right _ _) _
  exact ⟨fun i => (hle i).trans (h.le_one i), fun i hi => h.drawn i (lt_of_lt_of_le hi (hle i))⟩

section Shapes

variable {managerOf : Nat → M} {N N' : NetState M} {t : Nat}

omit [DecidableEq M] in
/-- A call stays accounted for when what the thread held is completed, kept or lost. -/
theorem accounted_step {i : Nat} (h : N.Accounted i)
    (hother : ∀ t', t' ≠ t → N'.threads t' = N.threads t')
    (htable : ∀ i, (N.calls.table i).isSome → (N'.calls.table i).isSome ∨
      (∃ c ∈ (N'.threads t).held, c.slot.callId = i) ∨ i ∈ N'.abandoned)
    (hheld : ∀ c ∈ (N.threads t).held, c ∈ (N'.threads t).held ∨ c ∈ N'.finished ∨
      c.slot.callId ∈ N'.lost)
    (hfinished : ∀ c ∈ N.finished, c ∈ N'.finished)
    (habandoned : ∀ i ∈ N.abandoned, i ∈ N'.abandoned) (hlost : ∀ i ∈ N.lost, i ∈ N'.lost) :
    N'.Accounted i := by
  rcases h with hi | ⟨t', c, hc, hi⟩ | ⟨c, hc, hi⟩ | hi | hi
  · rcases htable i hi with hi | ⟨c, hc, hi⟩ | hi
    · exact Or.inl hi
    · exact Or.inr (Or.inl ⟨t, c, hc, hi⟩)
    · exact Or.inr (Or.inr (Or.inr (Or.inl hi)))
  · rcases eq_or_ne t' t with rfl | hne
    · rcases hheld c hc with hc | hc | hc
      · exact Or.inr (Or.inl ⟨t', c, hc, hi⟩)
      · exact Or.inr (Or.inr (Or.inl ⟨c, hc, hi⟩))
      · exact Or.inr (Or.inr (Or.inr (Or.inr (hi ▸ hc))))
    · exact Or.inr (Or.inl ⟨t', c, by rwa [hother t' hne], hi⟩)
  · exact Or.inr (Or.inr (Or.inl ⟨c, hfinished c hc, hi⟩))
  · exact Or.inr (Or.inr (Or.inr (Or.inl (habandoned i hi))))
  · exact Or.inr (Or.inr (Or.inr (Or.inr (hlost i hi))))

section Beside

/-! What a step does that leaves the table alone: to the other threads, to the sessions, and to the
task of its thread. -/

variable (hN : NetInv managerOf N) (hother : ∀ t', t' ≠ t → N'.threads t' = N.threads t')
  (hknown : ∀ key, N.Known key → N'.Known key)
  (hstays : ∀ key, N.Known key →
    ((N.sessions key).closed = true → (N'.sessions key).closed = true) ∧
      ((N.sessions key).inMap = false → (N'.sessions key).inMap = false))
  (hinMap : ∀ key, (N'.sessions key).inMap = true → N'.Known key)
  (hpassed : ∀ key, N'.passed key = N.passed key ∨ (N.Closed key ∧ ∃ shard ≤ N.passed key,
    N'.passed key = max (N.passed key) (shard + 1) ∧
      ∀ i s, N.calls.table i = some s → shardOf i = shard → s.key ≠ key))
  (hrelease : ∀ i key, (N.threads t).task.Pending i key → (N'.threads t).task.Pending i key ∨
    N.passed key = 0)
  (hmention : ∀ i p, ((i, p) ∈ (N'.threads t).task.mentions ∨
    ∃ c ∈ (N'.senders p).held.calls, c.callId = i) → N.Mention i p)
  (htask : (N'.threads t).task.Ok managerOf) (hclose : N'.CloseOk (N'.threads t).task)
  (hfree : (N'.threads t).held ≠ [] → ∀ i key, ¬ (N'.threads t).task.Pending i key)

include hN hother hknown hstays hinMap hpassed hrelease hmention htask hclose hfree

omit [DecidableEq M] in
/-- A step that leaves the slots of the table alone. -/
theorem Effect.sameTable {g : Guards} (hcalls : N'.calls = { N.calls with guards := g })
    (haccounted : ∀ i, N.Accounted i → N'.Accounted i)
    (herrors : ∀ c, (c ∈ N'.finished ∨ c ∈ (N'.threads t).held) →
      (c ∈ N.finished ∨ c ∈ (N.threads t).held) ∨ (c.reply = none → c.code ≠ 0)) :
    Effect managerOf N t N' where
  other := hother
  calls := by
    rw [hcalls]
    exact ⟨⟨hN.calls.table.shard, hN.calls.table.home⟩, hN.calls.inFlight, hN.calls.tracked,
      hN.calls.unarmed⟩
  issued := by
    rw [hcalls]
    exact hN.issued
  drawn i hi := by
    unfold NetState.Drawn
    rw [hcalls]
    exact hi
  pending i hi := by
    rw [hcalls] at hi
    exact Or.inl hi
  table i s' hs' := by
    rw [hcalls] at hs'
    exact Or.inl ⟨s', hs', rfl⟩
  known := hknown
  stays := hstays
  inMap := hinMap
  passed key := by
    rw [hcalls]
    exact hpassed key
  release i key hi := (hrelease i key hi).imp_right Or.inr
  mention i p hi := Or.inl (hmention i p hi)
  task := htask
  close := hclose
  free := hfree
  accounted := haccounted
  errors := herrors

omit [DecidableEq M] in
/-- A step that leaves the table, the logs and what the thread holds alone. -/
theorem Effect.beside (hcalls : N'.calls = N.calls) (hfinished : N'.finished = N.finished)
    (habandoned : N'.abandoned = N.abandoned) (hlost : N'.lost = N.lost)
    (hheld : (N'.threads t).held = (N.threads t).held) : Effect managerOf N t N' := by
  refine Effect.sameTable (g := N.calls.guards) hN hother hknown hstays hinMap hpassed hrelease
    hmention htask hclose hfree hcalls (fun i hi => ?_) (fun c hc => ?_)
  · refine accounted_step hi hother (fun i hi => Or.inl ?_) (fun c hc => Or.inl ?_)
      (fun c hc => ?_) (fun i hi => ?_) (fun i hi => ?_)
    · rwa [hcalls]
    · rwa [hheld]
    · rwa [hfinished]
    · rwa [habandoned]
    · rwa [hlost]
  · rw [hfinished, hheld] at hc
    exact Or.inl hc

end Beside

variable {task : Task M}

omit [DecidableEq M] in
/-- The thread goes on with another task, and nothing else changes but its senders. -/
theorem Effect.goto (senders : Nat → RpcSender) (hN : NetInv managerOf N)
    (hheld : (N.threads t).held = []) (hN' : N' = { N with senders := senders }.setThread t task [])
    (hrelease : ∀ i key, (N.threads t).task.Pending i key → task.Pending i key ∨
      N.passed key = 0)
    (hmention : ∀ i p, ((i, p) ∈ task.mentions ∨ ∃ c ∈ (senders p).held.calls, c.callId = i) →
      N.Mention i p) (htask : task.Ok managerOf) (hclose : N.CloseOk task) :
    Effect managerOf N t N' := by
  subst hN'
  have hself : (({ N with senders := senders }.setThread t task []).threads t) = ⟨task, []⟩ :=
    Function.update_self _ _ _
  refine Effect.beside hN (fun t' ht' => Function.update_of_ne ht' _ _) (fun _ hk => hk)
    (fun _ _ => ⟨id, id⟩) hN.inMap (fun _ => Or.inl rfl) ?_ ?_ ?_ ?_ ?_ rfl rfl rfl rfl ?_
  · rw [hself]
    exact hrelease
  · rw [hself]
    exact hmention
  · rw [hself]
    exact htask
  · rw [hself]
    exact hclose
  · rw [hself]
    exact fun hne => absurd rfl hne
  · rw [hself, hheld]

omit [DecidableEq M] in
/-- The same without a change of the senders. -/
theorem Effect.setThread (hN : NetInv managerOf N) (hheld : (N.threads t).held = [])
    (hrelease : ∀ i key, (N.threads t).task.Pending i key → task.Pending i key ∨
      N.passed key = 0)
    (hmention : ∀ i p, (i, p) ∈ task.mentions → (i, p) ∈ (N.threads t).task.mentions)
    (htask : task.Ok managerOf) (hclose : N.CloseOk task) :
    Effect managerOf N t (N.setThread t task []) :=
  Effect.goto N.senders hN hheld rfl hrelease
    (fun i p hi => hi.imp (fun hi => ⟨t, hmention i p hi⟩) id) htask hclose

/-- An event of the table: the thread holds what the event takes out. -/
theorem Effect.onTable {S : CallSystem M} (hN : NetInv managerOf N)
    (hheld : (N.threads t).held = []) (hstep : callStep N.calls e = some S)
    (hdraw : e = .draw → N.calls.issued < 2 ^ 63) (hcalls : N'.calls = { S with inFlight := [] })
    (hthreads : N'.threads = Function.update N.threads t ⟨task, S.inFlight⟩)
    (hsessions : N'.sessions = N.sessions) (hcurrent : N'.currentSessionId = N.currentSessionId)
    (hpassed : N'.passed = N.passed) (hfinished : N'.finished = N.finished)
    (hlost : N'.lost = N.lost) (habandoned : ∀ i ∈ N.abandoned, i ∈ N'.abandoned)
    (habandon : ∀ i, e = .abandon i → (N.calls.table i).isSome → i ∈ N'.abandoned)
    (hwake : ∀ i iCode, e = .wake i iCode → iCode ≠ 0) (hnew : ∀ i s', S.table i = some s' →
      ((∃ args fails iNow, e = .bind i args fails iNow) ∨ ∃ sid fails, e = .claim i sid fails) →
      (∃ s, N.calls.table i = some s ∧ s.key = s'.key) ∨
        ((i ∈ N.calls.pending ∨ ∃ s, N.calls.table i = some s ∧ s.manager = s'.manager) ∧
          (task.Pending i s'.key ∨ s'.key.2 = invalidSid)))
    (hrelease : ∀ i key, (N.threads t).task.Pending i key → task.Pending i key ∨
      S.table i = none ∨ N.passed key = 0) (hmention : ∀ i p, ((i, p) ∈ task.mentions ∨
      ∃ c ∈ (N'.senders p).held.calls, c.callId = i) → N.Mention i p ∨
        (i ∉ S.pending ∧ (∃ n < S.issued, i = callIdOf n) ∧
          ∀ s, S.table i = some s → s.manager = managerOf p)) (htask : task.Ok managerOf)
    (hclose : N.CloseOk task) (hfree : S.inFlight ≠ [] → ∀ i key, ¬ task.Pending i key) :
    Effect managerOf N t N' := by
  obtain ⟨S', hstep', htable, hmove⟩ := callStep_move hN.calls.table
    (hN.calls.tracked.freshBind e)
  obtain rfl := Option.some.inj (hstep.symm.trans hstep')
  have hpending := hmove.pending_cases
  have hissued : N.calls.issued ≤ S.issued ∧ S.issued ≤ 2 ^ 63 := by
    rcases hpending with ⟨heq, -⟩ | ⟨he, heq, -⟩
    · exact ⟨heq.ge, heq.trans_le hN.issued⟩
    · exact ⟨(Nat.le_succ _).trans_eq heq.symm, heq.trans_le (hdraw he)⟩
  have hempty : N.calls.view.inFlight = [] := hN.calls.inFlight
  have hid : ∀ j s, N.calls.view.table j = some s → s.callId = j := fun j s => hN.calls.table.callId
  have hself : N'.threads t = ⟨task, S.inFlight⟩ := by
    rw [hthreads, Function.update_self]
  have hother : ∀ t', t' ≠ t → N'.threads t' = N.threads t' := by
    intro t' ht'
    rw [hthreads, Function.update_of_ne ht']
  have htable' : N'.calls.table = S.table := by rw [hcalls]; rfl
  have hknown : ∀ key, N'.Known key ↔ N.Known key := by
    intro key
    rw [NetState.Known, NetState.Known, hcurrent]
  refine ⟨hother, ?_, by rw [hcalls]; exact hissued.2, ?_, ?_, ?_,
    fun key hk => (hknown key).2 hk, ?_, ?_, ?_, ?_, ?_, ?_, ?_, ?_, ?_, ?_⟩
  · rw [hcalls]
    exact ⟨⟨htable.shard, htable.home⟩, rfl,
      (hN.calls.tracked.move hmove hid hissued.2).takeAway, hN.calls.unarmed.move hmove⟩
  · rintro i ⟨n, hn, hi⟩
    refine ⟨n, ?_, hi⟩
    rw [hcalls]
    exact lt_of_lt_of_le hn hissued.1
  · intro i hi
    rw [hcalls] at hi
    rcases hpending with ⟨-, hsub⟩ | ⟨he, -, hsub⟩
    · exact Or.inl (hsub i hi)
    · rcases hsub i hi with hi | rfl
      · exact Or.inl hi
      · -- a number drawn now has not been drawn before
        right
        rintro ⟨n, hn, heq⟩
        exact hn.ne' (callIdOf_inj (hdraw he) (hn.trans (hdraw he)) heq)
  · intro i s' hs'
    rw [htable'] at hs'
    rw [hself]
    rcases hmove.table_key hs' with hs | hs | hs
    · exact Or.inl hs
    · exact hnew i s' hs' (Or.inl hs)
    · exact hnew i s' hs' (Or.inr hs)
  · intro key _
    rw [hsessions]
    exact ⟨id, id⟩
  · intro key hkey
    rw [hsessions] at hkey
    exact (hknown key).2 (hN.inMap key hkey)
  · intro key
    rw [hpassed]
    exact Or.inl rfl
  · intro i key hi
    rw [hself, htable']
    exact hrelease i key hi
  · intro i p hi
    rw [hself] at hi
    rw [htable', NetState.Drawn, hcalls]
    exact hmention i p hi
  · rw [hself]
    exact htask
  · rw [hself]
    cases task with
    | activeClose key => exact ⟨(hknown key).2 hclose.1, by rw [hsessions]; exact hclose.2⟩
    | fail key shard =>
      refine ⟨⟨(hknown key).2 hclose.1.1, ?_⟩, ?_⟩
      · rw [hsessions]
        exact hclose.1.2
      · rw [hpassed]
        exact hclose.2
    | _ => trivial
  · rw [hself]
    exact hfree
  · intro i hi
    refine accounted_step hi hother (fun i hi => ?_) (fun c hc => ?_) (fun c hc => ?_) habandoned
      (fun i hi => ?_)
    · rw [hself, htable']
      rcases hmove.taken_out hempty hid hi with hi' | hi' | he
      · exact Or.inl hi'
      · exact Or.inr (Or.inl hi')
      · exact Or.inr (Or.inr (habandon i he hi))
    · rw [hheld] at hc
      cases hc
    · rwa [hfinished]
    · rwa [hlost]
  · intro c hc
    rw [hfinished, hself] at hc
    rcases hc with hc | hc
    · exact Or.inl (Or.inl hc)
    · exact Or.inr (hmove.codes hempty hwake c hc)

omit [DecidableEq M] in
/-- A step that changes nothing. -/
theorem Effect.refl (hN : NetInv managerOf N) (t : Nat) : Effect managerOf N t N :=
  Effect.beside hN (fun _ _ => rfl) (fun _ hk => hk) (fun _ _ => ⟨id, id⟩) hN.inMap
    (fun _ => Or.inl rfl) (fun _ _ hi => Or.inl hi) (fun _ _ hi => hi.imp (fun hi => ⟨t, hi⟩) id)
    (hN.task t) (hN.close t) (hN.free t) rfl rfl rfl rfl rfl

theorem onTable_eq :
    N.onTable t task e = some N' ↔ ∃ S, callStep N.calls e = some S ∧
      { N with calls := { S with inFlight := [] } }.setThread t task S.inFlight = N' := by
  rw [NetState.onTable, Option.map_eq_some_iff]

/-- The event does not bind, claim or abandon a call, and wakes with an error code only. -/
def CallEvent.Quiet : CallEvent M → Prop
  | .bind _ _ _ _ => False
  | .claim _ _ _ => False
  | .abandon _ => False
  | .wake _ iCode => iCode ≠ 0
  | _ => True

/-- An event that gives no call a new session. -/
theorem Effect.quiet (hN : NetInv managerOf N) (hheld : (N.threads t).held = [])
    (h : N.onTable t task e = some N') (hdraw : e = .draw → N.calls.issued < 2 ^ 63)
    (hquiet : e.Quiet)
    (hrelease : ∀ i key S, callStep N.calls e = some S → (N.threads t).task.Pending i key →
      task.Pending i key ∨ S.table i = none ∨ N.passed key = 0)
    (hmention : ∀ i p, (i, p) ∈ task.mentions → (i, p) ∈ (N.threads t).task.mentions)
    (htask : task.Ok managerOf) (hclose : N.CloseOk task)
    (hfree : ∀ i key, ¬ task.Pending i key ∨ ∀ S, callStep N.calls e = some S → S.inFlight = []) :
    Effect managerOf N t N' := by
  obtain ⟨S, hstep, rfl⟩ := onTable_eq.1 h
  refine Effect.onTable hN hheld hstep hdraw rfl rfl rfl rfl rfl rfl rfl (fun _ hi => hi)
    (fun i he => (he ▸ hquiet : (CallEvent.abandon i).Quiet).elim)
    (fun i iCode he => (he ▸ hquiet : (CallEvent.wake i iCode).Quiet)) ?_
    (fun i key => hrelease i key S hstep)
    (fun i p hi => Or.inl (hi.imp (fun hi => ⟨t, hmention i p hi⟩) id)) htask hclose
    (fun hne i key => (hfree i key).elim id fun hempty => absurd (hempty S hstep) hne)
  rintro i s' - (⟨args, fails, iNow, rfl⟩ | ⟨sid, fails, rfl⟩)
  · exact hquiet.elim
  · exact hquiet.elim

end Shapes

end OpenIdea.Rpc
