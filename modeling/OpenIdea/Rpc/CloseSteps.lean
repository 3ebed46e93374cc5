import OpenIdea.Rpc.CloseInvariant

/-!
# The steps of senders and closers

Every step of every thread has an effect in the sense of the invariant: binding, claiming, holding,
flushing, looking up, sending, waking, completing, and closing a session shard by shard. All of them
come together in `netStep_effect`.
-/

set_option autoImplicit false

namespace OpenIdea.Rpc

open OpenIdea.Lib OpenIdea.Lib.LinkedIndex OpenIdea.Lib.Runs

variable {M : Type} [DecidableEq M]

/-! ## The operations on the table -/

section Operations

variable {managerOf : Nat → M} {N N' : NetState M} {t : Nat} {ch : Choice}

variable {i : Nat} {s : SessionState}

/-- `WakeRpcCall` leaves no slot under its number. -/
theorem wake_table {S S' : CallSystem M} (h : TableInv S) {iCode : Int}
    (hstep : callStep S (.wake i iCode) = some S') : S'.table i = none := by
  cases hs : (S.shards (shardOf i)).slots i with
  | none =>
    rw [callStep, CallSystem.take, takeRpcSlot_missing hs] at hstep
    obtain rfl := Option.some.inj hstep
    exact hs
  | some s =>
    obtain ⟨sh', htake, hsh', hslots⟩ := takeRpcSlot_spec (h.shard (shardOf i)) S.guards hs
      (show ∀ f ∈ (none : Option (TakeFilter M)), f.Matches s from fun f hf => by cases hf)
    rw [callStep, CallSystem.take, htake] at hstep
    obtain rfl := Option.some.inj hstep
    obtain ⟨-, htable⟩ := setShard_update h hsh' hslots
    exact (congrFun htable i).trans (Function.update_self _ _ _)

/-- What `ClaimRpcSend` answers, and what it has done then. -/
theorem claim_cases {S : CallSystem M} (h : TableInv S) (i : Nat) (sid : Int)
    (fails : AllocPoint → Bool) :
    ∃ sh r, claimRpcSend fails (S.shards (shardOf i)) i sid = some (sh, r) ∧
      (S.setShard (shardOf i) sh = S ∧ r ≠ .claimed ∨
        r = .claimed ∧ ∃ s s', S.table i = some s ∧
          (S.setShard (shardOf i) sh).table = Function.update S.table i (some s') ∧
          s'.key = (s.manager, sid)) := by
  have hsame : S.setShard (shardOf i) (S.shards (shardOf i)) = S := by
    simp only [CallSystem.setShard, Function.update_eq_self]
  cases hs : (S.shards (shardOf i)).slots i with
  | none => exact ⟨_, .notFound, by rw [claimRpcSend, hs], Or.inl ⟨hsame, by decide⟩⟩
  | some s =>
    rcases claimRpcSend_spec (h.shard (shardOf i)) fails sid hs with
      hclaim | ⟨sh', s', hclaim, hsh', hslots, hs'⟩
    · exact ⟨_, .threw, hclaim, Or.inl ⟨hsame, by decide⟩⟩
    · obtain ⟨-, htable⟩ := setShard_update h hsh' hslots
      refine ⟨sh', .claimed, hclaim, Or.inr ⟨rfl, s, s', hs, htable, ?_⟩⟩
      have hmanager : s'.unlinked.manager = s.manager := by rw [hs']; rfl
      have hsid : s'.unlinked.sessionId = sid := by rw [hs']
      exact Prod.ext hmanager hsid

/-- A claim: when it succeeds, the call is in the hands of the thread. -/
theorem claimThen_effect {sid : Int} {next : ClaimResult → Task M} (hN : NetInv managerOf N)
    (hheld : (N.threads t).held = []) (h : N.claimThen t i sid ch next = some N')
    (hfree : ∀ i' key, ¬ (N.threads t).task.Pending i' key)
    (hmention : ∀ r i' p, (i', p) ∈ (next r).mentions → (i', p) ∈ (N.threads t).task.mentions)
    (htask : ∀ r, (next r).Ok managerOf) (hclose : ∀ r, N.CloseOk (next r))
    (hclaimed : ∀ s, N.calls.table i = some s → (next .claimed).Pending i (s.manager, sid)) :
    Effect managerOf N t N' := by
  obtain ⟨sh, r, hclaim, hcases⟩ := claim_cases hN.calls.table i sid ch.fails
  rw [NetState.claimThen, hclaim, Option.bind_some] at h
  obtain ⟨S, hstep, rfl⟩ := onTable_eq.1 h
  have hS : S = N.calls.setShard (shardOf i) sh := by
    rw [callStep, hclaim] at hstep
    exact (Option.some.inj hstep).symm
  refine Effect.onTable hN hheld hstep (fun h => by cases h) rfl rfl rfl rfl rfl rfl rfl
    (fun _ hi => hi) (fun _ h => by cases h) (fun _ _ h => by cases h) ?_
    (fun i' key hi' => absurd hi' (hfree i' key)) (fun i' p hi' =>
      Or.inl (hi'.imp (fun hi' => ⟨t, hmention r i' p hi'⟩) id)) (htask r) (hclose r)
    (fun hne => absurd (hS ▸ hN.calls.inFlight) hne)
  rintro i' s' hs' (⟨args, fails, iNow, he⟩ | ⟨sid', fails, he⟩)
  · cases he
  · obtain ⟨rfl, rfl, -⟩ := CallEvent.claim.inj he
    rw [hS] at hs'
    rcases hcases with ⟨hsame, -⟩ | ⟨rfl, s, s₁, hs, htable, hkey⟩
    · rw [hsame] at hs'
      exact Or.inl ⟨s', hs', rfl⟩
    · rw [htable, Function.update_self] at hs'
      obtain rfl := Option.some.inj hs'
      refine Or.inr ⟨Or.inr ⟨s, hs, (congrArg Prod.fst hkey).symm⟩, Or.inl ?_⟩
      rw [hkey]
      exact hclaimed s hs

/-- `BindRpcCall`: the call is bound to the session of its arguments, and in the hands of the
thread, or nothing is bound. -/
theorem bind_effect {size : Nat} {target : Target M} {args : BindArgs M} (hN : NetInv managerOf N)
    (hheld : (N.threads t).held = []) (htask : (N.threads t).task = .drawn i target args size)
    (h : N.runTask managerOf t ch (.drawn i target args size) = some N') :
    Effect managerOf N t N' := by
  simp only [NetState.runTask] at h
  split at h
  · rename_i hi
    have hfresh : (N.calls.shards (shardOf i)).slots i = none :=
      hN.calls.tracked.freshBind (.bind i args ch.fails ch.iNow) hi
    obtain ⟨sh, ok, hbind, hout⟩ := bindRpcCall_spec (hN.calls.table.shard (shardOf i)) ch.fails
      ch.iNow args hfresh
    rw [hbind, Option.bind_some] at h
    obtain ⟨S, hstep, rfl⟩ := onTable_eq.1 h
    obtain rfl := Option.some.inj ((callStep_bind hi hbind).symm.trans hstep)
    obtain ⟨S', hstep', htable', hmove⟩ := callStep_move hN.calls.table
      (hN.calls.tracked.freshBind (.bind i args ch.fails ch.iNow))
    obtain rfl := Option.some.inj (hstep.symm.trans hstep')
    have htracked := hN.calls.tracked.move hmove (fun j s => hN.calls.table.callId) hN.issued
    have hok := hN.task t
    rw [htask] at hok
    -- the call is in the table exactly when `BindRpcCall` returned
    have hslot : ∀ s', (N.calls.setShard (shardOf i) sh).table i = some s' →
        ok = true ∧ s'.key = (args.manager, args.sessionId) := by
      intro s' hs'
      cases ok with
      | false =>
        obtain ⟨hsh, hslots⟩ := hout
        obtain ⟨-, htable⟩ := setShard_update hN.calls.table hsh hslots
        rw [htable, Function.update_self] at hs'
        cases hs'
      | true =>
        obtain ⟨hsh, s, hs, hslots⟩ := hout
        obtain ⟨-, htable⟩ := setShard_update hN.calls.table hsh hslots
        rw [htable, Function.update_self] at hs'
        obtain rfl := Option.some.inj hs'
        have hmanager : s.unlinked.manager = args.manager := by rw [hs]; rfl
        have hsid : s.unlinked.sessionId = args.sessionId := by rw [hs]; rfl
        exact ⟨rfl, Prod.ext hmanager hsid⟩
    refine Effect.onTable hN hheld hstep nofun rfl rfl rfl rfl rfl rfl rfl (fun _ hi => hi) nofun
      nofun ?_ ?_ ?_ ?_ ?_ (fun hne => absurd hN.calls.inFlight hne)
    · rintro i' s' hs' (⟨args', fails, iNow, he⟩ | ⟨sid', fails, he⟩)
      · obtain ⟨rfl, rfl, -⟩ := CallEvent.bind.inj he
        obtain ⟨rfl, hkey⟩ := hslot s' hs'
        refine Or.inr ⟨Or.inl hi, ?_⟩
        rw [hkey]
        cases target with
        | session m sid => exact Or.inl ⟨rfl, Prod.ext hok.1.symm hok.2.symm⟩
        | sender p => exact Or.inr hok.2
      · cases he
    · intro i' key hi'
      rw [htask] at hi'
      exact hi'.elim
    · rintro i' p (hi' | hi')
      · cases ok with
        | false => cases hi'
        | true =>
          cases target with
          | session m sid => cases hi'
          | sender p' =>
            obtain ⟨rfl, rfl⟩ := Prod.mk.inj (List.mem_singleton.1 hi')
            obtain ⟨hsh, s, hs, hslots⟩ := hout
            obtain ⟨-, htable⟩ := setShard_update hN.calls.table hsh hslots
            refine Or.inr ⟨?_, ?_, ?_⟩
            · -- the number is in the table now, so it waits nowhere else
              intro hpending
              have hle := htracked.le_one i'
              have hpos : 0 < (N.calls.pending.erase i').count i' :=
                List.count_pos_iff.2 hpending
              have hsome : ((N.calls.setShard (shardOf i') sh).table i').isSome = true := by
                rw [htable, Function.update_self]
                rfl
              change (N.calls.pending.erase i').count i' +
                (if ((N.calls.setShard (shardOf i') sh).table i').isSome then 1 else 0) +
                  _ + _ ≤ 1 at hle
              rw [hsome, if_pos rfl] at hle
              omega
            · obtain ⟨n, hn, heq⟩ := hN.calls.tracked.drawn i' (by
                have hpos : 0 < N.calls.pending.count i' := List.count_pos_iff.2 hi
                change 0 < N.calls.pending.count i' + _ + _ + _
                omega)
              exact ⟨n, hn, heq⟩
            · intro s' hs'
              exact (congrArg Prod.fst (hslot s' hs').2).trans hok.1
      · exact Or.inl (Or.inr hi')
    · cases ok with
      | false => trivial
      | true => trivial
    · cases ok with
      | false => trivial
      | true => trivial
  · obtain rfl := Option.some.inj h
    exact .refl hN t

theorem drop_calls_subset (h : HeldCalls) (i : Nat) : ∀ c ∈ (h.drop i).calls, c ∈ h.calls := by
  intro c hc
  unfold HeldCalls.drop at hc
  split at hc
  · exact hc
  · exact List.mem_of_mem_eraseP hc

/-- Holding a call moves it from the task to the sender. -/
theorem hold_effect {p size : Nat} (hN : NetInv managerOf N) (hheld : (N.threads t).held = [])
    (htask : (N.threads t).task = .submit p i size) (h : N.hold t p i size ch = some N') :
    Effect managerOf N t N' := by
  have hfree : ∀ i' key, ¬ (N.threads t).task.Pending i' key := by
    intro i' key hi'
    rw [htask] at hi'
    exact hi'
  have hempty : ∀ S, callStep N.calls (.mark i) = some S → S.inFlight = [] := by
    intro S hstep
    obtain rfl := Option.some.inj hstep
    exact hN.calls.inFlight
  unfold NetState.hold at h
  split at h
  · split at h
    · exact Effect.quiet hN hheld h nofun trivial
        (fun i' key _ _ hi' => absurd hi' (hfree i' key)) nofun (show oiErrFail ≠ 0 by decide)
        trivial (fun _ _ => Or.inr hempty)
    · obtain ⟨S, hstep, rfl⟩ := onTable_eq.1 h
      refine Effect.onTable hN hheld hstep nofun rfl rfl rfl rfl rfl rfl rfl (fun _ hi => hi)
        nofun nofun ?_ (fun i' key hi' => absurd hi' (hfree i' key)) ?_ ?_ ?_
        (fun hne => absurd (hempty S hstep) hne)
      · rintro i' s' - (⟨args, fails, iNow, he⟩ | ⟨sid, fails, he⟩)
        · cases he
        · cases he
      · rintro i' p' (hi' | ⟨c, hc, hi'⟩)
        · revert hi'
          cases N.senders p with
          | client s => exact nofun
          | route s => exact nofun
        · left
          change c ∈ (Function.update N.senders p _ p').held.calls at hc
          rcases eq_or_ne p' p with rfl | hne
          · rw [Function.update_self, setHeld_held] at hc
            rcases List.mem_append.1 hc with hc | hc
            · exact Or.inr ⟨c, hc, hi'⟩
            · obtain rfl := List.mem_singleton.1 hc
              refine Or.inl ⟨t, ?_⟩
              rw [htask]
              exact List.mem_singleton.2 (by rw [← hi'])
          · rw [Function.update_of_ne hne] at hc
            exact Or.inr ⟨c, hc, hi'⟩
      · cases N.senders p <;> trivial
      · cases N.senders p <;> trivial
  · exact Effect.quiet hN hheld h nofun trivial
      (fun i' key _ _ hi' => absurd hi' (hfree i' key)) nofun trivial trivial (fun _ _ => Or.inl id)

/-- One section of `FailRpcCalls`: it takes a batch out, or passes the shard because it has no call
of the session. -/
theorem fail_effect {key : M × Int} {shard : Nat} (hN : NetInv managerOf N)
    (hheld : (N.threads t).held = []) (htask : (N.threads t).task = .fail key shard)
    (h : N.runTask managerOf t ch (.fail key shard) = some N') : Effect managerOf N t N' := by
  have hclose := hN.close t
  rw [htask] at hclose
  have hfree : ∀ i' key', ¬ (N.threads t).task.Pending i' key' := by
    intro i' key' hi'
    rw [htask] at hi'
    exact hi'
  simp only [NetState.runTask] at h
  split at h
  · split at h
    · rename_i hsessions
      obtain rfl := Option.some.inj h
      have hself : ((NetState.setThread { N with
          passed := Function.update N.passed key (max (N.passed key) (shard + 1)) } t
            (.fail key (shard + 1)) []).threads t) = ⟨.fail key (shard + 1), []⟩ :=
        Function.update_self _ _ _
      have hpassed : Function.update N.passed key (max (N.passed key) (shard + 1)) key =
          max (N.passed key) (shard + 1) := Function.update_self _ _ _
      refine Effect.beside hN (fun t' ht' => Function.update_of_ne ht' _ _) (fun _ hk => hk)
        (fun _ _ => ⟨id, id⟩) hN.inMap (fun key' => ?_)
        (fun i' key' hi' => absurd hi' (hfree i' key')) ?_ ?_ ?_ ?_ rfl rfl rfl rfl ?_
      · rcases eq_or_ne key' key with rfl | hne
        · refine Or.inr ⟨hclose.1, shard, hclose.2, hpassed, ?_⟩
          -- a call of the session would be in the session's list of its shard
          rintro i s hs rfl rfl
          have hnode := (hN.calls.table.shard (shardOf i)).core.session_node hs
          rw [RpcCallShard.sessionIndex, hsessions] at hnode
          cases hnode
        · exact Or.inl (Function.update_of_ne hne _ _)
      · rw [hself]
        rintro i p (hi | hi)
        · cases hi
        · exact Or.inr hi
      · rw [hself]
        trivial
      · rw [hself]
        refine ⟨hclose.1, ?_⟩
        change shard + 1 ≤ Function.update N.passed key _ key
        rw [hpassed]
        exact le_max_right _ _
      · rw [hself]
        exact fun hne => absurd rfl hne
      · rw [hself, hheld]
    · exact Effect.quiet hN hheld h (fun h => by cases h) trivial
        (fun i' key' _ _ hi' => absurd hi' (hfree i' key')) (fun _ _ h => by cases h) trivial hclose
        (fun _ _ => Or.inl id)
  · obtain rfl := Option.some.inj h
    exact Effect.setThread hN hheld (fun i' key' hi' => absurd hi' (hfree i' key'))
      (fun _ _ h => by cases h) trivial trivial

theorem sendResult_sessions (s : SessionState) (size : Nat) :
    (s.sendResult size).2.closed = s.closed ∧ (s.sendResult size).2.inMap = s.inMap := by
  unfold SessionState.sendResult
  split
  · exact ⟨rfl, rfl⟩
  · split
    · exact ⟨rfl, rfl⟩
    · exact ⟨rfl, rfl⟩

/-- A session that takes the bytes is not closed. -/
theorem sendResult_ok {size : Nat} (h : (s.sendResult size).1 = oiOk) : s.closed = false := by
  unfold SessionState.sendResult at h
  split at h
  · cases h
  · rename_i hclosed
    exact eq_false_of_ne_true hclosed

theorem setSession_self (N : NetState M) (key : M × Int) (s : SessionState) :
    (N.setSession key s).sessions key = s :=
  Function.update_self _ _ _

theorem sessions_update {key : M × Int} (hclosed : (N.sessions key).closed = true → s.closed = true)
    (hinMap : (N.sessions key).inMap = false → s.inMap = false) (key' : M × Int) :
    ((N.sessions key').closed = true → ((N.setSession key s).sessions key').closed = true) ∧
      ((N.sessions key').inMap = false → ((N.setSession key s).sessions key').inMap = false) := by
  unfold NetState.setSession
  dsimp only
  rcases eq_or_ne key' key with rfl | hne
  · rw [Function.update_self]
    exact ⟨hclosed, hinMap⟩
  · rw [Function.update_of_ne hne]
    exact ⟨id, id⟩

omit [DecidableEq M] in
theorem mentions_handler (next : After) (i p : Nat)
    (h : (i, p) ∈ (next.handler : Task M).mentions) : (i, p) ∈ next.mentions := by
  cases next with
  | dispatch i' => cases h
  | caught => cases h
  | flush p' sid rest => cases h

omit [DecidableEq M] in
theorem mentions_resume (next : After) (i p : Nat)
    (h : (i, p) ∈ (next.resume : Task M).mentions) : (i, p) ∈ next.mentions := by
  cases next with
  | dispatch i' => cases h
  | caught => cases h
  | flush p' sid rest => exact h

omit [DecidableEq M] in
theorem handler_ok (next : After) : (next.handler : Task M).Ok managerOf := by
  cases next with
  | dispatch i' => exact (show oiErrFail ≠ 0 by decide)
  | caught => trivial
  | flush p' sid rest => trivial

omit [DecidableEq M] in
theorem resume_ok (next : After) : (next.resume : Task M).Ok managerOf := by
  cases next <;> trivial

omit [DecidableEq M] in
theorem handler_closeOk (next : After) : N.CloseOk next.handler := by
  cases next <;> trivial

omit [DecidableEq M] in
theorem resume_closeOk (next : After) : N.CloseOk next.resume := by
  cases next <;> trivial

/-- A change of one session that keeps it closed and out of the map. -/
theorem setSession_effect {key : M × Int} {task : Task M} (senders : Nat → RpcSender)
    (hN : NetInv managerOf N) (hheld : (N.threads t).held = [])
    (hN' : N' = ({ N with senders := senders }.setSession key s).setThread t task [])
    (hclosed : (N.sessions key).closed = true → s.closed = true)
    (hinMap : (N.sessions key).inMap = false → s.inMap = false)
    (hrelease : ∀ i key, (N.threads t).task.Pending i key → task.Pending i key ∨
      N.passed key = 0)
    (hmention : ∀ i p, ((i, p) ∈ task.mentions ∨ ∃ c ∈ (senders p).held.calls, c.callId = i) →
      N.Mention i p) (htask : task.Ok managerOf) (hclose : N'.CloseOk task) :
    Effect managerOf N t N' := by
  have hself : N'.threads t = ⟨task, []⟩ := by
    rw [hN']
    exact Function.update_self _ _ _
  have hsessions : ∀ key', ((N.sessions key').closed = true → (N'.sessions key').closed = true) ∧
      ((N.sessions key').inMap = false → (N'.sessions key').inMap = false) := by
    rw [hN']
    exact sessions_update hclosed hinMap
  refine Effect.beside hN ?_ ?_ (fun key' _ => hsessions key') ?_ ?_ ?_ ?_ ?_ ?_ ?_
    (by rw [hN']; rfl) (by rw [hN']; rfl) (by rw [hN']; rfl) (by rw [hN']; rfl) ?_
  · intro t' ht'
    rw [hN']
    exact Function.update_of_ne ht' _ _
  · intro key' hk
    rw [hN']
    exact hk
  · intro key' hk
    have hin : (N.sessions key').inMap = true := by
      by_contra hnot
      rw [(hsessions key').2 (eq_false_of_ne_true hnot)] at hk
      cases hk
    have hknown := hN.inMap key' hin
    rw [hN']
    exact hknown
  · intro key'
    rw [hN']
    exact Or.inl rfl
  · rw [hself]
    exact hrelease
  · rw [hself, hN']
    exact hmention
  · rw [hself]
    exact htask
  · rw [hself]
    exact hclose
  · rw [hself]
    exact fun hne => absurd rfl hne
  · rw [hself, hheld]

end Operations

/-! ## Every step -/

section Steps

variable {managerOf : Nat → M} {N N' : NetState M} {t : Nat} {ch : Choice}

omit [DecidableEq M] in
/-- `DropPendingCall` shortens one sender's list and changes nothing else. -/
theorem dropPending_eq (N : NetState M) (s : RpcCoroSlot M) :
    ∃ senders, N.dropPending s = { N with senders := senders } ∧
      ∀ p, ∀ c ∈ (senders p).held.calls, c ∈ (N.senders p).held.calls := by
  unfold NetState.dropPending
  split
  · rename_i p _ _
    refine ⟨_, rfl, fun p' c hc => ?_⟩
    rcases eq_or_ne p' p with rfl | hne
    · rw [Function.update_self, setHeld_held] at hc
      exact drop_calls_subset _ _ c hc
    · rwa [Function.update_of_ne hne] at hc
  · exact ⟨N.senders, rfl, fun _ _ hc => hc⟩

omit [DecidableEq M] in
/-- `AbandonRpcCall` logs the call it has taken out and drops it from its sender. -/
theorem forget_eq (N : NetState M) (i : Nat) (o : Option (RpcCoroSlot M)) :
    ∃ senders abandoned, N.forget i o = { N with senders := senders, abandoned := abandoned } ∧
      (∀ p, ∀ c ∈ (senders p).held.calls, c ∈ (N.senders p).held.calls) ∧
      (∀ i ∈ N.abandoned, i ∈ abandoned) ∧ (o.isSome → i ∈ abandoned) := by
  cases o with
  | none => exact ⟨N.senders, N.abandoned, rfl, fun _ _ hc => hc, fun _ hi => hi, nofun⟩
  | some s =>
    obtain ⟨senders, hdrop, hsenders⟩ := dropPending_eq { N with abandoned := i :: N.abandoned } s
    exact ⟨senders, i :: N.abandoned, hdrop, hsenders, fun _ hi => List.mem_cons_of_mem _ hi,
      fun _ => List.mem_cons_self⟩

theorem disconnected_held (s : RpcSender) (sid : Int) : (s.disconnected sid).held = s.held := by
  cases s with
  | client c | route r =>
    simp only [RpcSender.disconnected, RpcSender.held]
    split <;> rfl

omit [DecidableEq M] in
/-- `Disconnected` changes the session of one sender at most. -/
theorem disconnect_eq (N : NetState M) (key : M × Int) :
    ∃ senders, N.disconnect key = { N with senders := senders } ∧
      ∀ p, (senders p).held = (N.senders p).held := by
  unfold NetState.disconnect
  split
  · exact ⟨N.senders, rfl, fun _ => rfl⟩
  · rename_i p _
    refine ⟨_, rfl, fun p' => ?_⟩
    rcases eq_or_ne p' p with rfl | hne
    · rw [Function.update_self, disconnected_held]
    · rw [Function.update_of_ne hne]

omit [DecidableEq M] in
/-- One completion. -/
theorem complete_effect {c : Completion M} {rest : List (Completion M)} (hN : NetInv managerOf N)
    (hheld : (N.threads t).held = c :: rest) :
    Effect managerOf N t (N.complete t (N.threads t).task c rest ch) := by
  have hfree : ∀ i key, ¬ (N.threads t).task.Pending i key := hN.free t (by rw [hheld]; simp)
  have hc : c.reply = none → c.code ≠ 0 :=
    hN.errors c (Or.inr ⟨t, by rw [hheld]; exact List.mem_cons_self⟩)
  unfold NetState.complete
  obtain ⟨senders, hdrop, hsenders⟩ := dropPending_eq { N with
    calls := { N.calls with guards := releaseGuard N.calls.guards c.slot }
    finished := N.finished ++ [c] } c.slot
  rw [hdrop]
  have hmention : ∀ {task : Task M}, (∀ i p, (i, p) ∈ task.mentions →
      (i, p) ∈ (N.threads t).task.mentions) → ∀ i p, ((i, p) ∈ task.mentions ∨
        ∃ c ∈ (senders p).held.calls, c.callId = i) → N.Mention i p := by
    rintro task htask i p (hi | ⟨c, hc, hi⟩)
    · exact Or.inl ⟨t, htask i p hi⟩
    · exact Or.inr ⟨c, hsenders p c hc, hi⟩
  dsimp only
  split
  · -- the exception leaves the operation: what is still held is destroyed
    have hself : ∀ N₁ : NetState M, ((N₁.setThread t (N.threads t).task.handler []).threads t) =
        ⟨(N.threads t).task.handler, []⟩ := fun N₁ => Function.update_self _ _ _
    refine Effect.sameTable hN (fun t' ht' => Function.update_of_ne ht' _ _) (fun _ hk => hk)
      (fun _ _ => ⟨id, id⟩) hN.inMap (fun _ => Or.inl rfl)
      (fun i key hi => absurd hi (hfree i key)) ?_ ?_ ?_ ?_ rfl (fun i hi => ?_) (fun c' hc' => ?_)
    · rw [hself]
      refine hmention fun i p hi => ?_
      cases htask : (N.threads t).task with
      | woken next =>
        rw [htask] at hi
        exact mentions_handler next i p hi
      | _ =>
        rw [htask] at hi
        cases hi
    · rw [hself]
      cases (N.threads t).task with
      | woken next => exact handler_ok next
      | _ => trivial
    · rw [hself]
      cases (N.threads t).task with
      | woken next => exact handler_closeOk next
      | _ => trivial
    · rw [hself]
      exact fun hne => absurd rfl hne
    · refine accounted_step hi (fun t' ht' => Function.update_of_ne ht' _ _)
        (fun i hi => Or.inl hi) (fun c' hc' => ?_) (fun c' hc' => List.mem_append_left _ hc')
        (fun i hi => hi) (fun i hi => List.mem_append_right _ hi)
      rw [hheld] at hc'
      rcases List.mem_cons.1 hc' with rfl | hc'
      · exact Or.inr (Or.inl (List.mem_append_right _ List.mem_cons_self))
      · exact Or.inr (Or.inr (List.mem_append_left _ (List.mem_map_of_mem hc')))
    · rw [hself] at hc'
      rcases hc' with hc' | hc'
      · rcases List.mem_append.1 hc' with hc' | hc'
        · exact Or.inl (Or.inl hc')
        · obtain rfl := List.mem_singleton.1 hc'
          exact Or.inr hc
      · cases hc'
  · have hself : ∀ N₁ : NetState M, ((N₁.setThread t (N.threads t).task rest).threads t) =
        ⟨(N.threads t).task, rest⟩ := fun N₁ => Function.update_self _ _ _
    refine Effect.sameTable hN (fun t' ht' => Function.update_of_ne ht' _ _) (fun _ hk => hk)
      (fun _ _ => ⟨id, id⟩) hN.inMap (fun _ => Or.inl rfl)
      (fun i key hi => absurd hi (hfree i key)) ?_ ?_ ?_ ?_ rfl (fun i hi => ?_) (fun c' hc' => ?_)
    · rw [hself]
      exact hmention fun _ _ hi => hi
    · rw [hself]
      exact hN.task t
    · rw [hself]
      exact hN.close t
    · rw [hself]
      exact fun _ => hfree
    · refine accounted_step hi (fun t' ht' => Function.update_of_ne ht' _ _)
        (fun i hi => Or.inl hi) (fun c' hc' => ?_) (fun c' hc' => List.mem_append_left _ hc')
        (fun i hi => hi) (fun i hi => hi)
      rw [hheld] at hc'
      rcases List.mem_cons.1 hc' with rfl | hc'
      · exact Or.inr (Or.inl (List.mem_append_right _ List.mem_cons_self))
      · exact Or.inl (by rw [hself]; exact hc')
    · rw [hself] at hc'
      rcases hc' with hc' | hc'
      · rcases List.mem_append.1 hc' with hc' | hc'
        · exact Or.inl (Or.inl hc')
        · obtain rfl := List.mem_singleton.1 hc'
          exact Or.inr hc
      · exact Or.inl (Or.inr (by rw [hheld]; exact List.mem_cons_of_mem _ hc'))

variable {i p : Nat}

omit [DecidableEq M] in
/-- The first call in a list of held calls has the manager of its sender. -/
theorem head_manager (hN : NetInv managerOf N) (hi : (i, p) ∈ (N.threads t).task.mentions)
    {s : RpcCoroSlot M} (hs : N.calls.table i = some s) : s.manager = managerOf p :=
  (hN.mention i p (Or.inl ⟨t, hi⟩)).2.2 s hs

/-- `SubmitCall` and `Submit` under the sender's lock. -/
theorem submit_effect {size : Nat} (hN : NetInv managerOf N) (hheld : (N.threads t).held = [])
    (htask : (N.threads t).task = .submit p i size)
    (h : N.runTask managerOf t ch (.submit p i size) = some N') : Effect managerOf N t N' := by
  have hfree : ∀ i' key, ¬ (N.threads t).task.Pending i' key := by
    intro i' key hi'
    rw [htask] at hi'
    exact hi'
  have hmention : (i, p) ∈ (N.threads t).task.mentions := by
    rw [htask]
    exact List.mem_singleton_self _
  simp only [NetState.runTask] at h
  split at h
  · refine claimThen_effect hN hheld h hfree (fun r i' p' hi' => ?_) (fun r => ?_)
      (fun r => ?_) (fun s hs => ?_)
    · cases r with
      | notFound => cases hi'
      | threw => cases hi'
      | claimed => cases hi'
    · cases r with
      | notFound => trivial
      | threw => exact (show oiErrFail ≠ 0 by decide)
      | claimed => trivial
    · cases r <;> trivial
    · exact ⟨rfl, by rw [head_manager hN hmention hs]⟩
  · exact hold_effect hN hheld htask h
  · rename_i iCode hdecide
    obtain rfl := Option.some.inj h
    have hcode : iCode ≠ 0 := by
      revert hdecide
      unfold RpcSender.decide
      cases N.senders p with
      | client s =>
        dsimp only
        split
        · exact nofun
        · split
          · rintro ⟨⟩
            decide
          · split
            · rintro ⟨⟩
              decide
            · exact nofun
      | route s =>
        dsimp only
        split
        · rintro ⟨⟩
          decide
        · split
          · exact nofun
          · split
            · rintro ⟨⟩
              decide
            · exact nofun
    exact Effect.setThread hN hheld (fun i' key hi' => absurd hi' (hfree i' key)) nofun hcode
      trivial

/-- The swap that starts a flush moves the held calls to the task. -/
theorem flushStart_effect {sid : Int} (hN : NetInv managerOf N) (hheld : (N.threads t).held = [])
    (htask : (N.threads t).task = .flushStart p sid)
    (h : N.runTask managerOf t ch (.flushStart p sid) = some N') : Effect managerOf N t N' := by
  obtain rfl := Option.some.inj h
  refine Effect.goto (Function.update N.senders p ((N.senders p).swapHeld sid)) hN hheld rfl
    (fun i key hi => ?_) ?_ trivial trivial
  · rw [htask] at hi
    exact hi.elim
  · rintro i p' (hi | ⟨c, hc, hi⟩)
    · obtain ⟨c, hc, heq⟩ := List.mem_map.1 hi
      obtain ⟨rfl, rfl⟩ := Prod.mk.inj heq
      exact Or.inr ⟨c, hc, rfl⟩
    · rcases eq_or_ne p' p with rfl | hne
      · rw [Function.update_self] at hc
        exfalso
        revert hc
        cases N.senders p' <;> exact nofun
      · rw [Function.update_of_ne hne] at hc
        exact Or.inr ⟨c, hc, hi⟩

/-- One round of the loop of `FlushHeldCalls` and `Finish`. -/
theorem flush_effect {sid : Int} {calls : List HeldCall} (hN : NetInv managerOf N)
    (hheld : (N.threads t).held = []) (htask : (N.threads t).task = .flush p sid calls)
    (h : N.runTask managerOf t ch (.flush p sid calls) = some N') : Effect managerOf N t N' := by
  have hfree : ∀ i' key, ¬ (N.threads t).task.Pending i' key := by
    intro i' key hi'
    rw [htask] at hi'
    exact hi'
  cases calls with
  | nil =>
    obtain rfl := Option.some.inj h
    exact Effect.setThread hN hheld (fun i' key hi' => absurd hi' (hfree i' key)) nofun trivial
      trivial
  | cons c rest =>
    have hrest : ∀ i' p', (i', p') ∈ rest.map (fun c => (c.callId, p)) →
        (i', p') ∈ (N.threads t).task.mentions := by
      intro i' p' hi'
      rw [htask]
      exact List.mem_cons_of_mem _ hi'
    have hhead : (c.callId, p) ∈ (N.threads t).task.mentions := by
      rw [htask]
      exact List.mem_cons_self
    simp only [NetState.runTask] at h
    split at h
    · obtain rfl := Option.some.inj h
      exact Effect.setThread hN hheld (fun i' key hi' => absurd hi' (hfree i' key)) hrest
        (show oiErrConnect ≠ 0 by decide) trivial
    · refine claimThen_effect hN hheld h hfree (fun r i' p' hi' => ?_) (fun r => ?_)
        (fun r => ?_) (fun s hs => ?_)
      · cases r with
        | notFound => exact hrest i' p' hi'
        | threw => cases hi'
        | claimed => exact hrest i' p' hi'
      · cases r <;> trivial
      · cases r <;> trivial
      · exact ⟨rfl, by rw [head_manager hN hhead hs]⟩

/-- `Session::SendResult`: a session that takes the bytes is open, so no pass has begun. -/
theorem send_effect {size : Nat} {key : M × Int} {next : After} (hN : NetInv managerOf N)
    (hheld : (N.threads t).held = []) (htask : (N.threads t).task = .send i key size next)
    (h : N.runTask managerOf t ch (.send i key size next) = some N') : Effect managerOf N t N' := by
  have hmentions : (N.threads t).task.mentions = next.mentions := by rw [htask]; rfl
  simp only [NetState.runTask] at h
  split at h
  · rename_i hok
    have hrelease : ∀ (task : Task M) i' key', (N.threads t).task.Pending i' key' →
        task.Pending i' key' ∨ N.passed key' = 0 := by
      intro task i' key' hi'
      rw [htask] at hi'
      obtain ⟨-, rfl⟩ := hi'
      right
      by_contra hne
      have hclosed := (hN.closed key (Nat.pos_of_ne_zero hne)).2.1
      rw [sendResult_ok hok] at hclosed
      cases hclosed
    split at h
    · obtain rfl := Option.some.inj h
      exact Effect.setThread hN hheld (hrelease _)
        (fun i' p hi' => hmentions ▸ mentions_handler next i' p hi') (handler_ok next)
        (handler_closeOk next)
    · obtain rfl := Option.some.inj h
      obtain ⟨hclosed, hinMap⟩ := sendResult_sessions (N.sessions key) size
      refine setSession_effect N.senders hN hheld rfl (fun hc => hclosed.trans hc)
        (fun hc => hinMap.trans hc) (hrelease _) ?_ (resume_ok next) (resume_closeOk next)
      rintro i' p (hi' | hi')
      · exact Or.inl ⟨t, hmentions ▸ mentions_resume next i' p hi'⟩
      · exact Or.inr hi'
  · rename_i hne
    obtain rfl := Option.some.inj h
    refine Effect.setThread hN hheld (fun i' key' hi' => ?_) (fun i' p hi' => hmentions ▸ hi') hne
      trivial
    rw [htask] at hi'
    exact Or.inl hi'.1

/-- Every step of a task. -/
theorem runTask_effect (hN : NetInv managerOf N) (hheld : (N.threads t).held = [])
    (h : N.runTask managerOf t ch (N.threads t).task = some N') : Effect managerOf N t N' := by
  cases htask : (N.threads t).task with
  | idle =>
    rw [htask] at h
    obtain rfl := Option.some.inj h
    exact .refl hN t
  | drawn i target args size => exact bind_effect hN hheld htask (htask ▸ h)
  | encode i target size =>
    rw [htask] at h
    simp only [NetState.runTask] at h
    split at h
    · obtain rfl := Option.some.inj h
      refine Effect.setThread hN hheld (fun i' key hi' => ?_) nofun
        (show oiErrFail ≠ 0 by decide) trivial
      rw [htask] at hi'
      cases target with
      | session m sid => exact Or.inl hi'.1
      | sender p => exact hi'.elim
    · split at h
      · obtain rfl := Option.some.inj h
        refine Effect.setThread hN hheld (fun i' key hi' => ?_) nofun trivial trivial
        rw [htask] at hi'
        exact Or.inl hi'
      · obtain rfl := Option.some.inj h
        refine Effect.setThread hN hheld (fun i' key hi' => ?_) (fun i' p hi' => ?_) trivial
          trivial
        · rw [htask] at hi'
          exact hi'.elim
        · rw [htask]
          exact hi'
  | submit p i size => exact submit_effect hN hheld htask (htask ▸ h)
  | ensure i =>
    rw [htask] at h
    obtain rfl := Option.some.inj h
    refine Effect.setThread hN hheld (fun i' key hi' => ?_) (fun i' p hi' => ?_) ?_ ?_
    · rw [htask] at hi'
      exact hi'.elim
    · split at hi' <;> cases hi'
    · split
      · exact (show oiErrFail ≠ 0 by decide)
      · trivial
    · split <;> trivial
  | flushStart p sid => exact flushStart_effect hN hheld htask (htask ▸ h)
  | flush p sid calls => exact flush_effect hN hheld htask (htask ▸ h)
  | lookup i key size next =>
    rw [htask] at h
    obtain rfl := Option.some.inj h
    refine Effect.setThread hN hheld (fun i' key' hi' => ?_) (fun i' p hi' => ?_) ?_ ?_
    · rw [htask] at hi'
      split
      · exact Or.inl hi'
      · exact Or.inl hi'.1
    · rw [htask]
      split at hi' <;> exact hi'
    · split
      · trivial
      · exact (show oiErrConnect ≠ 0 by decide)
    · split <;> trivial
  | send i key size next => exact send_effect hN hheld htask (htask ▸ h)
  | wake i iCode next =>
    have hcode := hN.task t
    rw [htask] at h hcode
    refine Effect.quiet hN hheld h nofun hcode (fun i' key S hstep hi' => ?_)
      (fun i' p hi' => ?_) trivial trivial (fun _ _ => Or.inl id)
    · rw [htask] at hi'
      obtain rfl := hi'
      exact Or.inr (Or.inl (wake_table hN.calls.table hstep))
    · rw [htask]
      exact hi'
  | woken next =>
    rw [htask] at h
    obtain rfl := Option.some.inj h
    refine Effect.setThread hN hheld (fun i' key hi' => ?_) (fun i' p hi' => ?_)
      (resume_ok next) (resume_closeOk next)
    · rw [htask] at hi'
      exact hi'.elim
    · rw [htask]
      exact mentions_resume next i' p hi'
  | activeClose key =>
    have hclose := hN.close t
    rw [htask] at h hclose
    obtain rfl := Option.some.inj h
    obtain ⟨senders, hsenders, hcalls⟩ :=
      disconnect_eq (N.setSession key (N.sessions key).close) key
    rw [hsenders]
    refine setSession_effect senders hN hheld rfl (fun _ => rfl) (fun hc => hc)
      (fun i' key' hi' => ?_) ?_ trivial ⟨⟨hclose.1, ?_, ?_⟩, Nat.zero_le _⟩
    · rw [htask] at hi'
      exact hi'.elim
    · rintro i' p (hi' | ⟨c, hc, hi'⟩)
      · cases hi'
      · exact Or.inr ⟨c, hcalls p ▸ hc, hi'⟩
    · change ((N.setSession key (N.sessions key).close).sessions key).closed = true
      rw [setSession_self]
      rfl
    · change ((N.setSession key (N.sessions key).close).sessions key).inMap = false
      rw [setSession_self]
      exact hclose.2
  | fail key shard => exact fail_effect hN hheld htask (htask ▸ h)

/-- The event starts a call, which draws a number. -/
def NetEvent.Draws (e : NetEvent M) : Prop :=
  match e with
  | .start _ (.dispatch _ _ _) => True
  | _ => False

instance (e : NetEvent M) : Decidable e.Draws :=
  match e with
  | .start _ (.dispatch _ _ _) => isTrue trivial
  | .start _ (.connected _ _) => isFalse id
  | .start _ (.failHeld _) => isFalse id
  | .start _ (.closeSession _) => isFalse id
  | .start _ (.deliver _ _ _ _) => isFalse id
  | .start _ (.sweep _ _ _) => isFalse id
  | .start _ (.abandon _) => isFalse id
  | .run _ _ => isFalse id
  | .addSession _ _ _ => isFalse id
  | .delSession _ _ => isFalse id
  | .retire _ => isFalse id
  | .passiveClose _ => isFalse id
  | .sent _ _ => isFalse id

/-- Every operation an idle thread starts. -/
theorem startOp_effect {op : Operation M} (hN : NetInv managerOf N)
    (hthread : N.threads t = ⟨.idle, []⟩)
    (hdraw : NetEvent.Draws (.start t op) → N.calls.issued < 2 ^ 63)
    (h : N.startOp managerOf t op = some N') : Effect managerOf N t N' := by
  have hheld : (N.threads t).held = [] := by rw [hthread]
  have hfree : ∀ i key, ¬ (N.threads t).task.Pending i key := by
    intro i key hi
    rw [hthread] at hi
    exact hi
  cases op with
  | dispatch target args size =>
    refine Effect.quiet hN hheld h (fun _ => hdraw trivial) trivial
      (fun i key _ _ hi => absurd hi (hfree i key)) nofun ?_ trivial (fun _ _ => Or.inl id)
    cases target with
    | session m sid => exact ⟨rfl, rfl⟩
    | sender p => exact ⟨rfl, rfl⟩
  | connected p sid =>
    obtain rfl := Option.some.inj h
    refine Effect.goto (Function.update N.senders p ((N.senders p).onAddSession sid)) hN hheld
      rfl (fun i key hi => absurd hi (hfree i key)) ?_ trivial trivial
    rintro i p' (hi | ⟨c, hc, hi⟩)
    · cases hi
    · refine Or.inr ⟨c, ?_, hi⟩
      rcases eq_or_ne p' p with rfl | hne
      · rw [Function.update_self] at hc
        cases hs : N.senders p' with
        | client s => rw [hs] at hc; exact hc
        | route s => rw [hs] at hc; exact hc
      · rwa [Function.update_of_ne hne] at hc
  | failHeld p =>
    obtain rfl := Option.some.inj h
    exact Effect.setThread hN hheld (fun i key hi => absurd hi (hfree i key)) nofun trivial
      trivial
  | closeSession key =>
    simp only [NetState.startOp] at h
    split at h
    · rename_i hin
      obtain rfl := Option.some.inj h
      refine setSession_effect N.senders hN hheld rfl id (fun _ => rfl)
        (fun i key' hi => absurd hi (hfree i key')) ?_ trivial ⟨hN.inMap key hin, ?_⟩
      · rintro i p (hi | hi)
        · cases hi
        · exact Or.inr hi
      · change ((N.setSession key { N.sessions key with inMap := false }).sessions key).inMap =
          false
        rw [setSession_self]
    · obtain rfl := Option.some.inj h
      exact .refl hN t
  | deliver iId bytes m sid | sweep shard iNow fails =>
    exact Effect.quiet hN hheld h nofun trivial
      (fun i key _ _ hi => absurd hi (hfree i key)) nofun trivial trivial (fun _ _ => Or.inl id)
  | abandon i =>
    obtain ⟨N₁, h₁, rfl⟩ := Option.map_eq_some_iff.1 h
    obtain ⟨S, hstep, rfl⟩ := onTable_eq.1 h₁
    obtain ⟨senders, abandoned, heq, hsenders, hsub, hmem⟩ := forget_eq
      ({ N with calls := { S with inFlight := [] } }.setThread t .idle S.inFlight) i
      ((N.calls.shards (shardOf i)).slots i)
    rw [heq]
    refine Effect.onTable hN hheld hstep nofun rfl rfl rfl rfl rfl rfl rfl hsub ?_ nofun ?_
      (fun i' key hi' => absurd hi' (hfree i' key)) ?_ trivial trivial (fun _ _ _ => id)
    · rintro i' he hi'
      obtain rfl := CallEvent.abandon.inj he
      exact hmem hi'
    · rintro i' s' - (⟨args, fails, iNow, he⟩ | ⟨sid, fails, he⟩)
      · cases he
      · cases he
    · rintro i' p (hi' | ⟨c, hc, hi'⟩)
      · cases hi'
      · exact Or.inl (Or.inr ⟨c, hsenders p c hc, hi'⟩)

omit [DecidableEq M] in
/-- A step that no thread makes: a change of the sessions or of a sender. -/
theorem Effect.outside (senders : Nat → RpcSender) (sessions : M × Int → SessionState)
    (hN : NetInv managerOf N) (hN' : N' = { N with senders := senders, sessions := sessions })
    (hsenders : ∀ p, (senders p).held = (N.senders p).held)
    (hclosed : ∀ key, (N.sessions key).closed = true → (sessions key).closed = true)
    (hinMap : ∀ key, (sessions key).inMap = (N.sessions key).inMap) : Effect managerOf N 0 N' := by
  subst hN'
  refine Effect.beside hN (fun _ _ => rfl) (fun _ hk => hk)
    (fun key _ => ⟨hclosed key, fun hc => (hinMap key).trans hc⟩)
    (fun key hk => hN.inMap key ((hinMap key).symm.trans hk)) (fun _ => Or.inl rfl)
    (fun _ _ hi => Or.inl hi) ?_ (hN.task 0) ?_ (hN.free 0) rfl rfl rfl rfl rfl
  · rintro i p (hi | hi)
    · exact Or.inl ⟨0, hi⟩
    · exact Or.inr (hsenders p ▸ hi)
  · have hclose := hN.close 0
    change NetState.CloseOk _ (N.threads 0).task
    cases htask : (N.threads 0).task with
    | activeClose key =>
      rw [htask] at hclose
      exact ⟨hclose.1, (hinMap key).trans hclose.2⟩
    | fail key shard =>
      rw [htask] at hclose
      exact ⟨⟨hclose.1.1, hclosed key hclose.1.2.1, (hinMap key).trans hclose.1.2.2⟩, hclose.2⟩
    | _ => trivial

/-- A new session gets a number no session had before. -/
theorem addSession_effect {m : M} {s : SessionState} (hN : NetInv managerOf N)
    (hN' : N' = { N.setSession (m, ((N.currentSessionId m + 1 : Nat) : Int)) s with
      currentSessionId := Function.update N.currentSessionId m (N.currentSessionId m + 1) }) :
    Effect managerOf N 0 N' := by
  subst hN'
  have hcurrent : ∀ m', N.currentSessionId m' ≤
      Function.update N.currentSessionId m (N.currentSessionId m + 1) m' := by
    intro m'
    rcases eq_or_ne m' m with rfl | hne
    · rw [Function.update_self]
      exact Nat.le_succ _
    · rw [Function.update_of_ne hne]
  have hknown : ∀ key : M × Int, N.Known key → 1 ≤ key.2 ∧
      key.2 ≤ (Function.update N.currentSessionId m (N.currentSessionId m + 1) key.1 : Nat) :=
    fun key hk => ⟨hk.1, hk.2.trans (Int.ofNat_le.2 (hcurrent key.1))⟩
  -- a session with a number handed out before is another one
  have hold : ∀ key, N.Known key → (N.setSession (m, ((N.currentSessionId m + 1 : Nat) : Int))
      s).sessions key = N.sessions key := by
    intro key hk
    refine Function.update_of_ne ?_ _ _
    rintro rfl
    have := hk.2
    push_cast at this
    omega
  refine Effect.beside hN (fun _ _ => rfl) hknown (fun key hk => ?_) (fun key hk => ?_)
    (fun _ => Or.inl rfl) (fun _ _ hi => Or.inl hi) (fun _ _ hi => hi.imp (fun hi => ⟨0, hi⟩) id)
    (hN.task 0) ?_ (hN.free 0) rfl rfl rfl rfl rfl
  · rw [hold key hk]
    exact ⟨id, id⟩
  · rcases eq_or_ne key (m, ((N.currentSessionId m + 1 : Nat) : Int)) with rfl | hne
    · refine ⟨?_, ?_⟩
      · push_cast
        omega
      · change ((N.currentSessionId m + 1 : Nat) : Int) ≤
          (Function.update N.currentSessionId m (N.currentSessionId m + 1) m : Nat)
        rw [Function.update_self]
    · change (Function.update N.sessions _ s key).inMap = true at hk
      rw [Function.update_of_ne hne] at hk
      exact hknown key (hN.inMap key hk)
  · have hclose := hN.close 0
    change NetState.CloseOk _ (N.threads 0).task
    cases htask : (N.threads 0).task with
    | activeClose key =>
      rw [htask] at hclose
      exact ⟨hknown key hclose.1,
        (congrArg SessionState.inMap (hold key hclose.1)).trans hclose.2⟩
    | fail key shard =>
      rw [htask] at hclose
      exact ⟨⟨hknown key hclose.1.1,
        (congrArg SessionState.closed (hold key hclose.1.1)).trans hclose.1.2.1,
        (congrArg SessionState.inMap (hold key hclose.1.1)).trans hclose.1.2.2⟩, hclose.2⟩
    | _ => trivial

/-- The thread that makes the step; the steps of the poll thread and of the network change no
thread. -/
def NetEvent.thread : NetEvent M → Nat
  | .start t _ => t
  | .run t _ => t
  | _ => 0

/-- **Every step keeps the invariant** and no call is forgotten. -/
theorem netStep_effect {e : NetEvent M} (hN : NetInv managerOf N)
    (hdraw : e.Draws → N.calls.issued < 2 ^ 63) (h : netStep managerOf N e = some N') :
    Effect managerOf N e.thread N' := by
  have hupdate : ∀ {p : Nat} {s : RpcSender}, s.held = (N.senders p).held →
      ∀ p', (Function.update N.senders p s p').held = (N.senders p').held := by
    intro p s hs p'
    rcases eq_or_ne p' p with rfl | hne
    · rw [Function.update_self, hs]
    · rw [Function.update_of_ne hne]
  have hsession : ∀ {key : M × Int} {s : SessionState},
      ((N.sessions key).closed = true → s.closed = true) → s.inMap = (N.sessions key).inMap →
      Effect managerOf N 0 (N.setSession key s) := by
    intro key s hclosed hinMap
    refine Effect.outside N.senders (Function.update N.sessions key s) hN rfl (fun _ => rfl)
      (fun key' hc => ?_) (fun key' => ?_)
    · rcases eq_or_ne key' key with rfl | hne
      · rw [Function.update_self]
        exact hclosed hc
      · rwa [Function.update_of_ne hne]
    · rcases eq_or_ne key' key with rfl | hne
      · rw [Function.update_self, hinMap]
      · rw [Function.update_of_ne hne]
  cases e with
  | start t op =>
    simp only [netStep] at h
    split at h
    · rename_i htask hheld
      have hthread : N.threads t = ⟨.idle, []⟩ := by
        rw [← htask, ← hheld]
      exact startOp_effect hN hthread hdraw h
    · obtain rfl := Option.some.inj h
      exact .refl hN t
  | run t ch =>
    simp only [netStep] at h
    split at h
    · rename_i c rest hheld
      obtain rfl := Option.some.inj h
      exact complete_effect hN hheld
    · rename_i hheld
      exact runTask_effect hN hheld h
  | addSession m limit connection =>
    obtain ⟨_, h⟩ := Option.ite_none_left_eq_some.1 h
    exact addSession_effect hN (Option.some.inj h).symm
  | delSession p sid =>
    obtain rfl := Option.some.inj h
    exact Effect.outside _ N.sessions hN rfl (hupdate (disconnected_held _ sid))
      (fun _ hc => hc) (fun _ => rfl)
  | retire p =>
    obtain rfl := Option.some.inj h
    refine Effect.outside _ N.sessions hN rfl (hupdate ?_) (fun _ hc => hc) (fun _ => rfl)
    cases N.senders p <;> rfl
  | passiveClose key =>
    obtain rfl := Option.some.inj h
    exact hsession (fun _ => rfl) rfl
  | sent key n =>
    obtain rfl := Option.some.inj h
    exact hsession id rfl

end Steps

end OpenIdea.Rpc
