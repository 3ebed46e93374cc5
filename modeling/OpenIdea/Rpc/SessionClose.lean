import OpenIdea.Rpc.CloseSteps

/-!
# No call is left on a closed session

When the close of a session and the operation that submits a call have both returned, the call is
not bound to the session, in every interleaving of the threads.
-/

set_option autoImplicit false

namespace OpenIdea.Rpc

open OpenIdea.Lib OpenIdea.Lib.LinkedIndex OpenIdea.Lib.Runs

variable {M : Type} [DecidableEq M]

/-! ## Runs

No step is undefined as long as there are call numbers left, so every run keeps the invariant; at
its end, a call that no thread submits any more has no place left where it could be bound to a
closed session. -/

section Runs

variable {managerOf : Nat → M} {N N' : NetState M}

/-- The event hands out one session number too many. -/
def NetEvent.Overflows (N : NetState M) : NetEvent M → Prop
  | .addSession m _ _ => 2 ^ 31 ≤ N.currentSessionId m + 1
  | _ => False

theorem onTable_defined (hN : NetInv managerOf N) (t : Nat) (task : Task M) (e : CallEvent M) :
    ∃ N', N.onTable t task e = some N' := by
  obtain ⟨S, hstep, -⟩ := callStep_move hN.calls.table (hN.calls.tracked.freshBind e)
  exact ⟨_, onTable_eq.2 ⟨S, hstep, rfl⟩⟩

theorem claimThen_defined (hN : NetInv managerOf N) (t i : Nat) (sid : Int) (ch : Choice)
    (next : ClaimResult → Task M) : ∃ N', N.claimThen t i sid ch next = some N' := by
  obtain ⟨sh, r, hclaim, -⟩ := claim_cases hN.calls.table i sid ch.fails
  rw [NetState.claimThen, hclaim, Option.bind_some]
  exact onTable_defined hN t _ _

theorem hold_defined (hN : NetInv managerOf N) (t p i size : Nat) (ch : Choice) :
    ∃ N', N.hold t p i size ch = some N' := by
  unfold NetState.hold
  split
  · split
    · exact onTable_defined hN t _ _
    · obtain ⟨S, hstep, -⟩ := callStep_move hN.calls.table (hN.calls.tracked.freshBind (.mark i))
      exact ⟨_, onTable_eq.2 ⟨S, hstep, rfl⟩⟩
  · exact onTable_defined hN t _ _

/-- No task meets undefined behaviour. -/
theorem runTask_defined (hN : NetInv managerOf N) (t : Nat) (ch : Choice) (task : Task M) :
    ∃ N', N.runTask managerOf t ch task = some N' := by
  cases task with
  | drawn i target args size =>
    simp only [NetState.runTask]
    split
    · rename_i hi
      have hfresh : (N.calls.shards (shardOf i)).slots i = none :=
        hN.calls.tracked.freshBind (.bind i args ch.fails ch.iNow) hi
      obtain ⟨sh, ok, hbind, -⟩ := bindRpcCall_spec (hN.calls.table.shard (shardOf i)) ch.fails
        ch.iNow args hfresh
      rw [hbind, Option.bind_some]
      exact onTable_defined hN t _ _
    · exact ⟨_, rfl⟩
  | encode i target size =>
    simp only [NetState.runTask]
    split
    · exact ⟨_, rfl⟩
    · split <;> exact ⟨_, rfl⟩
  | submit p i size =>
    simp only [NetState.runTask]
    split
    · exact claimThen_defined hN t _ _ ch _
    · exact hold_defined hN t p i size ch
    · exact ⟨_, rfl⟩
  | flush p sid calls =>
    cases calls with
    | nil => exact ⟨_, rfl⟩
    | cons c rest =>
      simp only [NetState.runTask]
      split
      · exact ⟨_, rfl⟩
      · exact claimThen_defined hN t _ _ ch _
  | send i key size next =>
    simp only [NetState.runTask]
    split
    · split <;> exact ⟨_, rfl⟩
    · exact ⟨_, rfl⟩
  | wake i iCode next => exact onTable_defined hN t _ _
  | fail key shard =>
    simp only [NetState.runTask]
    split
    · split
      · exact ⟨_, rfl⟩
      · exact onTable_defined hN t _ _
    · exact ⟨_, rfl⟩
  | _ => exact ⟨_, rfl⟩

/-- No step meets undefined behaviour but the overflow of the session numbers. -/
theorem netStep_defined (hN : NetInv managerOf N) {e : NetEvent M} (he : ¬ e.Overflows N) :
    ∃ N', netStep managerOf N e = some N' := by
  cases e with
  | start t op =>
    simp only [netStep]
    split
    · cases op with
      | closeSession key =>
        simp only [NetState.startOp]
        split <;> exact ⟨_, rfl⟩
      | abandon i =>
        obtain ⟨N', hN'⟩ := onTable_defined hN t .idle (.abandon i)
        exact ⟨_, Option.map_eq_some_iff.2 ⟨N', hN', rfl⟩⟩
      | connected p sid => exact ⟨_, rfl⟩
      | failHeld p => exact ⟨_, rfl⟩
      | _ => exact onTable_defined hN t _ _
    · exact ⟨_, rfl⟩
  | run t ch =>
    simp only [netStep]
    split
    · exact ⟨_, rfl⟩
    · exact runTask_defined hN t ch _
  | addSession m limit connection =>
    have hlt : ¬ N.currentSessionId m + 1 ≥ 2 ^ 31 := he
    simp only [netStep]
    rw [if_neg hlt]
    exact ⟨_, rfl⟩
  | _ => exact ⟨_, rfl⟩

/-- At most `2 ^ 63` numbers are drawn. -/
def FewDraws (N : NetState M) (e : NetEvent M) : Prop := e.Draws → N.calls.issued < 2 ^ 63

instance (N : NetState M) (e : NetEvent M) : Decidable (FewDraws N e) :=
  inferInstanceAs (Decidable (_ → _))

/-- What a run that draws at most `2 ^ 63` numbers keeps: the invariant, and every call that was in
the table. -/
theorem run_netInv {events : List (NetEvent M)} (hN : NetInv managerOf N)
    (hdraws : Along (netStep managerOf) FewDraws N events)
    (hrun : runFrom (netStep managerOf) N events = some N') :
    NetInv managerOf N' ∧ ∀ i, N.Accounted i → N'.Accounted i := by
  refine runFrom_invariant_along
    (I := fun N' => NetInv managerOf N' ∧ ∀ i, N.Accounted i → N'.Accounted i) ?_
    ⟨hN, fun _ hi => hi⟩ hdraws hrun
  intro N₁ e N₂ hN₁ hdraw hstep
  have heffect := netStep_effect hN₁.1 hdraw hstep
  exact ⟨heffect.netInv hN₁.1, fun i hi => heffect.accounted i (hN₁.2 i hi)⟩

/-- Threads that make no step stay as they are. -/
theorem run_untouched {events : List (NetEvent M)} {t : Nat} (hN : NetInv managerOf N)
    (hdraws : Along (netStep managerOf) FewDraws N events)
    (huntouched : ∀ e ∈ events, e.thread ≠ t)
    (hrun : runFrom (netStep managerOf) N events = some N') : N'.threads t = N.threads t := by
  induction events generalizing N with
  | nil =>
    obtain rfl := Option.some.inj hrun
    rfl
  | cons e es ih =>
    obtain ⟨N₁, hstep, hrest⟩ := runFrom_cons.1 hrun
    have heffect := netStep_effect hN hdraws.1 hstep
    rw [ih (heffect.netInv hN) (hdraws.2 N₁ hstep)
      (fun e' he' => huntouched e' (List.mem_cons_of_mem _ he')) hrest]
    exact heffect.other t (huntouched e List.mem_cons_self).symm

/-- What has become of a call that was bound to the closed session `key`. -/
inductive Fate (N : NetState M) (key : M × Int) (i : Nat) : Prop
  /-- it has been completed, with a reply or with an error code -/
  | completed (c : Completion M) (hc : c ∈ N.finished) (hcall : c.slot.callId = i)
      (hcode : c.reply = none → c.code ≠ 0)
  /-- a thread is about to do so -/
  | completing (t : Nat) (c : Completion M) (hc : c ∈ (N.threads t).held)
      (hcall : c.slot.callId = i) (hcode : c.reply = none → c.code ≠ 0)
  /-- it has been claimed for another session since -/
  | elsewhere (s : RpcCoroSlot M) (hs : N.calls.table i = some s) (hkey : s.key ≠ key)
  /-- its caller has given it up -/
  | abandoned (hi : i ∈ N.abandoned)
  /-- the sweep had taken it out and another completion threw -/
  | lost (hi : i ∈ N.lost)

/-- **No call is stranded on a closed session.** Threads submit, flush and send calls and close
sessions in any interleaving, whatever fails or throws. Once `CloseSession` has returned for the
session `key`, a call whose submitting operation has returned too is not bound to `key`: what was
bound to it has been completed with a reply or an error, or is no longer its session's. And
`FailRpcCalls` run in any state that is reached ends, completes exactly the slots of its session and
leaves all others alone. -/
theorem no_call_stranded (managerOf : Nat → M) (senders : Nat → RpcSender)
    (before after : List (NetEvent M)) (N₁ N : NetState M)
    (hdraws : Along (netStep managerOf) FewDraws (NetState.init M senders) (before ++ after))
    (hbefore : runFrom (netStep managerOf) (NetState.init M senders) before = some N₁)
    (hafter : runFrom (netStep managerOf) N₁ after = some N) :
    (∀ key, N.passed key = callShards → ∀ i, (∀ t, ¬ (N.threads t).task.Submits i) →
      (∀ s, N.calls.table i = some s → s.key ≠ key) ∧
        ∀ s, N₁.calls.table i = some s → s.key = key → Fate N key i) ∧
    (∀ throws k, ∃ shards' done,
      failRpcCalls throws k N.calls.shards N.calls.guards = some (shards', N.calls.guards, done) ∧
        FailedAll N.calls k shards' N.calls.guards done) ∧
    ∀ e : NetEvent M, ¬ e.Overflows N → ∃ N', netStep managerOf N e = some N' := by
  obtain ⟨hdraws₁, hdraws₂⟩ := along_append.1 hdraws
  obtain ⟨hN₁, -⟩ := run_netInv (init_netInv managerOf senders) hdraws₁ hbefore
  obtain ⟨hN, haccounted⟩ := run_netInv hN₁ (hdraws₂ N₁ hbefore) hafter
  refine ⟨fun key hclosed i hreturned => ?_, fun throws k =>
    failRpcCalls_exact hN.calls.table hN.calls.unarmed throws k, fun e he => netStep_defined hN he⟩
  have hunbound : ∀ s, N.calls.table i = some s → s.key ≠ key := by
    rintro s hs rfl
    -- every shard has been passed, so some thread would still submit the call
    have hlt : shardOf i < N.passed s.key := by
      rw [hclosed]
      exact Nat.mod_lt i (by decide)
    obtain ⟨t, ht⟩ := hN.passed i s hs hlt
    exact hreturned t ht.submits
  refine ⟨hunbound, fun s₁ hs₁ _ => ?_⟩
  rcases haccounted i (Or.inl (by rw [hs₁]; rfl)) with hi | ⟨t, c, hc, hi⟩ | ⟨c, hc, hi⟩ | hi | hi
  · obtain ⟨s, hs⟩ := Option.isSome_iff_exists.1 hi
    exact .elsewhere s hs (hunbound s hs)
  · exact .completing t c hc hi (hN.errors c (Or.inr ⟨t, hc⟩))
  · exact .completed c hc hi (hN.errors c (Or.inl hc))
  · exact .abandoned hi
  · exact .lost hi

end Runs

/-! ## A claim behind the pass

`FailRpcCalls` may have passed a shard when a thread claims a call in it for the session. That
thread finds the session closed and completes the call itself. -/

/-- A client that has not connected yet. -/
def freshClient : RpcSender := .client ⟨invalidSid, false, false, ⟨[], 0, 16, 1024⟩⟩

/-- Nothing fails and nothing throws. -/
def calm : Choice := ⟨fun _ => false, false, 0⟩

/-- Thread `0` connects session `1`; threads `1` and `2` start a call each through the client. The
first is claimed for the session, the second is about to be. -/
def twoSubmits : List (NetEvent Unit) :=
  [.addSession () 1024 none, .start 0 (.connected 0 1), .run 0 calm, .run 0 calm,
    .start 1 (.dispatch (.sender 0) plainCall 8), .run 1 calm, .run 1 calm, .run 1 calm,
    .start 2 (.dispatch (.sender 0) plainCall 8), .run 2 calm, .run 2 calm]

/-- Thread `3` closes the session and fails its calls. Then thread `2` claims its call for the
closed session, and both threads go on to their end. -/
def closeBetween : List (NetEvent Unit) :=
  .start 3 (.closeSession ((), 1)) :: List.replicate 68 (.run 3 calm) ++
    List.replicate 3 (.run 1 calm) ++ List.replicate 5 (.run 2 calm)

def Task.isIdle : Task Unit → Bool
  | .idle => true
  | _ => false

/-- The first call is completed by `FailRpcCalls`, the second, claimed after the pass, by its own
thread. -/
theorem no_call_stranded_behind_pass :
    ∃ N₁ N, runFrom (netStep fun _ => ()) (NetState.init Unit fun _ => freshClient) twoSubmits =
        some N₁ ∧
      runFrom (netStep fun _ => ()) N₁ closeBetween = some N ∧
      N.finished.map (fun c => (c.slot.callId, c.code)) = [(1, oiErrConnect), (2, oiErrConnect)] ∧
      Fate N ((), 1) 1 ∧ ∀ s, N.calls.table 2 = some s → s.key ≠ ((), 1) := by
  have hvalues : ((runFrom (netStep fun _ => ()) (NetState.init Unit fun _ => freshClient)
      twoSubmits).bind fun N₁ => (runFrom (netStep fun _ => ()) N₁ closeBetween).map fun N =>
        (((N₁.calls.table 1).map RpcCoroSlot.key, N.passed ((), 1)),
          N.finished.map (fun c => (c.slot.callId, c.code)),
          (List.range 4).all fun t => (N.threads t).task.isIdle)) =
      some ((some ((), 1), callShards), [(1, oiErrConnect), (2, oiErrConnect)], true) := by
    decide +kernel
  obtain ⟨N₁, hN₁, hrest⟩ := Option.bind_eq_some_iff.1 hvalues
  obtain ⟨N, hN, heq⟩ := Option.map_eq_some_iff.1 hrest
  simp only [Prod.mk.injEq, List.all_eq_true] at heq
  obtain ⟨⟨hbound, hclosed⟩, hfinished, hidle⟩ := heq
  obtain ⟨s, hs, hkey⟩ := Option.map_eq_some_iff.1 hbound
  have hdraws : Along (netStep fun _ => ()) FewDraws (NetState.init Unit fun _ => freshClient)
      (twoSubmits ++ closeBetween) := by
    decide +kernel
  have hreturned : ∀ t i, ¬ (N.threads t).task.Submits i := by
    intro t i hi
    have hidle' : (N.threads t).task.isIdle = true := by
      by_cases ht : t < 4
      · exact hidle t (List.mem_range.2 ht)
      · -- only the threads 0 to 3 make a step
        have huntouched : ∀ e ∈ twoSubmits ++ closeBetween, e.thread ≠ t := by
          have hfour : ∀ n ∈ (twoSubmits ++ closeBetween).map NetEvent.thread, n < 4 := by decide
          intro e he heq
          exact ht (heq ▸ hfour e.thread (List.mem_map_of_mem he))
        rw [run_untouched (init_netInv _ _) hdraws huntouched
          (runFrom_append.2 ⟨N₁, hN₁, hN⟩)]
        rfl
    cases htask : (N.threads t).task with
    | idle =>
        rw [htask] at hi
        exact hi
    | _ =>
        rw [htask] at hidle'
        cases hidle'
  obtain ⟨hcalls, -, -⟩ := no_call_stranded (fun _ => ()) (fun _ => freshClient) twoSubmits
    closeBetween N₁ N hdraws hN₁ hN
  exact ⟨N₁, N, hN₁, hN, hfinished,
    (hcalls ((), 1) hclosed 1 fun t => hreturned t 1).2 s hs hkey,
    (hcalls ((), 1) hclosed 2 fun t => hreturned t 2).1⟩

end OpenIdea.Rpc
