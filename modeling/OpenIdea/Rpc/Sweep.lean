import OpenIdea.Rpc.FailCalls
import OpenIdea.Timer.Periodic

/-!
# The timeout sweep

`SweepRpcCalls` and its timer (`RpcSweepTimer`). The scan moves every expired slot out of the table
first and the completions run afterwards in a loop without a handler, unlike the loop of
`FailRpcCalls`. So the sweep keeps its promises exactly when no expired call's completion throws: a
completion that throws takes the rest of the loop and the renewal of the timer with it
(`sweep_sound_iff`, `sweep_loses_second_call`).
-/

set_option autoImplicit false

namespace OpenIdea.Rpc

open OpenIdea.Lib OpenIdea.Lib.LinkedIndex OpenIdea.Lib.Runs OpenIdea.Timer

variable {M : Type}

/-! ## The sweep -/

/-- The completion loop of `SweepRpcCalls`: the guards, the completions run (the one that threw
included), and whether one threw. What is left of `vFired` is then destroyed. -/
def completeFired (throws : RpcAction M → Bool) :
    Guards → List (RpcCoroSlot M) → Guards × List (Completion M) × Bool
  | g, [] => (g, [], false)
  | g, s :: ss =>
      let r := finishRpcSlot throws g s (sweepCode s) none
      if r.2.2 then (r.1, [⟨s, sweepCode s, none⟩], true)
      else
        let rest := completeFired throws r.1 ss
        (rest.1, ⟨s, sweepCode s, none⟩ :: rest.2.1, rest.2.2)

section Sweep

variable [DecidableEq M]

/-- The scan over the shards `js`; an allocation failure ends it. -/
def sweepShards (fails : Nat → Bool) (iNow : Int) :
    List Nat → (Nat → RpcCallShard M) → Guards → List (RpcCoroSlot M) →
      Option ((Nat → RpcCallShard M) × Guards × List (RpcCoroSlot M))
  | [], shards, g, vFired => some (shards, g, vFired)
  | j :: js, shards, g, vFired =>
      (sweepShard fails iNow ⟨shards j, g, vFired⟩).bind fun r =>
        match r with
        | (st, .threw) => some (Function.update shards j st.shard, st.guards, st.fired)
        | (st, .done) =>
            sweepShards fails iNow js (Function.update shards j st.shard) st.guards st.fired

/-- What one sweep leaves: the shards, the guards, the completions run and whether it threw. -/
structure SweepResult (M : Type) where
  shards : Nat → RpcCallShard M
  guards : Guards
  completed : List (Completion M)
  threw : Bool

/-- `SweepRpcCalls` at time `iNow`. -/
def sweepRpcCalls (throws : RpcAction M → Bool) (fails : Nat → Bool) (iNow : Int)
    (shards : Nat → RpcCallShard M) (g : Guards) : Option (SweepResult M) :=
  (sweepShards fails iNow (List.range callShards) shards g []).map fun r =>
    let done := completeFired throws r.2.1 r.2.2
    ⟨r.1, done.1, done.2.1, done.2.2⟩

/-- How `RpcSweepTimer::OnTimer` ends for the timer manager: it returns `true` or throws. -/
def sweepTimerEvent {τ : Type} (threw : Bool) : ManagerEvent τ :=
  if threw then .threw else .returned true

/-! ## What a sweep should do -/

/-- The call has an expiry whose deadline has been reached. -/
def Expired (S : CallSystem M) (iNow : Int) (i : Nat) : Prop :=
  ∃ b q n, (b, q) ∈ (S.shards (shardOf i)).expire ∧ n ∈ q ∧ n.val.callId = i ∧
    n.val.deadlineMilliseconds ≤ iNow

/-- The numbers of the expired calls of shard `j`, in the order of the scan. -/
def expiredCalls (iNow : Int) (shards : Nat → RpcCallShard M) (j : Nat) : List Nat :=
  (dueEntries iNow (shards j).expire).map entryCallId

omit [DecidableEq M] in
theorem mem_expiredCalls {S : CallSystem M} {iNow : Int} {i : Nat} :
    i ∈ expiredCalls iNow S.shards (shardOf i) ↔ Expired S iNow i := by
  constructor
  · intro hi
    obtain ⟨n, hn, hcall⟩ := List.mem_map.1 hi
    obtain ⟨hmem, hdue⟩ := List.mem_filter.1 hn
    obtain ⟨⟨b, q⟩, hbq, hnq⟩ := List.mem_flatMap.1 hmem
    exact ⟨b, q, n, hbq, hnq, hcall, of_decide_eq_true hdue⟩
  · rintro ⟨b, q, n, hbq, hnq, hcall, hdue⟩
    refine List.mem_map.2 ⟨n, List.mem_filter.2 ⟨?_, decide_eq_true hdue⟩, hcall⟩
    exact List.mem_flatMap.2 ⟨(b, q), hbq, hnq⟩

instance (S : CallSystem M) (iNow : Int) (i : Nat) : Decidable (Expired S iNow i) :=
  decidable_of_iff _ mem_expiredCalls

/-- The completion of a slot by the sweep throws. -/
def completionThrows (throws : RpcAction M → Bool) (s : RpcCoroSlot M) : Bool :=
  (runActions throws (finishActions s (sweepCode s) none)).2

/-- One sweep does its work: exactly the expired calls leave the table, each is completed exactly
once with the code of its state, every guard is back where it was, and the timer is in the wheel
again for the next period. -/
def SweepSound {τ : Type} [DecidableEq τ] (cfg : LevelConfig) (tick : TickLength) (m : Manager τ)
    (pTimer : τ) (S : CallSystem M) (iNow : Int) (throws : RpcAction M → Bool) : Prop :=
  ∃ r, sweepRpcCalls throws (fun _ => false) iNow S.shards S.guards = some r ∧
    (∀ i, ({ S with shards := r.shards } : CallSystem M).table i =
      if Expired S iNow i then none else S.table i) ∧
    (∀ i, completionsOf i r.completed = if Expired S iNow i then 1 else 0) ∧
    (∀ c ∈ r.completed, ∃ s, S.table c.slot.callId = some s ∧ c.slot.call = s.call ∧
      c.code = if s.awaitingConnect then oiErrConnect else oiErrTimeout) ∧
    r.guards = S.guards ∧
    ∃ m', managerStep cfg tick m (sweepTimerEvent r.threw) = some m' ∧
      InOneSlot cfg m'.wheel pTimer ∧
      (m'.wheel.data pTimer).triggerTick =
        m.wheel.currentTick + milling2tick tick sweepMs

end Sweep

/-! ## The completion loop -/

theorem completionThrows_call (throws : RpcAction M → Bool) {s t : RpcCoroSlot M}
    (h : t.call = s.call) : completionThrows throws t = completionThrows throws s := by
  have heq : ∀ u : RpcCoroSlot M, completionThrows throws u = completionThrows throws u.call :=
    fun _ => rfl
  rw [heq t, h, ← heq s]

theorem runActions_quiet (l : List (RpcAction M)) : (runActions (fun _ => false) l).2 = false := by
  induction l with
  | nil => rfl
  | cons a l ih => simpa [runActions] using ih

/-- Without an exception the loop completes every slot and releases every guard. -/
theorem completeFired_quiet (throws : RpcAction M → Bool) (g : Guards)
    (ts : List (RpcCoroSlot M)) (h : ∀ t ∈ ts, completionThrows throws t = false) :
    completeFired throws g ts =
      (releaseAll g ts, ts.map fun t => ⟨t, sweepCode t, none⟩, false) := by
  induction ts generalizing g with
  | nil => rfl
  | cons t ts ih =>
    have ht : completionThrows throws t = false := h t List.mem_cons_self
    have hrest := ih (releaseGuard g t) fun u hu => h u (List.mem_cons_of_mem _ hu)
    change (if completionThrows throws t then _ else _) = _
    rw [ht]
    change (let rest := completeFired throws (releaseGuard g t) ts
      (rest.1, ⟨t, sweepCode t, none⟩ :: rest.2.1, rest.2.2)) = _
    rw [hrest]
    rfl

/-- One completion that throws makes the loop throw. -/
theorem completeFired_threw (throws : RpcAction M → Bool) (g : Guards)
    (ts : List (RpcCoroSlot M)) {t : RpcCoroSlot M} (ht : t ∈ ts)
    (h : completionThrows throws t = true) : (completeFired throws g ts).2.2 = true := by
  induction ts generalizing g with
  | nil => cases ht
  | cons u ts ih =>
    change (if completionThrows throws u then _ else _ : Guards × List (Completion M) × Bool).2.2
      = true
    by_cases hu : completionThrows throws u = true
    · rw [if_pos hu]
    · rw [if_neg hu]
      rcases List.mem_cons.1 ht with rfl | ht
      · exact absurd h hu
      · exact ih (releaseGuard g u) ht

/-! ## The scan -/

section Scan

variable [DecidableEq M]

/-- The expired slots of the shards `js`, as they leave the table. -/
def expiredSlots (iNow : Int) (shards : Nat → RpcCallShard M) (js : List Nat) :
    List (RpcCoroSlot M) :=
  js.flatMap fun j => detachedSlots (shards j).slots (expiredCalls iNow shards j)

omit [DecidableEq M] in
theorem expiredSlots_cons (iNow : Int) (shards : Nat → RpcCallShard M) (j : Nat)
    (js : List Nat) :
    expiredSlots iNow shards (j :: js) =
      detachedSlots (shards j).slots (expiredCalls iNow shards j) ++
        expiredSlots iNow shards js :=
  List.flatMap_cons

/-- The scan over shards, without allocation failures: exactly the expired calls leave. -/
theorem sweepShards_spec (iNow : Int) :
    ∀ (js : List Nat) (shards : Nat → RpcCallShard M) (g : Guards)
      (vFired : List (RpcCoroSlot M)), js.Nodup → (∀ j, ShardInv (shards j)) →
      ∃ shards', sweepShards (fun _ => false) iNow js shards g vFired =
          some (shards', (armAll g (expiredSlots iNow shards js)).1,
            vFired ++ (armAll g (expiredSlots iNow shards js)).2) ∧
        ErasedCalls shards (expiredCalls iNow shards) js shards' := by
  intro js
  induction js with
  | nil =>
    intro shards g vFired _ hinv
    exact ⟨shards, by simp [sweepShards, expiredSlots, armAll], .nil hinv _⟩
  | cons j js ih =>
    intro shards g vFired hnodup hinv
    obtain ⟨hnot, hnodup'⟩ := List.nodup_cons.1 hnodup
    obtain ⟨st, e, ids, hrun, hsh, -, -, hslots, hg, hfired, hthrew, hdone⟩ :=
      sweepShard_spec (fun _ => false) iNow ⟨shards j, g, vFired⟩ (hinv j)
    cases e with
    | threw =>
      obtain ⟨n, hn⟩ := hthrew rfl
      cases hn
    | done =>
      obtain rfl := hdone rfl
      have hself : Function.update shards j st.shard j = st.shard := Function.update_self _ _ _
      have hother : ∀ j', j' ≠ j → Function.update shards j st.shard j' = shards j' :=
        fun j' hj => Function.update_of_ne hj _ _
      have hinv₁ : ∀ j', ShardInv (Function.update shards j st.shard j') := by
        intro j'
        by_cases hj : j' = j
        · rw [hj, hself]
          exact hsh
        · rw [hother j' hj]
          exact hinv j'
      obtain ⟨shards', hrun', herased⟩ :=
        ih (Function.update shards j st.shard) st.guards st.fired hnodup' hinv₁
      -- the shards still to come have not changed
      have hcalls : ∀ j' ∈ js, expiredCalls iNow (Function.update shards j st.shard) j' =
          expiredCalls iNow shards j' := by
        intro j' hj'
        rw [expiredCalls, expiredCalls, hother j' fun heq => hnot (heq ▸ hj')]
      have hslots' : expiredSlots iNow (Function.update shards j st.shard) js =
          expiredSlots iNow shards js := by
        refine List.flatMap_congr fun j' hj' => ?_
        rw [hcalls j' hj', hother j' fun heq => hnot (heq ▸ hj')]
      refine ⟨shards', ?_, ?_⟩
      · rw [sweepShards, hrun, Option.bind_some]
        dsimp only
        rw [hrun', hslots', hg, hfired, expiredSlots_cons, armAll_append, List.append_assoc]
        rfl
      · refine ErasedCalls.cons hnot hslots ⟨herased.inv, fun j' hj' => ?_, herased.other⟩
        rw [herased.slots_eq j' hj', hcalls j' hj']

variable {S : CallSystem M}

/-- The expired calls are live, and a shard lists none of them twice. -/
theorem expiredCalls_live (h : TableInv S) (iNow : Int) (j : Nat) :
    (∀ i ∈ expiredCalls iNow S.shards j, ((S.shards j).slots i).isSome) ∧
      (expiredCalls iNow S.shards j).Nodup := by
  obtain ⟨st, e, ids, -, -, hlive, hnodup, -, -, -, hthrew, hdone⟩ :=
    sweepShard_spec (fun _ => false) iNow ⟨S.shards j, S.guards, []⟩ (h.shard j)
  cases e with
  | threw =>
    obtain ⟨n, hn⟩ := hthrew rfl
    cases hn
  | done =>
    obtain rfl := hdone rfl
    exact ⟨hlive, hnodup⟩

/-- The slots the scan has moved out are the expired calls, as the table had them. -/
theorem expiredSlots_taken (h : TableInv S) (iNow : Int) (js : List Nat) (g : Guards) :
    (armAll g (expiredSlots iNow S.shards js)).2.map RpcCoroSlot.callId =
        js.flatMap (expiredCalls iNow S.shards) ∧
      ∀ t ∈ (armAll g (expiredSlots iNow S.shards js)).2,
        ∃ s, S.table t.callId = some s ∧ t.call = s.call := by
  induction js generalizing g with
  | nil => exact ⟨rfl, by simp [expiredSlots, armAll]⟩
  | cons j js ih =>
    obtain ⟨hids, hcalls⟩ := taken_calls g (fun i s hs => (h.shard j).core.callId i s hs)
      (expiredCalls_live h iNow j).1
    obtain ⟨hids', hcalls'⟩ :=
      ih (armAll g (detachedSlots (S.shards j).slots (expiredCalls iNow S.shards j))).1
    rw [expiredSlots_cons, armAll_append]
    constructor
    · rw [List.map_append, hids, hids', List.flatMap_cons]
    · intro t ht
      rcases List.mem_append.1 ht with ht | ht
      · obtain ⟨s, hs, hcall⟩ := hcalls t ht
        exact ⟨s, (h.table_of_shard hs).2, hcall⟩
      · exact hcalls' t ht

omit [DecidableEq M] in
theorem expiredSlots_unarmed (h : TableInv S) (harm : Unarmed S.table) (iNow : Int) (js : List Nat)
    : ∀ s ∈ expiredSlots iNow S.shards js, s.guardArmed = false := by
  intro s hs
  obtain ⟨j, -, hj⟩ := List.mem_flatMap.1 hs
  have harm' : Unarmed (S.shards j).slots := fun i t ht => harm i t (h.table_of_shard ht).2
  exact harm'.detached _ s hj

/-- The sweep, up to its completion loop. -/
theorem sweepRpcCalls_eq (h : TableInv S) (iNow : Int) (throws : RpcAction M → Bool) :
    ∃ shards', ErasedCalls S.shards (expiredCalls iNow S.shards) (List.range callShards) shards' ∧
      let armed := armAll S.guards (expiredSlots iNow S.shards (List.range callShards))
      let done := completeFired throws armed.1 armed.2
      sweepRpcCalls throws (fun _ => false) iNow S.shards S.guards =
        some ⟨shards', done.1, done.2.1, done.2.2⟩ := by
  obtain ⟨shards', hrun, herased⟩ := sweepShards_spec iNow (List.range callShards) S.shards
    S.guards [] List.nodup_range h.shard
  refine ⟨shards', herased, ?_⟩
  intro armed done
  rw [sweepRpcCalls, hrun]
  rfl

end Scan

/-! ## The sweep and its timer -/

section Main

variable {τ : Type} [DecidableEq M] [DecidableEq τ] {cfg : LevelConfig} {tick : TickLength}

variable {S : CallSystem M} {iNow : Int}

/-- Every expired call is among the slots the scan has moved out. -/
theorem expired_taken (h : TableInv S) {i : Nat} {s : RpcCoroSlot M} (hs : S.table i = some s)
    (hi : Expired S iNow i) (g : Guards) :
    ∃ t ∈ (armAll g (expiredSlots iNow S.shards (List.range callShards))).2, t.call = s.call := by
  obtain ⟨hids, hcalls⟩ := expiredSlots_taken h iNow (List.range callShards) g
  have hmem : i ∈ (List.range callShards).flatMap (expiredCalls iNow S.shards) :=
    List.mem_flatMap.2 ⟨_, shardOf_mem i, mem_expiredCalls.2 hi⟩
  rw [← hids] at hmem
  obtain ⟨t, ht, rfl⟩ := List.mem_map.1 hmem
  obtain ⟨s', hs', hcall⟩ := hcalls t ht
  obtain rfl := Option.some.inj (hs.symm.trans hs')
  exact ⟨t, ht, hcall⟩

/-- An expired call whose completion throws costs the timer its renewal. -/
theorem sweep_unsound (h : TableInv S) {m : Manager τ} {pTimer : τ} {ms : Int}
    (hm : Running cfg pTimer ms m) {throws : RpcAction M → Bool} {i : Nat} {s : RpcCoroSlot M}
    (hs : S.table i = some s) (hi : Expired S iNow i) (hthrows : completionThrows throws s = true) :
    ¬ SweepSound cfg tick m pTimer S iNow throws := by
  rintro ⟨r, hr, -, -, -, -, m', hstep, hslot, -⟩
  obtain ⟨shards', -, heq⟩ := sweepRpcCalls_eq h iNow throws
  obtain rfl := Option.some.inj (hr.symm.trans heq)
  obtain ⟨t, ht, hcall⟩ := expired_taken h hs hi S.guards
  have hthrew := completeFired_threw throws
    (armAll S.guards (expiredSlots iNow S.shards (List.range callShards))).1 _ ht
    ((completionThrows_call throws hcall).trans hthrows)
  rw [sweepTimerEvent, if_pos hthrew] at hstep
  exact (hm.threw hstep).not_inOneSlot hslot

/-- Without such a call the sweep does its work. -/
theorem sweep_sound (h : TableInv S) (harm : Unarmed S.table) {m : Manager τ} {pTimer : τ}
    (hm : Running cfg pTimer sweepMs m) (hrunning : m.running = some pTimer)
    {throws : RpcAction M → Bool}
    (hquiet : ∀ i s, S.table i = some s → Expired S iNow i → completionThrows throws s = false) :
    SweepSound cfg tick m pTimer S iNow throws := by
  obtain ⟨shards', herased, heq⟩ := sweepRpcCalls_eq h iNow throws
  obtain ⟨hids, hcalls⟩ := expiredSlots_taken h iNow (List.range callShards) S.guards
  have hcount := count_calls h (fun j => (expiredCalls_live h iNow j).1)
    (fun j => (expiredCalls_live h iNow j).2)
  -- a slot moved out is an expired call of the table
  have hmoved : ∀ t ∈ (armAll S.guards (expiredSlots iNow S.shards (List.range callShards))).2,
      completionThrows throws t = false := by
    intro t ht
    obtain ⟨s, hs, hcall⟩ := hcalls t ht
    have hmem : t.callId ∈ (List.range callShards).flatMap (expiredCalls iNow S.shards) := by
      rw [← hids]
      exact List.mem_map_of_mem ht
    have hpos := List.count_pos_iff.2 hmem
    rw [hcount] at hpos
    have hexpired : t.callId ∈ expiredCalls iNow S.shards (shardOf t.callId) := by
      by_contra hnot
      rw [if_neg hnot] at hpos
      exact absurd hpos (lt_irrefl 0)
    rw [completionThrows_call throws hcall]
    exact hquiet _ s hs (mem_expiredCalls.1 hexpired)
  dsimp only at heq
  rw [completeFired_quiet throws _ _ hmoved] at heq
  refine ⟨_, heq, fun i => ?_, fun i => ?_, fun c hc => ?_, ?_, ?_⟩
  · rw [herased.table_eq]
    simp only [mem_expiredCalls]
  · rw [completionsOf_taken, hids, hcount]
    simp only [mem_expiredCalls]
  · obtain ⟨t, ht, rfl⟩ := List.mem_map.1 hc
    obtain ⟨s, hs, hcall⟩ := hcalls t ht
    refine ⟨s, hs, hcall, ?_⟩
    change sweepCode t.call = sweepCode s.call
    rw [hcall]
  · exact releaseAll_armAll S.guards (expiredSlots_unarmed h harm iNow _)
  · exact hm.renewed hrunning (by decide)

/-- **When timeouts survive.** Take any reachable call table, any reachable state of the timer
manager in which the sweep timer's callback runs, any time and any choice of what throws. The sweep
takes out and completes exactly the expired calls, gives their guards back and stays armed for the
next period if and only if no expired call's completion throws. `FailRpcCalls` in the same state
completes all slots of its session whatever throws. -/
theorem sweep_sound_iff (cfg : LevelConfig) (tick : TickLength) (events : List (CallEvent M))
    (S : CallSystem M)
    (hfresh : Along callStep FreshBind (CallSystem.init M) events)
    (hrun : runFrom callStep (CallSystem.init M) events = some S) (initTime : Int)
    (timerEvents : List (ManagerEvent τ)) (m : Manager τ) (pTimer : τ)
    (honce : AddsOnce pTimer sweepMs timerEvents)
    (htimer : runFrom (managerStep cfg tick) (Manager.init τ initTime) timerEvents = some m)
    (hrunning : m.running = some pTimer) (iNow : Int) (throws : RpcAction M → Bool) :
    (SweepSound cfg tick m pTimer S iNow throws ↔
      ∀ i s, S.table i = some s → Expired S iNow i → completionThrows throws s = false) ∧
    ∀ k, ∃ shards' done,
      failRpcCalls throws k S.shards S.guards = some (shards', S.guards, done) ∧
        FailedAll S k shards' S.guards done := by
  obtain ⟨htable, harm⟩ := run_unarmed hfresh hrun
  have hm : Running cfg pTimer sweepMs m := honce.running htimer hrunning
  refine ⟨⟨fun hsound i s hs hi => ?_, sweep_sound htable harm hm hrunning⟩,
    failRpcCalls_exact htable harm throws⟩
  by_contra hthrows
  exact sweep_unsound htable hm hs hi (eq_true_of_ne_false hthrows) hsound

end Main

/-! ## A sweep that loses a call -/

/-- A call with a timeout of 100 ms, resumed by a callback, with a guard at counter `0`. -/
def guardedCall : BindArgs Unit :=
  { plainCall with timeoutMilliseconds := 100, resume := true, guard := some 0 }

/-- Two such calls, bound at time `0`. -/
def twoCalls : List (CallEvent Unit) :=
  [.draw, .bind 1 guardedCall (fun _ => false) 0, .draw, .bind 2 guardedCall (fun _ => false) 0]

/-- The sweep timer is added, 200 ms pass, and its callback starts. -/
def sweepDue : List (ManagerEvent Unit) :=
  [.addTimer () sweepMs, .elapse 200000, .update, .tick, .callback]

def threeLevels : LevelConfig := ⟨3, [2, 2, 1], fewSlots_accepted, fewSlots_le⟩

def fifthOfSecond : TickLength := ⟨200, by decide, by decide⟩

theorem sweepDue_addsOnce : AddsOnce () sweepMs sweepDue :=
  ⟨⟨[], _, rfl, by simp, by simp [ManagerEvent.NotAdd]⟩⟩

theorem sweepDue_running :
    ∃ m, runFrom (managerStep threeLevels fifthOfSecond) (Manager.init Unit 0) sweepDue = some m ∧
      m.running = some () := by
  have hrun : (runFrom (managerStep threeLevels fifthOfSecond) (Manager.init Unit 0)
      sweepDue).map (fun m => m.running) = some (some ()) := by
    decide
  obtain ⟨m, hm, hx⟩ := Option.map_eq_some_iff.1 hrun
  exact ⟨m, hm, hx⟩

/-- Two calls expire and the first one's resume throws: the second is out of the table, its
completion never runs, its guard stays raised, and the timer is in no slot. -/
theorem sweep_loses_second_call :
    ∃ S m, runFrom callStep (CallSystem.init Unit) twoCalls = some S ∧
      runFrom (managerStep threeLevels fifthOfSecond) (Manager.init Unit 0) sweepDue = some m ∧
      m.running = some () ∧
      (∃ r, sweepRpcCalls (fun a => a = .resume 1) (fun _ => false) 200 S.shards S.guards =
          some r ∧ Expired S 200 2 ∧ (r.shards 2).slots 2 = none ∧
        completionsOf 2 r.completed = 0 ∧ r.guards 0 = S.guards 0 + 1 ∧ r.threw = true) ∧
      ¬ SweepSound threeLevels fifthOfSecond m () S 200 (fun a => a = .resume 1) := by
  obtain ⟨m, hm, hx⟩ := sweepDue_running
  have hcalls : ((runFrom callStep (CallSystem.init Unit) twoCalls).bind fun S =>
      (sweepRpcCalls (fun a => a = .resume 1) (fun _ => false) 200 S.shards S.guards).map fun r =>
        (decide (Expired S 200 2), ((r.shards 2).slots 2).isNone, completionsOf 2 r.completed,
          r.guards 0 - S.guards 0, r.threw)) = some (true, true, 0, 1, true) := by
    decide
  obtain ⟨S, hS, hr⟩ := Option.bind_eq_some_iff.1 hcalls
  obtain ⟨r, hr, hvalues⟩ := Option.map_eq_some_iff.1 hr
  simp only [Prod.mk.injEq, decide_eq_true_eq, Option.isNone_iff_eq_none] at hvalues
  obtain ⟨hexpired, hgone, hcount, hguard, hthrew⟩ := hvalues
  refine ⟨S, m, hS, hm, hx, ⟨r, hr, hexpired, hgone, hcount, by omega, hthrew⟩, ?_⟩
  rintro ⟨r', hr', -, honce, -⟩
  obtain rfl := Option.some.inj (hr.symm.trans hr')
  have hone := honce 2
  rw [hcount, if_pos hexpired] at hone
  cases hone

/-- The same calls without an exception: both are completed and the timer is back in the wheel. -/
theorem sweep_sound_two_calls :
    ∃ S m, runFrom callStep (CallSystem.init Unit) twoCalls = some S ∧
      runFrom (managerStep threeLevels fifthOfSecond) (Manager.init Unit 0) sweepDue = some m ∧
      Expired S 200 1 ∧ Expired S 200 2 ∧
      SweepSound threeLevels fifthOfSecond m () S 200 (fun _ => false) := by
  obtain ⟨m, hm, hx⟩ := sweepDue_running
  have hfresh : Along callStep FreshBind (CallSystem.init Unit) twoCalls :=
    along_freshBind twoCalls init_tableInv init_tracked (by decide)
  have hcalls : (runFrom callStep (CallSystem.init Unit) twoCalls).map (fun S =>
      (decide (Expired S 200 1), decide (Expired S 200 2))) = some (true, true) := by
    decide
  obtain ⟨S, hS, hvalues⟩ := Option.map_eq_some_iff.1 hcalls
  simp only [Prod.mk.injEq, decide_eq_true_eq] at hvalues
  have hiff := (sweep_sound_iff threeLevels fifthOfSecond twoCalls S hfresh hS 0 sweepDue m ()
    sweepDue_addsOnce hm hx 200 (fun _ => false)).1
  refine ⟨S, m, hS, hm, hvalues.1, hvalues.2, hiff.2 fun i s _ _ => ?_⟩
  exact runActions_quiet _

end OpenIdea.Rpc
