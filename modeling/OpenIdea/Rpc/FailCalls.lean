import OpenIdea.Rpc.CallRuns

/-!
# Failing the calls of a session

`FailRpcCalls` as one thread runs it: shard by shard, batch by batch, each batch completed outside
the lock with every exception caught. It terminates, completes exactly the slots of its session,
each once, and gives every guard back, whichever completions throw (`failRpcCalls_exact`).
-/

set_option autoImplicit false

namespace OpenIdea.Rpc

open OpenIdea.Lib OpenIdea.Lib.LinkedIndex OpenIdea.Lib.Runs

variable {M : Type}

/-! ## Guards -/

/-- Run the destructors of `GuardRelease` for slots one after another. -/
def releaseAll : Guards → List (RpcCoroSlot M) → Guards
  | g, [] => g
  | g, s :: ss => releaseAll (releaseGuard g s) ss

/-- The slots of a list that hold an armed guard at counter `p`. -/
def armedAt (p : Nat) (ss : List (RpcCoroSlot M)) : Nat :=
  ss.countP fun s => s.guard = some p ∧ s.guardArmed = true

theorem armedAt_cons (p : Nat) (s : RpcCoroSlot M) (ss : List (RpcCoroSlot M)) :
    armedAt p (s :: ss) = armedAt p [s] + armedAt p ss := by
  rw [armedAt, ← List.singleton_append, List.countP_append]
  rfl

theorem releaseGuard_apply (g : Guards) (s : RpcCoroSlot M) (p : Nat) :
    releaseGuard g s p = g p - armedAt p [s] := by
  unfold releaseGuard armedAt
  cases hg : s.guard with
  | none => simp [hg]
  | some q =>
    by_cases ha : s.guardArmed = true
    · by_cases hp : p = q
      · subst hp
        simp [hg, ha]
      · simp [hg, ha, hp, Ne.symm hp]
    · simp [hg, ha]

theorem releaseAll_apply (g : Guards) (ss : List (RpcCoroSlot M)) (p : Nat) :
    releaseAll g ss p = g p - armedAt p ss := by
  induction ss generalizing g with
  | nil => simp [releaseAll, armedAt]
  | cons s ss ih =>
    rw [releaseAll, ih, releaseGuard_apply, armedAt_cons p s ss]
    push_cast
    omega

/-- Arming a slot that is not armed raises its counter by what releasing it takes back. -/
theorem armRpcGuard_apply (g : Guards) {s : RpcCoroSlot M} (hs : s.guardArmed = false) (p : Nat) :
    (armRpcGuard g s).1 p = g p + armedAt p [(armRpcGuard g s).2] := by
  unfold armRpcGuard armedAt
  cases hg : s.guard with
  | none => simp [hg]
  | some q =>
    by_cases hp : p = q
    · subst hp
      simp [hs]
    · simp [hs, hp, Ne.symm hp]

theorem armAll_apply (g : Guards) {ss : List (RpcCoroSlot M)}
    (hss : ∀ s ∈ ss, s.guardArmed = false) (p : Nat) :
    (armAll g ss).1 p = g p + armedAt p (armAll g ss).2 := by
  induction ss generalizing g with
  | nil => simp [armAll, armedAt]
  | cons s ss ih =>
    have hhead := armRpcGuard_apply g (hss s List.mem_cons_self) p
    have htail := ih (armRpcGuard g s).1 fun t ht => hss t (List.mem_cons_of_mem _ ht)
    rw [armAll, armedAt_cons, htail, hhead]
    push_cast
    omega

/-- Releasing what was armed gives every counter back. -/
theorem releaseAll_armAll (g : Guards) {ss : List (RpcCoroSlot M)}
    (hss : ∀ s ∈ ss, s.guardArmed = false) : releaseAll (armAll g ss).1 (armAll g ss).2 = g := by
  funext p
  rw [releaseAll_apply, armAll_apply g hss]
  omega

/-! ## The loops of `FailRpcCalls` -/

/-- Complete a batch outside the lock. An exception is caught and reported, and the loop goes on:
the guards, the slots completed, and the statements run. -/
def completeCaught (throws : RpcAction M → Bool) (iCode : Int) :
    Guards → List (RpcCoroSlot M) → Guards × List (RpcCoroSlot M) × List (RpcAction M)
  | g, [] => (g, [], [])
  | g, s :: ss =>
      let r := finishRpcSlot throws g s iCode none
      let rest := completeCaught throws iCode r.1 ss
      (rest.1, s :: rest.2.1, r.2.1 ++ rest.2.2)

/-- The guards and the slots completed do not depend on what throws. -/
theorem completeCaught_eq (throws : RpcAction M → Bool) (iCode : Int) (g : Guards)
    (ss : List (RpcCoroSlot M)) :
    (completeCaught throws iCode g ss).1 = releaseAll g ss ∧
      (completeCaught throws iCode g ss).2.1 = ss := by
  induction ss generalizing g with
  | nil => exact ⟨rfl, rfl⟩
  | cons s ss ih =>
    obtain ⟨hguards, hslots⟩ := ih (releaseGuard g s)
    constructor
    · exact hguards
    · change s :: (completeCaught throws iCode (releaseGuard g s) ss).2.1 = s :: ss
      rw [hslots]

section Fail

variable [DecidableEq M]

/-- The `while (true)` loop over one shard, with fuel: the shard, the guards and the slots
completed. -/
def failShard (throws : RpcAction M → Bool) (k : M × Int) :
    Nat → RpcCallShard M → Guards → Option (RpcCallShard M × Guards × List (RpcCoroSlot M))
  | 0, _, _ => none
  | fuel + 1, sh, g =>
      (failBatch sh g k).bind fun r =>
        match r with
        | (sh', g', none) => some (sh', g', [])
        | (sh', g', some vFailed) =>
            let done := completeCaught throws oiErrConnect g' vFailed
            (failShard throws k fuel sh' done.1).map fun r' => (r'.1, r'.2.1, done.2.1 ++ r'.2.2)

/-- The loop over the shards `js`. Every batch but the last is full, so one batch more than the
session has calls is fuel enough. -/
def failShards (throws : RpcAction M → Bool) (k : M × Int) :
    List Nat → (Nat → RpcCallShard M) → Guards →
      Option ((Nat → RpcCallShard M) × Guards × List (RpcCoroSlot M))
  | [], shards, g => some (shards, g, [])
  | j :: js, shards, g =>
      (failShard throws k (((shards j).sessions k).getD []).length.succ (shards j) g).bind fun r =>
        (failShards throws k js (Function.update shards j r.1) r.2.1).map fun r' =>
          (r'.1, r'.2.1, r.2.2 ++ r'.2.2)

/-- `FailRpcCalls` -/
def failRpcCalls (throws : RpcAction M → Bool) (k : M × Int) (shards : Nat → RpcCallShard M)
    (g : Guards) : Option ((Nat → RpcCallShard M) × Guards × List (RpcCoroSlot M)) :=
  failShards throws k (List.range callShards) shards g

/-- The guards of the slots in a shard are not armed: only a slot on its way out is. -/
def Unarmed (slots : Nat → Option (RpcCoroSlot M)) : Prop :=
  ∀ i s, slots i = some s → s.guardArmed = false

omit [DecidableEq M] in
theorem Unarmed.erase {slots : Nat → Option (RpcCoroSlot M)} (h : Unarmed slots)
    (ids : List Nat) : Unarmed (eraseSlots slots ids) := by
  intro i s hs
  unfold eraseSlots at hs
  obtain ⟨_, hs⟩ := Option.ite_none_left_eq_some.1 hs
  exact h i s hs

omit [DecidableEq M] in
theorem Unarmed.detached {slots : Nat → Option (RpcCoroSlot M)} (h : Unarmed slots)
    (ids : List Nat) : ∀ s ∈ detachedSlots slots ids, s.guardArmed = false := by
  intro s hs
  obtain ⟨i, -, hi⟩ := List.mem_filterMap.1 hs
  obtain ⟨s₀, hs₀, rfl⟩ := Option.map_eq_some_iff.1 hi
  have hflag : s₀.detached.guardArmed = s₀.guardArmed := by
    unfold RpcCoroSlot.detached RpcCoroSlot.withoutExpiry
    split <;> rfl
  rw [hflag]
  exact h i s₀ hs₀

/-- The slots a loop has completed: exactly the calls `ids`, in this order, as the table had
them. -/
structure CompletedFrom (slots : Nat → Option (RpcCoroSlot M)) (ids : List Nat)
    (done : List (RpcCoroSlot M)) : Prop where
  callIds : done.map RpcCoroSlot.callId = ids
  calls : ∀ t ∈ done, ∃ s, slots t.callId = some s ∧ t.call = s.call

omit [DecidableEq M] in
theorem CompletedFrom.append {slots slots' : Nat → Option (RpcCoroSlot M)} {ids ids' : List Nat}
    {done done' : List (RpcCoroSlot M)} (h : CompletedFrom slots ids done)
    (h' : CompletedFrom slots' ids' done')
    (hsub : ∀ i s, slots' i = some s → slots i = some s) :
    CompletedFrom slots (ids ++ ids') (done ++ done') := by
  constructor
  · rw [List.map_append, h.callIds, h'.callIds]
  · intro t ht
    rcases List.mem_append.1 ht with ht | ht
    · exact h.calls t ht
    · obtain ⟨s, hs, hcall⟩ := h'.calls t ht
      exact ⟨s, hsub _ s hs, hcall⟩

variable {k : M × Int}

omit [DecidableEq M] in
/-- The entries of a session's list are calls of the table. -/
theorem live_of_session {sh : RpcCallShard M} (h : ShardInv sh) {l : List (Node Nat)}
    (hl : sh.sessionIndex k = l) (n : Nat) :
    ∀ i ∈ (l.take n).map Node.val, (sh.slots i).isSome := by
  intro i hi
  obtain ⟨m, hm, rfl⟩ := List.mem_map.1 hi
  have hmem : m ∈ sh.sessionIndex k := by
    rw [hl]
    exact List.mem_of_mem_take hm
  obtain ⟨s, hs, -⟩ := h.core.session_slot hmem
  rw [hs]
  rfl

/-- One shard: the loop ends, and exactly the session's slots have been completed. -/
theorem failShard_spec (throws : RpcAction M → Bool) (k : M × Int) :
    ∀ (fuel : Nat) (sh : RpcCallShard M) (g : Guards), ShardInv sh → Unarmed sh.slots →
      (sh.sessionIndex k).length < fuel →
      ∃ sh' done, failShard throws k fuel sh g = some (sh', g, done) ∧ ShardInv sh' ∧
        sh'.slots = eraseSlots sh.slots ((sh.sessionIndex k).map Node.val) ∧
        sh'.sessions = Function.update sh.sessions k none ∧
        CompletedFrom sh.slots ((sh.sessionIndex k).map Node.val) done := by
  intro fuel
  induction fuel with
  | zero => intro sh g _ _ hfuel; exact absurd hfuel (Nat.not_lt_zero _)
  | succ fuel ih =>
    intro sh g hsh harm hfuel
    cases hl : sh.sessions k with
    | none =>
      -- no list under this session: `find` returns `end()` and the loop breaks
      have hnil : sh.sessionIndex k = [] := by rw [RpcCallShard.sessionIndex, hl]; rfl
      refine ⟨sh, [], ?_, hsh, ?_, ?_, ⟨?_, by simp⟩⟩
      · rw [failShard, failBatch_missing hl]
        rfl
      · rw [hnil, List.map_nil, eraseSlots_nil]
      · rw [← hl, Function.update_eq_self]
      · rw [hnil]
        rfl
    | some l =>
      have hkl : sh.sessionIndex k = l := by rw [RpcCallShard.sessionIndex, hl]; rfl
      rw [hkl] at hfuel ⊢
      obtain ⟨sh₁, hbatch, hsh₁, -, hslots₁, hses₁⟩ := failBatch_spec hsh g hl
      obtain ⟨hids, hcalls⟩ := taken_calls g (fun i s hs => hsh.core.callId i s hs)
        (live_of_session hsh hkl failBatchSize)
      -- the batch gives back the guards it armed
      have hguards := releaseAll_armAll g
        (harm.detached ((l.take failBatchSize).map Node.val))
      obtain ⟨hg, hdone⟩ := completeCaught_eq throws oiErrConnect
        (armAll g (detachedSlots sh.slots ((l.take failBatchSize).map Node.val))).1
        (armAll g (detachedSlots sh.slots ((l.take failBatchSize).map Node.val))).2
      rw [hguards] at hg
      have hkl₁ : sh₁.sessionIndex k = l.drop failBatchSize := by
        rw [RpcCallShard.sessionIndex, hses₁, Function.update_self, keepNonempty_getD]
      -- a batch takes at least one slot, so the list gets shorter
      have hshorter : (sh₁.sessionIndex k).length < fuel := by
        have hpos : l ≠ [] := fun hnil => hsh.sessions_ne k (hnil ▸ hl)
        have hlen : 0 < l.length := List.length_pos_iff.2 hpos
        rw [hkl₁, List.length_drop, failBatchSize]
        omega
      obtain ⟨sh', done, hrun, hsh', hslots', hses', hcompleted⟩ :=
        ih sh₁ g hsh₁ (hslots₁ ▸ harm.erase _) hshorter
      rw [hkl₁] at hslots' hcompleted
      refine ⟨sh', (armAll g (detachedSlots sh.slots
        ((l.take failBatchSize).map Node.val))).2 ++ done, ?_, hsh', ?_, ?_, ?_⟩
      · rw [failShard, hbatch, Option.bind_some]
        dsimp only
        rw [hg, hdone, hrun, Option.map_some]
      · rw [hslots', hslots₁, ← eraseSlots_append, ← List.map_append, List.take_append_drop]
      · rw [hses', hses₁, Function.update_idem]
      · have happend := CompletedFrom.append ⟨hids, hcalls⟩ hcompleted (fun i s hs => by
          rw [hslots₁, eraseSlots] at hs
          obtain ⟨_, hs⟩ := Option.ite_none_left_eq_some.1 hs
          exact hs)
        rwa [← List.map_append, List.take_append_drop] at happend

/-! ## Erasing calls shard by shard -/

/-- The shards after the calls `ids j` have left each shard `j` of `js`. -/
structure ErasedCalls (shards : Nat → RpcCallShard M) (ids : Nat → List Nat) (js : List Nat)
    (shards' : Nat → RpcCallShard M) : Prop where
  inv : ∀ j, ShardInv (shards' j)
  slots_eq : ∀ j ∈ js, (shards' j).slots = eraseSlots (shards j).slots (ids j)
  other : ∀ j, j ∉ js → shards' j = shards j

omit [DecidableEq M] in
theorem ErasedCalls.nil {shards : Nat → RpcCallShard M} (h : ∀ j, ShardInv (shards j))
    (ids : Nat → List Nat) : ErasedCalls shards ids [] shards :=
  ⟨h, by simp, fun _ _ => rfl⟩

omit [DecidableEq M] in
/-- One more shard in front. -/
theorem ErasedCalls.cons {shards shards' : Nat → RpcCallShard M} {ids : Nat → List Nat}
    {j : Nat} {js : List Nat} {sh : RpcCallShard M} (hj : j ∉ js)
    (hslots : sh.slots = eraseSlots (shards j).slots (ids j))
    (h : ErasedCalls (Function.update shards j sh) ids js shards') :
    ErasedCalls shards ids (j :: js) shards' := by
  refine ⟨h.inv, fun j' hj' => ?_, fun j' hj' => ?_⟩
  · rcases List.mem_cons.1 hj' with rfl | hmem
    · rw [h.other j' hj, Function.update_self, hslots]
    · have hne : j' ≠ j := fun heq => hj (heq ▸ hmem)
      rw [h.slots_eq j' hmem, Function.update_of_ne hne]
  · obtain ⟨hne, hnot⟩ := not_or.1 (fun hor => hj' (List.mem_cons.2 hor))
    rw [h.other j' hnot, Function.update_of_ne hne]

omit [DecidableEq M] in
theorem shardOf_mem (i : Nat) : shardOf i ∈ List.range callShards :=
  List.mem_range.2 (Nat.mod_lt i (by decide))

variable {S : CallSystem M}

omit [DecidableEq M] in
theorem ErasedCalls.tableInv {ids : Nat → List Nat} {js : List Nat} {shards' : Nat → RpcCallShard M}
    (h : ErasedCalls S.shards ids js shards') (hS : TableInv S) :
    TableInv { S with shards := shards' } := by
  refine ⟨h.inv, fun j i hi => ?_⟩
  change ((shards' j).slots i).isSome = true at hi
  by_cases hj : j ∈ js
  · rw [h.slots_eq j hj, eraseSlots] at hi
    split at hi
    · cases hi
    · exact hS.home j i hi
  · rw [h.other j hj] at hi
    exact hS.home j i hi

omit [DecidableEq M] in
/-- The table after all shards have been passed. -/
theorem ErasedCalls.table_eq {ids : Nat → List Nat} {shards' : Nat → RpcCallShard M}
    (h : ErasedCalls S.shards ids (List.range callShards) shards') (i : Nat) :
    ({ S with shards := shards' } : CallSystem M).table i =
      if i ∈ ids (shardOf i) then none else S.table i := by
  change (shards' (shardOf i)).slots i = _
  rw [h.slots_eq _ (shardOf_mem i)]
  rfl

omit [DecidableEq M] in
/-- Live calls listed shard by shard, without repetition in a shard, are listed once in all. -/
theorem count_calls (hS : TableInv S) {ids : Nat → List Nat}
    (hlive : ∀ j, ∀ i ∈ ids j, ((S.shards j).slots i).isSome) (hnodup : ∀ j, (ids j).Nodup)
    (i : Nat) :
    ((List.range callShards).flatMap ids).count i = if i ∈ ids (shardOf i) then 1 else 0 := by
  have hall : ((List.range callShards).flatMap ids).Nodup := by
    refine List.nodup_flatMap.2 ⟨fun j _ => hnodup j, List.nodup_range.imp ?_⟩
    intro j j' hne i hi hi'
    -- a call of two shards would have two homes
    exact hne ((hS.home j i (hlive j i hi)).symm.trans (hS.home j' i (hlive j' i hi')))
  by_cases hi : i ∈ ids (shardOf i)
  · rw [if_pos hi]
    exact List.count_eq_one_of_mem hall (List.mem_flatMap.2 ⟨_, shardOf_mem i, hi⟩)
  · rw [if_neg hi, List.count_eq_zero]
    intro hmem
    obtain ⟨j, -, hij⟩ := List.mem_flatMap.1 hmem
    rw [← hS.home j i (hlive j i hij)] at hij
    exact hi hij

/-! ## The whole table -/

/-- The calls of session `k` in shard `j`. -/
def callsOf (shards : Nat → RpcCallShard M) (k : M × Int) (j : Nat) : List Nat :=
  ((shards j).sessionIndex k).map Node.val

/-- Several shards, one after the other. -/
theorem failShards_spec (throws : RpcAction M → Bool) (k : M × Int) :
    ∀ (js : List Nat) (shards : Nat → RpcCallShard M) (g : Guards), js.Nodup →
      (∀ j, ShardInv (shards j)) → (∀ j, Unarmed (shards j).slots) →
      ∃ shards' done, failShards throws k js shards g = some (shards', g, done) ∧
        ErasedCalls shards (callsOf shards k) js shards' ∧
        (∀ j k', k' ≠ k → (shards' j).sessions k' = (shards j).sessions k') ∧
        done.map RpcCoroSlot.callId = js.flatMap (callsOf shards k) ∧
        ∀ t ∈ done, ∃ j s, (shards j).slots t.callId = some s ∧ t.call = s.call := by
  intro js
  induction js with
  | nil =>
    intro shards g _ hinv _
    exact ⟨shards, [], rfl, .nil hinv _, fun _ _ _ => rfl, rfl, by simp⟩
  | cons j js ih =>
    intro shards g hnodup hinv harm
    obtain ⟨hnot, hnodup'⟩ := List.nodup_cons.1 hnodup
    obtain ⟨sh', done, hrun, hsh', hslots', hses', hcompleted⟩ :=
      failShard_spec throws k ((shards j).sessionIndex k).length.succ (shards j) g (hinv j)
        (harm j) (Nat.lt_succ_self _)
    have hself : Function.update shards j sh' j = sh' := Function.update_self _ _ _
    have hother : ∀ j', j' ≠ j → Function.update shards j sh' j' = shards j' :=
      fun j' hj => Function.update_of_ne hj _ _
    have hinv₁ : ∀ j', ShardInv (Function.update shards j sh' j') := by
      intro j'
      by_cases hj : j' = j
      · rw [hj, hself]
        exact hsh'
      · rw [hother j' hj]
        exact hinv j'
    have harm₁ : ∀ j', Unarmed (Function.update shards j sh' j').slots := by
      intro j'
      by_cases hj : j' = j
      · rw [hj, hself, hslots']
        exact (harm j).erase _
      · rw [hother j' hj]
        exact harm j'
    obtain ⟨shards', done', hrun', herased, hses'', hids', hcalls'⟩ :=
      ih (Function.update shards j sh') g hnodup' hinv₁ harm₁
    -- the shards still to come list the same calls as before
    have hcallsOf : ∀ j' ∈ js, callsOf (Function.update shards j sh') k j' =
        callsOf shards k j' := by
      intro j' hj'
      rw [callsOf, callsOf, hother j' fun heq => hnot (heq ▸ hj')]
    refine ⟨shards', done ++ done', ?_, ?_, ?_, ?_, ?_⟩
    · rw [failShards]
      change (failShard throws k ((shards j).sessionIndex k).length.succ _ _).bind _ = _
      rw [hrun, Option.bind_some, hrun', Option.map_some]
    · refine ErasedCalls.cons hnot hslots' ⟨herased.inv, fun j' hj' => ?_, herased.other⟩
      rw [herased.slots_eq j' hj', hcallsOf j' hj']
    · intro j' k' hk
      rw [hses'' j' k' hk]
      by_cases hj : j' = j
      · rw [hj, hself, hses', Function.update_of_ne hk]
      · rw [hother j' hj]
    · rw [List.map_append, hcompleted.callIds, hids', List.flatMap_cons,
        List.flatMap_congr hcallsOf]
      rfl
    · intro t ht
      rcases List.mem_append.1 ht with ht | ht
      · obtain ⟨s, hs, hcall⟩ := hcompleted.calls t ht
        exact ⟨j, s, hs, hcall⟩
      · obtain ⟨j', s, hs, hcall⟩ := hcalls' t ht
        by_cases hj : j' = j
        · rw [hj, hself, hslots', eraseSlots] at hs
          obtain ⟨_, hs⟩ := Option.ite_none_left_eq_some.1 hs
          exact ⟨j, s, hs, hcall⟩
        · rw [hother j' hj] at hs
          exact ⟨j', s, hs, hcall⟩

/-- The slot is bound to session `k`. -/
def boundTo (k : M × Int) (o : Option (RpcCoroSlot M)) : Bool := o.any fun s => s.key = k

theorem boundTo_iff {o : Option (RpcCoroSlot M)} :
    boundTo k o = true ↔ ∃ s, o = some s ∧ s.key = k := by
  cases o with
  | none => simp [boundTo]
  | some s => simp [boundTo]

/-- A shard lists a call of its own under a session exactly when the call is bound to it. -/
theorem mem_callsOf (h : TableInv S) {i : Nat} :
    i ∈ callsOf S.shards k (shardOf i) ↔ boundTo k (S.table i) = true := by
  constructor
  · intro hi
    obtain ⟨n, hn, rfl⟩ := List.mem_map.1 hi
    obtain ⟨s, hs, hkey, -⟩ := (h.shard _).core.session_slot hn
    exact boundTo_iff.2 ⟨s, hs, hkey⟩
  · intro hi
    obtain ⟨s, hs, rfl⟩ := boundTo_iff.1 hi
    exact List.mem_map.2 ⟨_, (h.shard (shardOf i)).core.session_node hs, rfl⟩

/-- What `FailRpcCalls` has done to a table: the session's slots are gone, every other slot and
every other session's list is as it was, and the slots completed are exactly the session's, each
once, with every guard back where it was. -/
structure FailedAll (S : CallSystem M) (k : M × Int) (shards' : Nat → RpcCallShard M)
    (g' : Guards) (done : List (RpcCoroSlot M)) : Prop where
  inv : TableInv { S with shards := shards' }
  table_eq : ∀ i, ({ S with shards := shards' } : CallSystem M).table i =
    if boundTo k (S.table i) then none else S.table i
  sessions_eq : ∀ j k', k' ≠ k → (shards' j).sessions k' = (S.shards j).sessions k'
  once : ∀ i, (done.map RpcCoroSlot.callId).count i = if boundTo k (S.table i) then 1 else 0
  calls : ∀ t ∈ done, ∃ s, S.table t.callId = some s ∧ t.call = s.call
  guards_eq : g' = S.guards

/-- **`FailRpcCalls` is exact.** From every state of the invariant it ends, whichever completions
throw, and completes exactly the calls of its session. -/
theorem failRpcCalls_exact (h : TableInv S) (harm : Unarmed S.table) (throws : RpcAction M → Bool)
    (k : M × Int) :
    ∃ shards' done, failRpcCalls throws k S.shards S.guards = some (shards', S.guards, done) ∧
      FailedAll S k shards' S.guards done := by
  have harm' : ∀ j, Unarmed (S.shards j).slots := by
    intro j i s hs
    exact harm i s (h.table_of_shard hs).2
  obtain ⟨shards', done, hrun, herased, hses, hids, hcalls⟩ :=
    failShards_spec throws k (List.range callShards) S.shards S.guards List.nodup_range h.shard
      harm'
  refine ⟨shards', done, hrun, herased.tableInv h, ?_, hses, ?_, ?_, rfl⟩
  · intro i
    rw [herased.table_eq]
    simp only [mem_callsOf h]
  · intro i
    have hlive : ∀ j, ∀ i ∈ callsOf S.shards k j, ((S.shards j).slots i).isSome := by
      intro j i hi
      obtain ⟨n, hn, rfl⟩ := List.mem_map.1 hi
      obtain ⟨s, hs, -⟩ := (h.shard j).core.session_slot hn
      rw [hs]
      rfl
    rw [hids, count_calls h hlive fun j => (h.shard j).core.session_linked.nodup_ident k]
    simp only [mem_callsOf h]
  · intro t ht
    obtain ⟨j, s, hs, hcall⟩ := hcalls t ht
    exact ⟨s, (h.table_of_shard hs).2, hcall⟩

/-- No move leaves an armed guard in the table. -/
theorem Unarmed.move {v v' : CallView M} {e : CallEvent M} (hv : Unarmed v.table)
    (h : CallMove v e v') : Unarmed v'.table := by
  have hupdate : ∀ {i : Nat} {x : Option (RpcCoroSlot M)},
      (∀ s, x = some s → s.guardArmed = false) → Unarmed (Function.update v.table i x) := by
    intro i x hx j s hs
    by_cases hj : j = i
    · subst hj
      rw [Function.update_self] at hs
      exact hx s hs
    · rw [Function.update_of_ne hj] at hs
      exact hv j s hs
  cases h with
  | bound i args fails iNow s hi hnone hs =>
    refine hupdate fun t ht => ?_
    obtain rfl := Option.some.inj ht
    exact congrArg RpcCoroSlot.guardArmed hs
  | claimed i sid fails s s' hs hs' =>
    refine hupdate fun t ht => ?_
    obtain rfl := Option.some.inj ht
    exact (congrArg RpcCoroSlot.guardArmed hs').trans (hv i s hs)
  | marked i s hs =>
    refine hupdate fun t ht => ?_
    obtain rfl := Option.some.inj ht
    exact hv i s hs
  | woken i iCode s t hs ht => exact hupdate (by simp)
  | delivered i iId bytes m sid s t hi hs ht hm => exact hupdate (by simp)
  | taken _ ids ts code hnodup hids hts => exact hv.erase ids
  | abandoned i => exact hupdate (by simp)
  | _ => exact hv

/-- The states a run reaches satisfy the invariant, with no guard armed in the table. -/
theorem run_unarmed {events : List (CallEvent M)}
    (hfresh : Along callStep FreshBind (CallSystem.init M) events)
    (hrun : runFrom callStep (CallSystem.init M) events = some S) :
    TableInv S ∧ Unarmed S.table := by
  refine runFrom_invariant_along (I := fun S => TableInv S ∧ Unarmed S.table) ?_
    ⟨init_tableInv, fun i s hs => by cases hs⟩ hfresh hrun
  intro S e S' hS hP hstep
  obtain ⟨S₁, hstep₁, hS₁, hmove⟩ := callStep_move hS.1 hP
  obtain rfl := Option.some.inj (hstep.symm.trans hstep₁)
  exact ⟨hS₁, hS.2.move hmove⟩

end Fail

end OpenIdea.Rpc
