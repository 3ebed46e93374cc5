import OpenIdea.Rpc.CallSystem

/-!
# Runs of the call table

One lemma says what an event can do (`callStep_move`): every invariant of the system is a case
analysis over the moves. Two follow here. `TableInv` is the representation invariant of all
shards. `weight` counts where a call number is: drawn and waiting to be bound, in the table, on its
way to its completion, or completed; no event but a draw adds to it.
-/

set_option autoImplicit false

namespace OpenIdea.Rpc

open OpenIdea.Lib OpenIdea.Lib.LinkedIndex OpenIdea.Lib.Runs

variable {M : Type}

/-- The slot of a call, wherever its shard is. -/
def CallSystem.table (S : CallSystem M) (i : Nat) : Option (RpcCoroSlot M) :=
  (S.shards (shardOf i)).slots i

/-- Every shard satisfies its invariant and holds calls of its own only. -/
structure TableInv (S : CallSystem M) : Prop where
  shard : ∀ j, ShardInv (S.shards j)
  home : ∀ j i, ((S.shards j).slots i).isSome → shardOf i = j

theorem init_tableInv : TableInv (CallSystem.init M) :=
  ⟨fun _ => empty_shardInv, fun j i h => by cases h⟩

variable {S : CallSystem M} {sh : RpcCallShard M}

variable {i j : Nat}

/-- A slot in any shard is a slot of the table. -/
theorem TableInv.table_of_shard (h : TableInv S) {s : RpcCoroSlot M}
    (hs : (S.shards j).slots i = some s) : shardOf i = j ∧ S.table i = some s := by
  have hj : shardOf i = j := h.home j i (by rw [hs]; rfl)
  exact ⟨hj, by rw [CallSystem.table, hj]; exact hs⟩

/-! ## Changing one shard -/

theorem TableInv.setShard (h : TableInv S) (hsh : ShardInv sh)
    (hhome : ∀ i, (sh.slots i).isSome → shardOf i = j) : TableInv (S.setShard j sh) := by
  refine ⟨fun j' => ?_, fun j' i hi => ?_⟩
  · by_cases hj : j' = j
    · subst hj
      simpa only [CallSystem.setShard, Function.update_self] using hsh
    · simpa only [CallSystem.setShard, Function.update_of_ne hj] using h.shard j'
  · by_cases hj : j' = j
    · subst hj
      simp only [CallSystem.setShard, Function.update_self] at hi
      exact hhome i hi
    · simp only [CallSystem.setShard, Function.update_of_ne hj] at hi
      exact h.home j' i hi

/-- Changing one slot of its own shard changes the table there. -/
theorem setShard_update (h : TableInv S) {x : Option (RpcCoroSlot M)} (hsh : ShardInv sh)
    (hslots : sh.slots = Function.update (S.shards (shardOf i)).slots i x) :
    TableInv (S.setShard (shardOf i) sh) ∧
      (S.setShard (shardOf i) sh).table = Function.update S.table i x := by
  refine ⟨h.setShard hsh fun i' hi' => ?_, ?_⟩
  · by_cases hii : i' = i
    · rw [hii]
    · rw [hslots, Function.update_of_ne hii] at hi'
      exact h.home _ _ hi'
  · funext i'
    by_cases hii : i' = i
    · subst hii
      simp only [CallSystem.table, CallSystem.setShard, Function.update_self, hslots]
    · rw [Function.update_of_ne hii]
      by_cases hj : shardOf i' = shardOf i
      · simp only [CallSystem.table, CallSystem.setShard, hj, Function.update_self, hslots,
          Function.update_of_ne hii]
      · simp only [CallSystem.table, CallSystem.setShard, Function.update_of_ne hj]

/-- Erasing live slots of one shard erases them from the table. -/
theorem setShard_erase (h : TableInv S) {ids : List Nat} (hsh : ShardInv sh)
    (hslots : sh.slots = eraseSlots (S.shards j).slots ids)
    (hlive : ∀ i ∈ ids, ((S.shards j).slots i).isSome) :
    TableInv (S.setShard j sh) ∧ (S.setShard j sh).table = eraseSlots S.table ids := by
  refine ⟨h.setShard hsh fun i hi => ?_, ?_⟩
  · rw [hslots, eraseSlots] at hi
    split at hi
    · cases hi
    · exact h.home j i hi
  · funext i
    by_cases hj : shardOf i = j
    · simp only [CallSystem.table, CallSystem.setShard, hj, Function.update_self, hslots,
        eraseSlots]
    · have hnot : i ∉ ids := fun hi => hj (h.home j i (hlive i hi))
      simp only [CallSystem.table, CallSystem.setShard, Function.update_of_ne hj, eraseSlots,
        if_neg hnot]

/-! ## The call of a slot -/

/-- What a slot says about its call: everything but its links and its guard flag. -/
def RpcCoroSlot.call (s : RpcCoroSlot M) : RpcCoroSlot M := { s.unlinked with guardArmed := false }

theorem call_callId (s : RpcCoroSlot M) : s.call.callId = s.callId := rfl

theorem detached_call (s : RpcCoroSlot M) : s.detached.call = s.call := by
  rw [RpcCoroSlot.call, detached_unlinked]
  rfl

theorem armRpcGuard_call (g : Guards) (s : RpcCoroSlot M) : (armRpcGuard g s).2.call = s.call := by
  unfold armRpcGuard
  split
  · rfl
  · split <;> rfl

theorem callId_of_call {s t : RpcCoroSlot M} (h : s.call = t.call) : s.callId = t.callId := by
  rw [← call_callId s, h, call_callId]

/-- The slots a loop has taken out: their numbers, and the calls they come from. -/
theorem taken_calls {slots : Nat → Option (RpcCoroSlot M)} {ids : List Nat} (g : Guards)
    (hid : ∀ i s, slots i = some s → s.callId = i) (hlive : ∀ i ∈ ids, (slots i).isSome) :
    (armAll g (detachedSlots slots ids)).2.map RpcCoroSlot.callId = ids ∧
      ∀ t ∈ (armAll g (detachedSlots slots ids)).2, ∃ s, slots t.callId = some s ∧
        t.call = s.call := by
  induction ids generalizing g with
  | nil => exact ⟨rfl, by simp [detachedSlots, armAll]⟩
  | cons i ids ih =>
    obtain ⟨s, hs⟩ := Option.isSome_iff_exists.1 (hlive i List.mem_cons_self)
    rw [detachedSlots_cons hs, armAll]
    have hcall : (armRpcGuard g s.detached).2.call = s.call := by
      rw [armRpcGuard_call, detached_call]
    have hcallId := (callId_of_call hcall).trans (hid i s hs)
    obtain ⟨hids, hcalls⟩ := ih (armRpcGuard g s.detached).1 fun j hj =>
      hlive j (List.mem_cons_of_mem _ hj)
    refine ⟨by rw [List.map_cons, hcallId, hids], fun t ht => ?_⟩
    rcases List.mem_cons.1 ht with rfl | ht
    · exact ⟨s, by rw [hcallId, hs], hcall⟩
    · exact hcalls t ht

/-! ## The abstract table -/

/-- What callers see of the system: a table of calls by number, with the completions that wait and
those that have run. The indexes, buckets, guards and shards are gone. -/
structure CallView (M : Type) where
  issued : Nat
  pending : List Nat
  table : Nat → Option (RpcCoroSlot M)
  inFlight : List (Completion M)
  finished : List (Completion M)

def CallSystem.view (S : CallSystem M) : CallView M :=
  ⟨S.issued, S.pending, S.table, S.inFlight, S.finished⟩

/-- What an event may do to the view. -/
inductive CallMove [DecidableEq M] (v : CallView M) : CallEvent M → CallView M → Prop
  | stay (e : CallEvent M) : CallMove v e v
  | drawn : CallMove v .draw
      { v with issued := v.issued + 1, pending := callIdOf v.issued :: v.pending }
  | bound (i : Nat) (args : BindArgs M) (fails : AllocPoint → Bool) (iNow : Int)
      (s : RpcCoroSlot M) (hi : i ∈ v.pending) (hnone : v.table i = none)
      (hs : s.unlinked = args.slot i) : CallMove v (.bind i args fails iNow)
      { v with pending := v.pending.erase i, table := Function.update v.table i (some s) }
  | bindFailed (i : Nat) (args : BindArgs M) (fails : AllocPoint → Bool) (iNow : Int) :
      CallMove v (.bind i args fails iNow) { v with pending := v.pending.erase i }
  | claimed (i : Nat) (sid : Int) (fails : AllocPoint → Bool) (s s' : RpcCoroSlot M)
      (hs : v.table i = some s)
      (hs' : s'.unlinked = { s.unlinked with sessionId := sid, awaitingConnect := false }) :
      CallMove v (.claim i sid fails) { v with table := Function.update v.table i (some s') }
  | marked (i : Nat) (s : RpcCoroSlot M) (hs : v.table i = some s) : CallMove v (.mark i)
      { v with table := Function.update v.table i (some { s with awaitingConnect := true }) }
  | woken (i : Nat) (iCode : Int) (s t : RpcCoroSlot M) (hs : v.table i = some s)
      (ht : t.call = s.call) : CallMove v (.wake i iCode)
      { v with
        table := Function.update v.table i none, inFlight := v.inFlight ++ [⟨t, iCode, none⟩] }
  | delivered (i iId : Nat) (bytes : List UInt8) (m : M) (sid : Int) (s t : RpcCoroSlot M)
      (hi : replyCallId bytes = some i) (hs : v.table i = some s) (ht : t.call = s.call)
      (hm : (⟨m, sid, iId⟩ : TakeFilter M).Matches s) : CallMove v (.deliver iId bytes m sid)
      { v with
        table := Function.update v.table i none
        inFlight := v.inFlight ++ [⟨t, 0, some ⟨m, sid, iId, i, bytes.drop 8⟩⟩] }
  | taken (e : CallEvent M) (ids : List Nat) (ts : List (RpcCoroSlot M))
      (code : RpcCoroSlot M → Int) (hnodup : ids.Nodup)
      (hids : ts.map RpcCoroSlot.callId = ids)
      (hts : ∀ t ∈ ts, ∃ s, v.table t.callId = some s ∧ t.call = s.call)
      (hcode : ∀ t, code t ≠ 0) : CallMove v e
      { v with
        table := eraseSlots v.table ids
        inFlight := v.inFlight ++ ts.map fun t => ⟨t, code t, none⟩ }
  | abandoned (i : Nat) : CallMove v (.abandon i)
      { v with table := Function.update v.table i none }
  | finished (n : Nat) (c : Completion M) (hc : v.inFlight[n]? = some c) : CallMove v (.finish n)
      { v with inFlight := v.inFlight.eraseIdx n, finished := v.finished ++ [c] }
  | lost (n : Nat) : CallMove v (.lose n) { v with inFlight := v.inFlight.eraseIdx n }

/-- The event does not bind a number that is still in the table. -/
def FreshBind (S : CallSystem M) : CallEvent M → Prop
  | .bind i _ _ _ => i ∈ S.pending → S.table i = none
  | _ => True

section Moves

variable [DecidableEq M]

variable {e : CallEvent M} {v : CallView M}

omit [DecidableEq M] in
theorem TableInv.callId (h : TableInv S) {i : Nat} {s : RpcCoroSlot M} (hs : S.table i = some s) :
    s.callId = i :=
  (h.shard _).core.callId i s hs

/-- `TakeRpcSlot` and the completion it leads to. -/
theorem take_move (h : TableInv S) (i : Nat) (filter : Option (TakeFilter M)) (iCode : Int)
    (reply : Option (Reply M)) :
    ∃ S', S.take i filter iCode reply = some S' ∧ TableInv S' ∧
      (S' = S ∨ ∃ s t, S.table i = some s ∧ t.call = s.call ∧ (∀ f ∈ filter, f.Matches s) ∧
        S'.view = { S.view with
          table := Function.update S.table i none
          inFlight := S.inFlight ++ [⟨t, iCode, reply⟩] }) := by
  cases hs : (S.shards (shardOf i)).slots i with
  | none => exact ⟨S, by rw [CallSystem.take, takeRpcSlot_missing hs]; rfl, h, Or.inl rfl⟩
  | some s =>
    by_cases hf : ∀ f ∈ filter, f.Matches s
    · obtain ⟨sh', htake, hsh', hslots⟩ := takeRpcSlot_spec (h.shard (shardOf i)) S.guards hs hf
      obtain ⟨hinv, htable⟩ := setShard_update h hsh' hslots
      have hstep : S.take i filter iCode reply = some { S.setShard (shardOf i) sh' with
          guards := (armRpcGuard S.guards s.detached).1
          inFlight := S.inFlight ++ [⟨(armRpcGuard S.guards s.detached).2, iCode, reply⟩] } := by
        rw [CallSystem.take, htake]
        rfl
      refine ⟨_, hstep, ⟨hinv.shard, hinv.home⟩,
        Or.inr ⟨s, (armRpcGuard S.guards s.detached).2, hs, ?_, hf, ?_⟩⟩
      · rw [armRpcGuard_call, detached_call]
      · rw [← htable]
        rfl
    · refine ⟨S, ?_, h, Or.inl rfl⟩
      cases filter with
      | none => exact absurd (fun f hf => by cases hf) hf
      | some f =>
        have hnot : ¬ f.Matches s := fun hm => hf fun f' hf' => by
          obtain rfl := Option.some.inj hf'
          exact hm
        rw [CallSystem.take, takeRpcSlot_mismatch hs hnot]
        rfl

omit [DecidableEq M] in
theorem sweepCode_ne_zero (s : RpcCoroSlot M) : sweepCode s ≠ 0 := by
  unfold sweepCode
  split <;> decide

/-- A loop under one shard's lock that takes the slots `ids` out. -/
theorem taken_move (h : TableInv S) (e : CallEvent M) {j : Nat} {ids : List Nat} (g : Guards)
    (code : RpcCoroSlot M → Int) (hsh : ShardInv sh)
    (hslots : sh.slots = eraseSlots (S.shards j).slots ids)
    (hlive : ∀ i ∈ ids, ((S.shards j).slots i).isSome) (hnodup : ids.Nodup)
    (hcode : ∀ t, code t ≠ 0) : let ts := (armAll S.guards (detachedSlots (S.shards j).slots ids)).2
    let S' := { S.setShard j sh with
      guards := g, inFlight := S.inFlight ++ ts.map fun t => ⟨t, code t, none⟩ }
    TableInv S' ∧ CallMove S.view e S'.view := by
  intro ts S'
  obtain ⟨hinv, htable⟩ := setShard_erase h hsh hslots hlive
  obtain ⟨hids, hts⟩ := taken_calls S.guards (fun i s hs => (h.shard j).core.callId i s hs) hlive
  refine ⟨⟨hinv.shard, hinv.home⟩, ?_⟩
  have hview : S'.view = { S.view with
      table := eraseSlots S.table ids
      inFlight := S.inFlight ++ ts.map fun t => ⟨t, code t, none⟩ } := by
    rw [← htable]
    rfl
  rw [hview]
  refine .taken e ids ts code hnodup hids (fun t ht => ?_) hcode
  obtain ⟨s, hs, hcall⟩ := hts t ht
  exact ⟨s, (h.table_of_shard hs).2, hcall⟩

/-- **The call table refines its abstract view.** From a state that satisfies the invariant, an
event that binds no number twice is defined, keeps the invariant, and is a move of the view. -/
theorem callStep_move (h : TableInv S) (hfresh : FreshBind S e) :
    ∃ S', callStep S e = some S' ∧ TableInv S' ∧ CallMove S.view e S'.view := by
  cases e with
  | draw => exact ⟨_, rfl, ⟨h.shard, h.home⟩, .drawn⟩
  | bind i args fails iNow =>
    simp only [callStep]
    by_cases hi : i ∈ S.pending
    · have hnone : (S.shards (shardOf i)).slots i = none := hfresh hi
      obtain ⟨sh', ok, hbind, hout⟩ :=
        bindRpcCall_spec (h.shard (shardOf i)) fails iNow args hnone
      rw [if_pos hi, hbind, Option.map_some]
      cases ok with
      | false =>
        obtain ⟨hinv, htable⟩ := setShard_update h hout.1 hout.2
        rw [Function.update_eq_self_iff.2 (show none = S.table i from hnone.symm)] at htable
        refine ⟨_, rfl, ⟨hinv.shard, hinv.home⟩, ?_⟩
        change CallMove S.view _ { S.view with
          pending := S.pending.erase i, table := (S.setShard (shardOf i) sh').table }
        rw [htable]
        exact .bindFailed i args fails iNow
      | true =>
        obtain ⟨hsh', s, hs, hslots⟩ := hout
        obtain ⟨hinv, htable⟩ := setShard_update h hsh' hslots
        refine ⟨_, rfl, ⟨hinv.shard, hinv.home⟩, ?_⟩
        change CallMove S.view _ { S.view with
          pending := S.pending.erase i, table := (S.setShard (shardOf i) sh').table }
        rw [htable]
        exact .bound i args fails iNow s hi hnone hs
    · rw [if_neg hi]
      exact ⟨S, rfl, h, .stay _⟩
  | claim i sid fails =>
    simp only [callStep]
    cases hs : (S.shards (shardOf i)).slots i with
    | none =>
      refine ⟨S, ?_, h, .stay _⟩
      rw [claimRpcSend, hs]
      simp only [Option.map_some, CallSystem.setShard, Function.update_eq_self]
    | some s =>
      rcases claimRpcSend_spec (h.shard (shardOf i)) fails sid hs with
        hclaim | ⟨sh', s', hclaim, hsh', hslots, hs'⟩
      · refine ⟨S, ?_, h, .stay _⟩
        simp only [hclaim, Option.map_some, CallSystem.setShard, Function.update_eq_self]
      · obtain ⟨hinv, htable⟩ := setShard_update h hsh' hslots
        refine ⟨_, by rw [hclaim, Option.map_some], hinv, ?_⟩
        change CallMove S.view _ { S.view with table := (S.setShard (shardOf i) sh').table }
        rw [htable]
        exact .claimed i sid fails s s' hs hs'
  | mark i =>
    refine ⟨_, rfl, ?_⟩
    have hsh' := markRpcAwaitingConnect_shardInv (h.shard (shardOf i)) i
    cases hs : (S.shards (shardOf i)).slots i with
    | none =>
      simp only [markRpcAwaitingConnect, hs, CallSystem.setShard, Function.update_eq_self]
      exact ⟨h, .stay _⟩
    | some s =>
      simp only [markRpcAwaitingConnect, hs] at hsh' ⊢
      obtain ⟨hinv, htable⟩ := setShard_update h hsh' rfl
      refine ⟨hinv, ?_⟩
      change CallMove S.view _ { S.view with table := CallSystem.table _ }
      rw [htable]
      exact .marked i s hs
  | wake i iCode =>
    obtain ⟨S', htake, hinv, rfl | ⟨s, t, hs, ht, -, hview⟩⟩ := take_move h i none iCode none
    · exact ⟨_, htake, hinv, .stay _⟩
    · exact ⟨S', htake, hinv, hview ▸ .woken i iCode s t hs ht⟩
  | deliver iId bytes m sid =>
    simp only [callStep]
    cases hi : replyCallId bytes with
    | none => exact ⟨S, rfl, h, .stay _⟩
    | some i =>
      obtain ⟨S', htake, hinv, rfl | ⟨s, t, hs, ht, hf, hview⟩⟩ :=
        take_move h i (some ⟨m, sid, iId⟩) 0 (some ⟨m, sid, iId, i, bytes.drop 8⟩)
      · exact ⟨_, htake, hinv, .stay _⟩
      · exact ⟨S', htake, hinv,
          hview ▸ .delivered i iId bytes m sid s t hi hs ht (hf _ rfl)⟩
  | sweep j iNow fails =>
    simp only [callStep]
    by_cases hj : j < callShards
    · obtain ⟨st', e, ids, hrun, hsh', hlive, hnodup, hslots, hg, hfired, -, -⟩ :=
        sweepShard_spec fails iNow ⟨S.shards j, S.guards, []⟩ (h.shard j)
      rw [if_pos hj, hrun, Option.map_some]
      obtain ⟨hinv, hmove⟩ := taken_move h (.sweep j iNow fails) st'.guards sweepCode hsh' hslots
        hlive hnodup sweepCode_ne_zero
      refine ⟨_, rfl, ?_⟩
      rw [hfired]
      exact ⟨hinv, hmove⟩
    · rw [if_neg hj]
      exact ⟨S, rfl, h, .stay _⟩
  | fail j m sid =>
    simp only [callStep]
    by_cases hj : j < callShards
    · rw [if_pos hj]
      cases hl : (S.shards j).sessions (m, sid) with
      | none =>
        refine ⟨S, ?_, h, .stay _⟩
        rw [failBatch_missing hl]
        simp [CallSystem.setShard]
      | some l =>
        obtain ⟨sh', hbatch, hsh', hnodup, hslots, -⟩ :=
          failBatch_spec (h.shard j) S.guards hl
        have hlive : ∀ i ∈ (l.take failBatchSize).map Node.val,
            ((S.shards j).slots i).isSome := by
          intro i hi
          obtain ⟨n, hn, rfl⟩ := List.mem_map.1 hi
          obtain ⟨s, hs, -⟩ := (h.shard j).core.session_slot (k := (m, sid)) (n := n) (by
            rw [RpcCallShard.sessionIndex, hl]; exact List.mem_of_mem_take hn)
          rw [hs]
          rfl
        obtain ⟨hinv, hmove⟩ := taken_move h (.fail j m sid) _ (fun _ => oiErrConnect) hsh'
          hslots hlive hnodup (fun _ => by decide)
        rw [hbatch, Option.map_some]
        exact ⟨_, rfl, hinv, hmove⟩
    · rw [if_neg hj]
      exact ⟨S, rfl, h, .stay _⟩
  | abandon i =>
    simp only [callStep]
    cases hs : (S.shards (shardOf i)).slots i with
    | none =>
      refine ⟨S, ?_, h, .stay _⟩
      rw [abandonRpcCall, hs]
      simp only [Option.map_some, CallSystem.setShard, Function.update_eq_self]
    | some s =>
      obtain ⟨sh', hab, hsh', hslots⟩ := abandonRpcCall_spec (h.shard (shardOf i)) hs
      obtain ⟨hinv, htable⟩ := setShard_update h hsh' hslots
      refine ⟨_, by rw [hab, Option.map_some], hinv, ?_⟩
      change CallMove S.view _ { S.view with table := (S.setShard (shardOf i) sh').table }
      rw [htable]
      exact .abandoned i
  | finish n =>
    simp only [callStep]
    cases hc : S.inFlight[n]? with
    | none => exact ⟨S, rfl, h, .stay _⟩
    | some c => exact ⟨_, rfl, ⟨h.shard, h.home⟩, .finished n c hc⟩
  | lose n => exact ⟨_, rfl, ⟨h.shard, h.home⟩, .lost n⟩

/-! ## Where a call number is -/

/-- The completions of call `i` in a list. -/
def completionsOf (i : Nat) (cs : List (Completion M)) : Nat :=
  cs.countP fun c => c.slot.callId = i

/-- How often call `i` is in the system: waiting to be bound, in the table, or on its way to, or
past, its completion. -/
def CallView.weight (v : CallView M) (i : Nat) : Nat :=
  v.pending.count i + (if (v.table i).isSome then 1 else 0) + completionsOf i v.inFlight +
    completionsOf i v.finished

omit [DecidableEq M] in
theorem completionsOf_append (i : Nat) (cs ds : List (Completion M)) :
    completionsOf i (cs ++ ds) = completionsOf i cs + completionsOf i ds :=
  List.countP_append

omit [DecidableEq M] in
theorem completionsOf_single (i : Nat) (c : Completion M) :
    completionsOf i [c] = if c.slot.callId = i then 1 else 0 := by
  simp [completionsOf, List.countP_singleton]

omit [DecidableEq M] in
theorem completionsOf_taken (i : Nat) (ts : List (RpcCoroSlot M)) (code : RpcCoroSlot M → Int) :
    completionsOf i (ts.map fun t => ⟨t, code t, none⟩) =
      (ts.map RpcCoroSlot.callId).count i := by
  rw [completionsOf, List.countP_map, List.count, List.countP_map]
  refine List.countP_congr fun t _ => ?_
  simp

omit [DecidableEq M] in
/-- Taking the `n`-th completion out of a list. -/
theorem countP_eraseIdx (q : Completion M → Bool) {cs : List (Completion M)} {n : Nat}
    {c : Completion M} (hc : cs[n]? = some c) :
    (cs.eraseIdx n).countP q + [c].countP q = cs.countP q := by
  obtain ⟨hn, rfl⟩ := List.getElem?_eq_some_iff.1 hc
  conv_rhs => rw [← List.take_append_drop n cs, List.drop_eq_getElem_cons hn]
  rw [List.eraseIdx_eq_take_drop_succ, List.countP_append, List.countP_append]
  change _ = _ + ([cs[n]] ++ cs.drop (n + 1)).countP q
  rw [List.countP_append]
  omega

omit [DecidableEq M] in
theorem completionsOf_eraseIdx (i : Nat) {cs : List (Completion M)} {n : Nat} {c : Completion M}
    (hc : cs[n]? = some c) :
    completionsOf i (cs.eraseIdx n) + completionsOf i [c] = completionsOf i cs :=
  countP_eraseIdx _ hc

omit [DecidableEq M] in
theorem completionsOf_eraseIdx_le (i : Nat) (cs : List (Completion M)) (n : Nat) :
    completionsOf i (cs.eraseIdx n) ≤ completionsOf i cs :=
  List.Sublist.countP_le (List.eraseIdx_sublist cs n)

omit [DecidableEq M] in
theorem isSome_update (table : Nat → Option (RpcCoroSlot M)) (i : Nat)
    (x : Option (RpcCoroSlot M)) (j : Nat) :
    (if (Function.update table i x j).isSome then 1 else 0) =
      if j = i then (if x.isSome then 1 else 0) else (if (table j).isSome then 1 else 0) := by
  by_cases hj : j = i
  · subst hj
    rw [Function.update_self, if_pos rfl]
  · rw [Function.update_of_ne hj, if_neg hj]

omit [DecidableEq M] in
/-- A completion taken from the table moves weight from the table to the waiting completions. -/
theorem weight_take {i : Nat} {s t : RpcCoroSlot M} (hs : v.table i = some s) (hid : s.callId = i)
    (ht : t.call = s.call) (iCode : Int) (reply : Option (Reply M)) (j : Nat) :
    ({ v with
      table := Function.update v.table i none
      inFlight := v.inFlight ++ [⟨t, iCode, reply⟩] } : CallView M).weight j = v.weight j := by
  have htid : t.callId = i := (callId_of_call ht).trans hid
  simp only [CallView.weight, completionsOf_append, completionsOf_single, isSome_update, htid]
  by_cases hj : j = i
  · subst hj
    simp [hs]
    omega
  · simp [hj, Ne.symm hj]

variable {v' : CallView M}

/-- A draw adds one to the weight of the number drawn. No other event adds weight. -/
theorem weight_move (h : CallMove v e v') (hid : ∀ j s, v.table j = some s → s.callId = j) :
    (v'.issued = v.issued ∧ ∀ j, v'.weight j ≤ v.weight j) ∨
      (v'.issued = v.issued + 1 ∧
        ∀ j, v'.weight j = v.weight j + if callIdOf v.issued = j then 1 else 0) := by
  cases h with
  | stay => exact Or.inl ⟨rfl, fun j => le_refl _⟩
  | drawn =>
    refine Or.inr ⟨rfl, fun j => ?_⟩
    simp only [CallView.weight, List.count_cons, beq_iff_eq]
    omega
  | bound i args fails iNow s hi hnone hs =>
    refine Or.inl ⟨rfl, fun j => ?_⟩
    simp only [CallView.weight, isSome_update]
    by_cases hj : j = i
    · subst hj
      have hpos := List.count_pos_iff.2 hi
      simp only [List.count_erase_self, if_true, Option.isSome_some, hnone, Option.isSome_none]
      omega
    · simp [hj, List.count_erase_of_ne hj]
  | bindFailed i args fails iNow =>
    refine Or.inl ⟨rfl, fun j => ?_⟩
    have hle : (v.pending.erase i).count j ≤ v.pending.count j :=
      List.erase_sublist.count_le j
    simp only [CallView.weight]
    omega
  | claimed i sid fails s s' hs hs' | marked i s hs =>
    refine Or.inl ⟨rfl, fun j => ?_⟩
    simp only [CallView.weight, isSome_update]
    by_cases hj : j = i
    · subst hj
      simp [hs]
    · simp [hj]
  | woken i iCode s t hs ht =>
    exact Or.inl ⟨rfl, fun j => le_of_eq (weight_take hs (hid i s hs) ht iCode none j)⟩
  | delivered i iId bytes m sid s t hi hs ht hm =>
    exact Or.inl ⟨rfl, fun j => le_of_eq (weight_take hs (hid i s hs) ht 0 _ j)⟩
  | taken _ ids ts code hnodup hids hts =>
    refine Or.inl ⟨rfl, fun j => ?_⟩
    simp only [CallView.weight, completionsOf_append, completionsOf_taken, hids, eraseSlots]
    by_cases hj : j ∈ ids
    · obtain ⟨t, ht, rfl⟩ := List.mem_map.1 (hids ▸ hj)
      obtain ⟨s, hs, -⟩ := hts t ht
      rw [List.count_eq_one_of_mem hnodup hj]
      simp [hj, hs]
      omega
    · rw [List.count_eq_zero.2 hj]
      simp [hj]
  | abandoned i =>
    refine Or.inl ⟨rfl, fun j => ?_⟩
    simp only [CallView.weight, isSome_update]
    by_cases hj : j = i
    · subst hj
      simp
    · simp [hj]
  | finished n c hc =>
    refine Or.inl ⟨rfl, fun j => ?_⟩
    have hsplit := completionsOf_eraseIdx j hc
    simp only [CallView.weight, completionsOf_append]
    omega
  | lost n =>
    refine Or.inl ⟨rfl, fun j => ?_⟩
    have hle := completionsOf_eraseIdx_le j v.inFlight n
    simp only [CallView.weight]
    omega

/-- No number is in the system twice, and every number in it has been drawn. -/
structure Tracked (v : CallView M) : Prop where
  le_one : ∀ i, v.weight i ≤ 1
  drawn : ∀ i, 0 < v.weight i → ∃ k < v.issued, i = callIdOf k

omit [DecidableEq M] in
theorem init_tracked : Tracked (CallSystem.init M).view :=
  have hzero : ∀ i, (CallSystem.init M).view.weight i = 0 := fun _ => rfl
  ⟨fun i => by rw [hzero]; exact Nat.zero_le 1, fun i hi => by rw [hzero] at hi; cases hi⟩

omit [DecidableEq M] in
/-- The first `2 ^ 63` numbers drawn are different. -/
theorem callIdOf_inj {a b : Nat} (ha : a < 2 ^ 63) (hb : b < 2 ^ 63)
    (h : callIdOf a = callIdOf b) : a = b := by
  simp only [callIdOf, rpcReqMask] at h
  omega

omit [DecidableEq M] in
/-- The next number is not in the system yet. -/
theorem Tracked.weight_new (hv : Tracked v) (hbound : v.issued < 2 ^ 63) :
    v.weight (callIdOf v.issued) = 0 := by
  by_contra hne
  obtain ⟨k, hk, hcall⟩ := hv.drawn _ (Nat.pos_of_ne_zero hne)
  have := callIdOf_inj hbound (by omega) hcall
  omega

/-- A move that draws no more than `2 ^ 63` numbers keeps them apart. -/
theorem Tracked.move (hv : Tracked v) (h : CallMove v e v')
    (hid : ∀ j s, v.table j = some s → s.callId = j) (hbound : v'.issued ≤ 2 ^ 63) :
    Tracked v' := by
  rcases weight_move h hid with ⟨hissued, hle⟩ | ⟨hissued, heq⟩
  · refine ⟨fun i => (hle i).trans (hv.le_one i), fun i hi => ?_⟩
    rw [hissued]
    exact hv.drawn i (lt_of_lt_of_le hi (hle i))
  · -- the number drawn is a new one
    have hnew := hv.weight_new (show v.issued < 2 ^ 63 by omega)
    refine ⟨fun i => ?_, fun i hi => ?_⟩
    · rw [heq]
      split
      · rename_i hi
        rw [← hi, hnew]
      · exact hv.le_one i
    · rw [heq] at hi
      split at hi
      · rename_i hcall
        exact ⟨v.issued, by omega, hcall.symm⟩
      · obtain ⟨k, hk, hcall⟩ := hv.drawn i hi
        exact ⟨k, by omega, hcall⟩

omit [DecidableEq M] in
/-- While numbers are kept apart, none is bound that is still in the table. -/
theorem Tracked.freshBind (h : Tracked S.view) (e : CallEvent M) : FreshBind S e := by
  cases e with
  | bind i args fails iNow =>
    intro hi
    by_contra hne
    have hpos : 0 < S.pending.count i := List.count_pos_iff.2 hi
    have hle := h.le_one i
    have hsome : (S.table i).isSome = true := Option.isSome_iff_ne_none.2 hne
    simp only [CallView.weight, CallSystem.view, hsome, if_true] at hle
    omega
  | _ => trivial

/-- How many numbers a run draws. -/
def drawCount : List (CallEvent M) → Nat
  | [] => 0
  | .draw :: es => drawCount es + 1
  | _ :: es => drawCount es

omit [DecidableEq M] in
theorem drawCount_cons (e : CallEvent M) (es : List (CallEvent M)) :
    drawCount es ≤ drawCount (e :: es) := by
  cases e <;> simp [drawCount]

theorem issued_le (h : CallMove v e v') (es : List (CallEvent M)) :
    v'.issued + drawCount es ≤ v.issued + drawCount (e :: es) := by
  have hle := drawCount_cons e es
  cases h with
  | drawn =>
    simp only [drawCount]
    omega
  | _ => simpa using hle

/-- A run that draws at most `2 ^ 63` numbers binds none that is still in the table. -/
theorem along_freshBind :
    ∀ (es : List (CallEvent M)) {S : CallSystem M}, TableInv S → Tracked S.view →
      S.issued + drawCount es ≤ 2 ^ 63 → Along callStep FreshBind S es
  | [], _, _, _, _ => trivial
  | e :: es, S, hS, htrack, hbound => by
      refine ⟨htrack.freshBind e, fun S' hstep => ?_⟩
      obtain ⟨S₁, hstep₁, hS₁, hmove⟩ := callStep_move hS (htrack.freshBind e)
      obtain rfl := Option.some.inj (hstep.symm.trans hstep₁)
      have hissued := issued_le hmove es
      refine along_freshBind es hS₁ (htrack.move hmove (fun j s => hS.callId) ?_) ?_
      · exact le_trans (Nat.le_add_right _ _) (hissued.trans hbound)
      · exact hissued.trans hbound

end Moves

/-! ## The representation of the table -/

section Representation

variable [DecidableEq M]

/-- What a shard's indexes say about its slots: every slot is in exactly one session list, once,
and if it has an expiry, in exactly one bucket, once, the one of its deadline; every entry is of a
live slot; no list and no bucket is empty. -/
structure Represented (sh : RpcCallShard M) : Prop where
  session_once : ∀ i s, sh.slots i = some s → ∀ k,
    Linked.occurrences id sh.sessionIndex k i = if k = s.key then 1 else 0
  expiry_once : ∀ i s, sh.slots i = some s → s.hasExpiry = true →
    ∃ b, ∃ n ∈ bucketIndex sh.expire b, n.val.callId = i ∧
      b = n.val.deadlineMilliseconds.tdiv sweepMs ∧
      ∀ b', Linked.occurrences RpcExpire.callId (bucketIndex sh.expire) b' i =
        if b' = b then 1 else 0
  session_entries : ∀ k l, sh.sessions k = some l → l ≠ [] ∧ ∀ n ∈ l, (sh.slots n.val).isSome
  expire_entries : ∀ b q, (b, q) ∈ sh.expire →
    q ≠ [] ∧ ∀ n ∈ q, (sh.slots n.val.callId).isSome
  expire_keys : OrdMap.Sorted sh.expire

theorem ShardInv.represented (h : ShardInv sh) : Represented sh := by
  refine ⟨fun i s hs k => ?_, fun i s hs hexp => ?_, fun k l hl => ⟨?_, fun n hn => ?_⟩,
    fun b q hq => ⟨h.expire_ne b q hq, fun n hn => ?_⟩, h.sorted⟩
  · exact h.core.session_linked.occurrences_eq (a := s.sessionIndex)
      (by simp only [hs, Option.bind_some, h.core.sessionPlace_eq hs]) k
  · obtain ⟨n, hn, -, hcall⟩ := h.core.expiry_node hs hexp
    refine ⟨s.expiryBucket, n, hn, hcall, h.core.bucket_eq _ n hn, fun b' => ?_⟩
    exact h.core.expiry_linked.occurrences_eq (a := s.expiry)
      (by simp only [hs, Option.bind_some, RpcCoroSlot.expiryPlace, if_pos hexp]) b'
  · rintro rfl
    exact h.sessions_ne k hl
  · have hmem : n ∈ sh.sessionIndex k := by rw [RpcCallShard.sessionIndex, hl]; exact hn
    obtain ⟨s, hs, -⟩ := h.core.session_slot hmem
    rw [hs]
    rfl
  · have hmem : n ∈ bucketIndex sh.expire b := by
      rw [bucketIndex, OrdMap.find_of_mem h.sorted hq]
      exact hn
    obtain ⟨s, hs, -⟩ := h.core.expiry_slot hmem
    rw [hs]
    rfl

/-- **The wait table is well represented.** A run that never binds a number still in the table
meets no undefined behaviour, whatever allocations fail, and leaves every shard well represented.
A run that draws at most `2 ^ 63` numbers never binds a number still in the table. -/
theorem wait_table_represented (events : List (CallEvent M)) :
    (Along callStep FreshBind (CallSystem.init M) events →
      ∃ S, runFrom callStep (CallSystem.init M) events = some S ∧
        ∀ j, Represented (S.shards j)) ∧
    (drawCount events ≤ 2 ^ 63 → Along callStep FreshBind (CallSystem.init M) events) := by
  constructor
  · intro halong
    obtain ⟨S, hrun, hS⟩ := runFrom_progress (I := TableInv) (fun S e hS hP => by
      obtain ⟨S', hstep, hS', -⟩ := callStep_move hS hP
      exact ⟨S', hstep, hS'⟩) init_tableInv halong
    exact ⟨S, hrun, fun j => (hS.shard j).represented⟩
  · intro hbound
    exact along_freshBind events init_tableInv init_tracked (by
      rw [show (CallSystem.init M).issued = 0 from rfl]
      omega)

end Representation

/-! ## When the numbers wrap -/

/-- A call of session `5` without a timeout. -/
def plainCall : BindArgs Unit := ⟨(), 5, 0, false, false, 0, false, false, none, none⟩

theorem setShard_shards_self (S : CallSystem M) (j : Nat) (sh : RpcCallShard M) :
    (S.setShard j sh).shards j = sh := by
  simp only [CallSystem.setShard, Function.update_self]

theorem callStep_bind [DecidableEq M] {args : BindArgs M} {fails : AllocPoint → Bool} {iNow : Int}
    {ok : Bool} (hi : i ∈ S.pending)
    (h : bindRpcCall fails iNow (S.shards (shardOf i)) i args = some (sh, ok)) :
    callStep S (.bind i args fails iNow) =
      some { S.setShard (shardOf i) sh with pending := S.pending.erase i } := by
  simp only [callStep, if_pos hi, h, Option.map_some]

/-- Binding one number twice leaves two entries of it in the session's list. -/
theorem plainCall_twice :
    ∃ sh₁ sh₂ s, bindRpcCall (fun _ => false) 0 (RpcCallShard.empty Unit) 1 plainCall =
        some (sh₁, true) ∧
      bindRpcCall (fun _ => false) 0 sh₁ 1 plainCall = some (sh₂, true) ∧
      sh₂.slots 1 = some s ∧ s.key = ((), 5) ∧
      sh₂.sessions ((), 5) = some [⟨0, 1⟩, ⟨1, 1⟩] :=
  ⟨_, _, _, rfl, rfl, rfl, rfl, rfl⟩

/-- `n` calls of `BindRpcCall` in a row, each failing to allocate its slot. -/
def failedBinds : Nat → Nat → List (CallEvent Unit)
  | _, 0 => []
  | k, n + 1 =>
      .draw :: .bind (callIdOf k) plainCall (fun a => a == .slot) 0 :: failedBinds (k + 1) n

/-- Failed calls use numbers up and change nothing else. -/
theorem runFrom_failedBinds :
    ∀ (n : Nat) (S : CallSystem Unit), S.pending = [] →
      runFrom callStep S (failedBinds S.issued n) = some { S with issued := S.issued + n }
  | 0, S, _ => rfl
  | n + 1, S, hS => by
      have hdraw : callStep S .draw =
          some { S with issued := S.issued + 1, pending := [callIdOf S.issued] } := by
        rw [callStep, hS]
      have hbind : callStep
          { S with issued := S.issued + 1, pending := [callIdOf S.issued] }
          (.bind (callIdOf S.issued) plainCall (fun a => a == .slot) 0) =
          some { S with issued := S.issued + 1 } := by
        rw [callStep_bind List.mem_cons_self rfl, List.erase_cons_head, ← hS]
        simp only [CallSystem.setShard, Function.update_eq_self]
      refine runFrom_cons.2 ⟨_, hdraw, runFrom_cons.2 ⟨_, hbind, ?_⟩⟩
      rw [Nat.add_comm n 1, ← Nat.add_assoc]
      exact runFrom_failedBinds n { S with issued := S.issued + 1 } hS

/-- After `2 ^ 63` further draws the number of a call that still waits comes up again.
`mSlots.emplace` then finds the waiting slot, and its session list gets a second entry for it. -/
theorem wait_table_wraps :
    ∃ (events : List (CallEvent Unit)) (S : CallSystem Unit),
      runFrom callStep (CallSystem.init Unit) events = some S ∧ ¬ Represented (S.shards 1) := by
  obtain ⟨sh₁, sh₂, s, h₁, h₂, hs, hkey, hlist⟩ := plainCall_twice
  obtain ⟨N, hN⟩ : ∃ N : Nat, N = 2 ^ 63 - 1 := ⟨_, rfl⟩
  let bind : CallEvent Unit := .bind 1 plainCall (fun _ => false) 0
  let S₁ : CallSystem Unit :=
    { (CallSystem.init Unit).setShard (shardOf 1) sh₁ with issued := 1 }
  let S₂ : CallSystem Unit := { S₁ with issued := 1 + N + 1, pending := [1] }
  have hfirst : runFrom callStep (CallSystem.init Unit) [.draw, bind] = some S₁ := by
    have hstep := callStep_bind (S := { CallSystem.init Unit with issued := 1, pending := [1] })
      List.mem_cons_self h₁
    exact runFrom_cons.2 ⟨_, rfl, runFrom_cons.2 ⟨_, hstep, rfl⟩⟩
  have hfailed : runFrom callStep S₁ (failedBinds 1 N) = some { S₁ with issued := 1 + N } :=
    runFrom_failedBinds N S₁ rfl
  have hwrap : callStep { S₁ with issued := 1 + N } .draw = some S₂ := by
    have hid : callIdOf (1 + N) = 1 := by
      rw [callIdOf, rpcReqMask]
      omega
    simp only [callStep, hid]
    rfl
  have hshard₁ : S₂.shards (shardOf 1) = sh₁ :=
    setShard_shards_self (CallSystem.init Unit) (shardOf 1) sh₁
  have hlast := callStep_bind (S := S₂) List.mem_cons_self (hshard₁.symm ▸ h₂)
  refine ⟨[.draw, bind] ++ (failedBinds 1 N ++ [.draw, bind]), _,
    runFrom_append.2 ⟨S₁, hfirst, runFrom_append.2 ⟨_, hfailed,
      runFrom_cons.2 ⟨S₂, hwrap, runFrom_cons.2 ⟨_, hlast, rfl⟩⟩⟩⟩, fun hrep => ?_⟩
  have hshard₂ : (S₂.setShard (shardOf 1) sh₂).shards 1 = sh₂ := setShard_shards_self _ 1 _
  change Represented ((S₂.setShard (shardOf 1) sh₂).shards 1) at hrep
  rw [hshard₂] at hrep
  have honce := hrep.session_once 1 s hs ((), 5)
  rw [if_pos hkey.symm, Linked.occurrences, RpcCallShard.sessionIndex, hlist] at honce
  exact absurd honce (by decide)

/-- A call with a timeout, bound while the bucket's allocation fails, and bound again. -/
theorem wait_table_represented_after_failure :
    let events : List (CallEvent Unit) :=
      [.draw, .bind 1 { plainCall with timeoutMilliseconds := 700 } (fun a => a == .bucket) 1000,
        .draw, .bind 2 { plainCall with timeoutMilliseconds := 700 } (fun _ => false) 1000]
    ∃ S, runFrom callStep (CallSystem.init Unit) events = some S ∧
      ∀ j, Represented (S.shards j) := by
  intro events
  obtain ⟨hrun, hbound⟩ := wait_table_represented events
  exact hrun (hbound (by decide))

end OpenIdea.Rpc
