import OpenIdea.Rpc.TableInvariant

/-!
# The loops of the wait table

`FailRpcCalls` takes the slots of one session out in batches, `SweepRpcCalls` takes the expired
slots out bucket by bucket. Both loops erase while they iterate. Their specifications say which
slots leave the table, in which order and in which state, and that the invariant holds when the lock
is released, also when the scan of the sweep is cut short by an allocation failure
(`failBatch_spec`, `sweepShard_spec`).
-/

set_option autoImplicit false

namespace OpenIdea.Rpc

open OpenIdea.Lib OpenIdea.Lib.LinkedIndex

variable {M : Type}

/-! ## Slots on their way out -/

/-- Arm the guards of slots one after another. -/
def armAll : Guards → List (RpcCoroSlot M) → Guards × List (RpcCoroSlot M)
  | g, [] => (g, [])
  | g, s :: ss =>
      let armed := armRpcGuard g s
      let rest := armAll armed.1 ss
      (rest.1, armed.2 :: rest.2)

theorem armAll_append (g : Guards) (ss ts : List (RpcCoroSlot M)) :
    armAll g (ss ++ ts) =
      ((armAll (armAll g ss).1 ts).1, (armAll g ss).2 ++ (armAll (armAll g ss).1 ts).2) := by
  induction ss generalizing g with
  | nil => rfl
  | cons s ss ih => simp only [List.cons_append, armAll, ih]

/-- The slots with the given numbers, as they leave the table. -/
def detachedSlots (slots : Nat → Option (RpcCoroSlot M)) (ids : List Nat) :
    List (RpcCoroSlot M) :=
  ids.filterMap fun i => (slots i).map RpcCoroSlot.detached

theorem detachedSlots_congr {slots slots' : Nat → Option (RpcCoroSlot M)} {ids : List Nat}
    (h : ∀ i ∈ ids, slots i = slots' i) : detachedSlots slots ids = detachedSlots slots' ids :=
  List.filterMap_congr fun i hi => by rw [h i hi]

theorem detachedSlots_cons {slots : Nat → Option (RpcCoroSlot M)} {i : Nat} {s : RpcCoroSlot M}
    (hs : slots i = some s) (ids : List Nat) :
    detachedSlots slots (i :: ids) = s.detached :: detachedSlots slots ids :=
  List.filterMap_cons_some (by rw [hs, Option.map_some])

/-- The table without the given numbers. -/
def eraseSlots (slots : Nat → Option (RpcCoroSlot M)) (ids : List Nat) :
    Nat → Option (RpcCoroSlot M) :=
  fun i => if i ∈ ids then none else slots i

theorem eraseSlots_nil (slots : Nat → Option (RpcCoroSlot M)) : eraseSlots slots [] = slots := by
  funext i
  simp [eraseSlots]

theorem eraseSlots_cons (slots : Nat → Option (RpcCoroSlot M)) (i : Nat) (ids : List Nat) :
    eraseSlots slots (i :: ids) = eraseSlots (Function.update slots i none) ids := by
  funext j
  unfold eraseSlots
  by_cases hj : j = i
  · subst hj
    simp
  · simp [hj]

theorem eraseSlots_append (slots : Nat → Option (RpcCoroSlot M)) (ids ids' : List Nat) :
    eraseSlots slots (ids ++ ids') = eraseSlots (eraseSlots slots ids) ids' := by
  funext j
  unfold eraseSlots
  by_cases hj : j ∈ ids' <;> by_cases hj' : j ∈ ids <;> simp [hj, hj']

/-! ## `FailRpcCalls` -/

section Fail

variable [DecidableEq M]

variable {k : M × Int}

/-- The front of a session's list: its slot, and the core once it is gone. -/
theorem Core.pop {slots : Nat → Option (RpcCoroSlot M)} {sessions : M × Int → List (Node Nat)}
    {buckets : Int → List (Node RpcExpire)} {next : Nat} {front : Node Nat} {l : List (Node Nat)}
    (h : Core slots (Function.update sessions k (front :: l)) buckets next) :
    ∃ s, slots front.val = some s ∧
      Core (Function.update slots front.val none) (Function.update sessions k l)
        (Core.unlinkExpiry buckets s) next ∧
      ∀ n ∈ l, n.val ≠ front.val := by
  have hfront : front ∈ Function.update sessions k (front :: l) k := by
    rw [Function.update_self]
    exact List.mem_cons_self
  obtain ⟨s, hs, hkey, hidx⟩ := h.session_slot hfront
  have hnodup := h.session_linked.nodup k
  rw [Function.update_self] at hnodup
  refine ⟨s, hs, ?_, fun n hn heq => ?_⟩
  · have hrem := h.remove hs
    rw [Core.unlinkSession, hkey, hidx, Function.update_self, filter_addr_cons hnodup,
      Function.update_idem] at hrem
    exact hrem
  · have hn' : n ∈ Function.update sessions k (front :: l) k := by
      rw [Function.update_self]
      exact List.mem_cons_of_mem _ hn
    have haddr := (h.session_linked.entry_unique hn' hfront heq).2
    exact (List.nodup_cons.1 hnodup).1 (haddr ▸ List.mem_map_of_mem hn)

/-- The inner loop takes the first `n` slots of the list out, in order. -/
theorem failTake_spec {sessions : M × Int → List (Node Nat)} {next : Nat} {k : M × Int} :
    ∀ (n : Nat) (l : List (Node Nat)) (sh : RpcCallShard M) (g : Guards),
      Core sh.slots (Function.update sessions k l) (bucketIndex sh.expire) next →
      OrdMap.Sorted sh.expire → (∀ b q, (b, q) ∈ sh.expire → q ≠ []) →
      ∃ sh', failTake n l sh g = some (l.drop n, sh',
          armAll g (detachedSlots sh.slots ((l.take n).map Node.val))) ∧
        Core sh'.slots (Function.update sessions k (l.drop n)) (bucketIndex sh'.expire) next ∧
        OrdMap.Sorted sh'.expire ∧ (∀ b q, (b, q) ∈ sh'.expire → q ≠ []) ∧
        sh'.sessions = sh.sessions ∧ sh'.nextNode = sh.nextNode ∧
        sh'.slots = eraseSlots sh.slots ((l.take n).map Node.val)
  | 0, l, sh, g, h, hsorted, hne => by
      refine ⟨sh, rfl, h, hsorted, hne, rfl, rfl, ?_⟩
      rw [List.take_zero, List.map_nil, eraseSlots_nil]
  | n + 1, [], sh, g, h, hsorted, hne => by
      refine ⟨sh, rfl, h, hsorted, hne, rfl, rfl, ?_⟩
      rw [List.take_nil, List.map_nil, eraseSlots_nil]
  | n + 1, front :: l, sh, g, h, hsorted, hne => by
      obtain ⟨s, hs, hcore, hdisj⟩ := h.pop
      obtain ⟨expire, hrem, hidx, hsorted₁, hne₁⟩ := removeRpcExpiry_spec h hsorted hne hs
      rw [← hidx] at hcore
      obtain ⟨sh', htake, hcore', hsorted', hne', hses', hnext', hslots'⟩ :=
        failTake_spec n l (({ sh with expire := expire } : RpcCallShard M).setSlot front.val none)
          (armRpcGuard g s.detached).1 hcore hsorted₁ hne₁
      refine ⟨sh', ?_, hcore', hsorted', hne', hses', hnext', ?_⟩
      · -- the other slots of the batch are still as they were
        have hrest : detachedSlots (({ sh with expire := expire } : RpcCallShard M).setSlot
            front.val none).slots ((l.take n).map Node.val) =
            detachedSlots sh.slots ((l.take n).map Node.val) := by
          refine detachedSlots_congr fun i hi => ?_
          obtain ⟨m, hm, rfl⟩ := List.mem_map.1 hi
          exact Function.update_of_ne (hdisj m (List.mem_of_mem_take hm)) _ _
        rw [failTake, hs, Option.bind_some, hrem, Option.bind_some]
        change (failTake n l _ (armRpcGuard g s.detached).1).map _ = _
        rw [htake, hrest, Option.map_some, List.take_succ_cons, List.map_cons,
          detachedSlots_cons hs]
        rfl
      · rw [List.take_succ_cons, List.map_cons, eraseSlots_cons]
        exact hslots'

/-- A batch for a session without a list here finds nothing. -/
theorem failBatch_missing {sh : RpcCallShard M} {g : Guards} (hk : sh.sessions k = none) :
    failBatch sh g k = some (sh, g, none) := by
  simp only [failBatch, hk]

/-- A batch takes the first slots of the session's list out and leaves the rest of it. -/
theorem failBatch_spec {sh : RpcCallShard M} (h : ShardInv sh) (g : Guards) {l : List (Node Nat)}
    (hk : sh.sessions k = some l) :
    ∃ sh', failBatch sh g k = some (sh',
          (armAll g (detachedSlots sh.slots ((l.take failBatchSize).map Node.val))).1,
          some (armAll g (detachedSlots sh.slots ((l.take failBatchSize).map Node.val))).2) ∧
      ShardInv sh' ∧ ((l.take failBatchSize).map Node.val).Nodup ∧
      sh'.slots = eraseSlots sh.slots ((l.take failBatchSize).map Node.val) ∧
      sh'.sessions = Function.update sh.sessions k (keepNonempty (l.drop failBatchSize)) := by
  have hkl : sh.sessionIndex k = l := by rw [RpcCallShard.sessionIndex, hk]; rfl
  have hcore : Core sh.slots (Function.update sh.sessionIndex k l) (bucketIndex sh.expire)
      sh.nextNode := by
    rw [← hkl, Function.update_eq_self]
    exact h.core
  obtain ⟨sh₁, htake, hcore₁, hsorted₁, hne₁, hses₁, hnext₁, hslots₁⟩ :=
    failTake_spec failBatchSize l sh g hcore h.sorted h.expire_ne
  refine ⟨sh₁.setSession k (keepNonempty (l.drop failBatchSize)), ?_, ⟨?_, hsorted₁, ?_, hne₁⟩,
    ?_, hslots₁, ?_⟩
  · simp only [failBatch, hk, htake, Option.map_some]
  · rw [setSession_sessionIndex, keepNonempty_getD]
    have hidx : sh₁.sessionIndex = sh.sessionIndex := by
      funext k'
      rw [RpcCallShard.sessionIndex, hses₁, RpcCallShard.sessionIndex]
    rw [hidx]
    exact hnext₁ ▸ hcore₁
  · exact setSession_ne (by rw [hses₁]; exact h.sessions_ne) _ (keepNonempty_ne _)
  · have hnodup := h.core.session_linked.nodup_ident k
    rw [hkl] at hnodup
    exact hnodup.sublist ((List.take_sublist _ _).map _)
  · rw [RpcCallShard.setSession, hses₁]

end Fail

/-! ## `SweepRpcCalls` -/

section Sweep

/-- From `st` to `st'` the scan has moved exactly the slots `ids` to `vFired`, in this order. -/
structure Fired (st st' : SweepState M) (ids : List Nat) : Prop where
  live : ∀ i ∈ ids, (st.shard.slots i).isSome
  nodup : ids.Nodup
  slots_eq : st'.shard.slots = eraseSlots st.shard.slots ids
  guards_eq : st'.guards = (armAll st.guards (detachedSlots st.shard.slots ids)).1
  fired_eq : st'.fired = st.fired ++ (armAll st.guards (detachedSlots st.shard.slots ids)).2
  expire_eq : st'.shard.expire = st.shard.expire
  nextNode_eq : st'.shard.nextNode = st.shard.nextNode

theorem Fired.refl (st : SweepState M) : Fired st st [] :=
  ⟨by simp, List.nodup_nil, (eraseSlots_nil _).symm, rfl, (List.append_nil _).symm, rfl, rfl⟩

theorem Fired.trans {st₁ st₂ st₃ : SweepState M} {ids₁ ids₂ : List Nat} (h₁ : Fired st₁ st₂ ids₁)
    (h₂ : Fired st₂ st₃ ids₂) : Fired st₁ st₃ (ids₁ ++ ids₂) := by
  have hnew : ∀ i ∈ ids₂, i ∉ ids₁ := by
    intro i hi hi₁
    have hlive := h₂.live i hi
    rw [h₁.slots_eq, eraseSlots, if_pos hi₁] at hlive
    cases hlive
  have hsame : ∀ i ∈ ids₂, st₂.shard.slots i = st₁.shard.slots i := by
    intro i hi
    rw [h₁.slots_eq, eraseSlots, if_neg (hnew i hi)]
  have happ : detachedSlots st₁.shard.slots (ids₁ ++ ids₂) =
      detachedSlots st₁.shard.slots ids₁ ++ detachedSlots st₂.shard.slots ids₂ := by
    rw [detachedSlots_congr hsame, detachedSlots, List.filterMap_append]
    rfl
  refine ⟨fun i hi => ?_, List.nodup_append.2 ⟨h₁.nodup, h₂.nodup, ?_⟩, ?_, ?_, ?_,
    h₂.expire_eq.trans h₁.expire_eq, h₂.nextNode_eq.trans h₁.nextNode_eq⟩
  · rcases List.mem_append.1 hi with hi | hi
    · exact h₁.live i hi
    · rw [← hsame i hi]
      exact h₂.live i hi
  · rintro i hi₁ _ hi₂ rfl
    exact hnew i hi₂ hi₁
  · rw [h₂.slots_eq, h₁.slots_eq, eraseSlots_append]
  · rw [h₂.guards_eq, h₁.guards_eq, happ, armAll_append]
  · rw [h₂.fired_eq, h₁.fired_eq, h₁.guards_eq, happ, armAll_append, List.append_assoc]

variable [DecidableEq M]

/-- Moving one expired slot to `vFired`. Its bucket entry is gone from the index `buckets`. -/
theorem fireSlot_spec {st : SweepState M} {buckets : Int → List (Node RpcExpire)} {next : Nat}
    (h : Core st.shard.slots st.shard.sessionIndex buckets next)
    (hne : ∀ k, st.shard.sessions k ≠ some []) {i : Nat} {s : RpcCoroSlot M}
    (hs : st.shard.slots i = some s) (hexp : s.hasExpiry = true) :
    ∃ st', fireSlot st i s = some st' ∧ Fired st st' [i] ∧
      Core st'.shard.slots st'.shard.sessionIndex (Core.unlinkExpiry buckets s) next ∧
      ∀ k, st'.shard.sessions k ≠ some [] := by
  have hdet : s.withoutExpiry = { s with hasExpiry := false, expiry := 0, expiryBucket := 0 } :=
    if_pos hexp
  have hnode : (⟨s.sessionIndex, i⟩ : Node Nat) ∈
      st.shard.sessionIndex s.withoutExpiry.key := by
    rw [withoutExpiry_key]
    exact h.session_node hs
  obtain ⟨l, hses, hsidx, hl⟩ := removeSessionIndex_spec
    (by rw [withoutExpiry_indexed]; exact h.indexed i s hs) hnode
    (withoutExpiry_sessionIndex s).symm
  rw [withoutExpiry_key] at hses hsidx
  have hfire : fireSlot st i s = some
      { shard := (st.shard.setSession s.key l).setSlot i none
        guards := (armRpcGuard st.guards s.detached).1
        fired := st.fired ++ [(armRpcGuard st.guards s.detached).2] } := by
    rw [fireSlot, ← hdet, hses]
    rfl
  refine ⟨_, hfire, ⟨?_, List.nodup_singleton i, ?_, ?_, ?_, rfl, rfl⟩, ?_,
    setSession_ne hne _ hl⟩
  · intro j hj
    rw [List.mem_singleton.1 hj, hs]
    rfl
  · rw [eraseSlots_cons, eraseSlots_nil]
    rfl
  · rw [detachedSlots_cons hs]
    rfl
  · rw [detachedSlots_cons hs]
    rfl
  · have hcore := h.remove hs
    have hunlink : Core.unlinkSession st.shard.sessionIndex s =
        Core.unlinkSession st.shard.sessionIndex s.withoutExpiry := by
      simp only [Core.unlinkSession, withoutExpiry_key, withoutExpiry_sessionIndex]
    rw [hunlink] at hcore
    exact hsidx ▸ hcore

/-- The number of a bucket entry. -/
def entryCallId (n : Node RpcExpire) : Nat := n.val.callId

/-- The entry's deadline has been reached. -/
def entryDue (iNow : Int) (n : Node RpcExpire) : Bool := n.val.deadlineMilliseconds ≤ iNow

/-- The loop over the rest `q` of bucket `b`, of which `kept` has been passed. It fires due entries
only; if it ends normally it has fired all of them, in order, and keeps the others. -/
theorem sweepQueue_spec {fails : Nat → Bool} {iNow : Int} {buckets : Int → List (Node RpcExpire)}
    {next : Nat} {b : Int} :
    ∀ (q kept : List (Node RpcExpire)) (st : SweepState M),
      Core st.shard.slots st.shard.sessionIndex (Function.update buckets b (kept ++ q)) next →
      (∀ k, st.shard.sessions k ≠ some []) →
      ∃ q' st' e ids, sweepQueue fails iNow q st = some (q', st', e) ∧ Fired st st' ids ∧
        Core st'.shard.slots st'.shard.sessionIndex (Function.update buckets b (kept ++ q')) next ∧
        (∀ k, st'.shard.sessions k ≠ some []) ∧
        (e = .threw → q' ≠ [] ∧ ∃ n, fails n = true) ∧
        (e = .done → q' = q.filter (fun n => !entryDue iNow n) ∧
          ids = (q.filter (entryDue iNow)).map entryCallId)
  | [], kept, st, h, hne =>
    ⟨[], st, .done, [], rfl, Fired.refl st, h, hne, nofun, fun _ => ⟨rfl, rfl⟩⟩
  | n :: q, kept, st, h, hne => by
      have hmem : n ∈ Function.update buckets b (kept ++ n :: q) b := by
        rw [Function.update_self]
        exact List.mem_append_right _ List.mem_cons_self
      obtain ⟨s, hs, hexp, hb, haddr⟩ := h.expiry_slot hmem
      rw [sweepQueue]
      simp only [hs]
      by_cases hlate : n.val.deadlineMilliseconds > iNow
      · -- not due yet: the entry stays, and does not stop the loop
        have hdue : entryDue iNow n = false := by simpa [entryDue] using hlate
        rw [List.append_cons] at h
        obtain ⟨q', st', e, ids, hrun, hfired, hcore, hne', hthrew, hdone⟩ :=
          sweepQueue_spec q (kept ++ [n]) st h hne
        rw [if_pos hlate, hrun, Option.map_some]
        rw [← List.append_cons] at hcore
        refine ⟨n :: q', st', e, ids, rfl, hfired, hcore, hne', fun he => ⟨by simp, (hthrew he).2⟩,
          fun he => ?_⟩
        obtain ⟨hq', hids⟩ := hdone he
        rw [List.filter_cons_of_pos (by rw [hdue]; rfl), List.filter_cons_of_neg (by simp [hdue])]
        exact ⟨by rw [hq'], hids⟩
      · have hdue : entryDue iNow n = true := by simpa [entryDue] using hlate
        rw [if_neg hlate]
        by_cases hfail : fails st.fired.length = true
        · rw [if_pos hfail]
          exact ⟨n :: q, st, .threw, [], rfl, Fired.refl st, h, hne,
            fun _ => ⟨by simp, _, hfail⟩, nofun⟩
        · obtain ⟨st₁, hfire, hfired₁, hcore₁, hne₁⟩ := fireSlot_spec h hne hs hexp
          have hnodup := h.expiry_linked.nodup b
          rw [Function.update_self] at hnodup
          rw [Core.unlinkExpiry, if_pos hexp, hb, haddr, Function.update_self,
            filter_addr_append hnodup, Function.update_idem] at hcore₁
          obtain ⟨q', st', e, ids, hrun, hfired, hcore, hne', hthrew, hdone⟩ :=
            sweepQueue_spec q kept st₁ hcore₁ hne₁
          rw [if_neg hfail, hfire, Option.bind_some, hrun]
          refine ⟨q', st', e, n.val.callId :: ids, rfl, hfired₁.trans hfired, hcore, hne', hthrew,
            fun he => ?_⟩
          obtain ⟨hq', hids⟩ := hdone he
          rw [List.filter_cons_of_neg (by simp [hdue]), List.filter_cons_of_pos hdue]
          exact ⟨hq', by rw [hids]; rfl⟩

variable {b : Int} {pre : List (Int × List (Node RpcExpire))} {q : List (Node RpcExpire)}

omit [DecidableEq M] in
/-- Replacing a bucket in the middle of the map. -/
theorem bucketIndex_replace {post : List (Int × List (Node RpcExpire))}
    (h : OrdMap.Sorted (pre ++ (b, q) :: post)) (q' : List (Node RpcExpire)) :
    bucketIndex (pre ++ (b, q') :: post) =
      Function.update (bucketIndex (pre ++ (b, q) :: post)) b q' := by
  have hpre : ∀ e ∈ pre, e.1 ≠ b := fun e he => h.ne_of_mem_sides e (List.mem_append_left _ he)
  funext b'
  by_cases hb : b' = b
  · subst hb
    rw [Function.update_self, bucketIndex, OrdMap.find_middle hpre, if_pos rfl, Option.getD_some]
  · rw [Function.update_of_ne hb, bucketIndex, bucketIndex, OrdMap.find_middle hpre,
      OrdMap.find_middle hpre, if_neg hb, if_neg hb]

omit [DecidableEq M] in
/-- Erasing a bucket in the middle of the map. -/
theorem bucketIndex_drop {post : List (Int × List (Node RpcExpire))}
    (h : OrdMap.Sorted (pre ++ (b, q) :: post)) :
    bucketIndex (pre ++ post) = Function.update (bucketIndex (pre ++ (b, q) :: post)) b [] := by
  have hsides := h.ne_of_mem_sides
  funext b'
  by_cases hb : b' = b
  · subst hb
    rw [Function.update_self, bucketIndex, OrdMap.find_eq_none hsides, Option.getD_none]
  · rw [Function.update_of_ne hb, bucketIndex, bucketIndex,
      OrdMap.find_middle fun e he => hsides e (List.mem_append_left _ he), if_neg hb]

/-- The entries of the buckets that are due, in the order of the scan. -/
def dueEntries (iNow : Int) (expire : List (Int × List (Node RpcExpire))) :
    List (Node RpcExpire) :=
  (expire.flatMap Prod.snd).filter (entryDue iNow)

omit [DecidableEq M] in
/-- The early break is right: a bucket after `iNow / kSweepMs` holds no due entry. -/
theorem entryDue_eq_false {iNow : Int} {n : Node RpcExpire}
    (h : n.val.deadlineMilliseconds.tdiv sweepMs > iNow.tdiv sweepMs) :
    entryDue iNow n = false := by
  simp only [entryDue, decide_eq_false_iff_not]
  intro hle
  exact absurd h (not_lt.2 (Int.tdiv_le_tdiv (by decide) hle))

omit [DecidableEq M] in
theorem dueEntries_nil_of_break {slots : Nat → Option (RpcCoroSlot M)}
    {sessions : M × Int → List (Node Nat)} {iNow : Int} {next : Nat}
    {rest : List (Int × List (Node RpcExpire))}
    (h : Core slots sessions (bucketIndex (pre ++ (b, q) :: rest)) next)
    (hsorted : OrdMap.Sorted (pre ++ (b, q) :: rest)) (hb : b > iNow.tdiv sweepMs) :
    dueEntries iNow ((b, q) :: rest) = [] := by
  refine List.filter_eq_nil_iff.2 fun n hn => ?_
  obtain ⟨⟨b', q'⟩, hmem, hnq⟩ := List.mem_flatMap.1 hn
  have hfind := OrdMap.find_of_mem hsorted (List.mem_append_right pre hmem)
  have hbucket := h.bucket_eq b' n (by rw [bucketIndex, hfind]; exact hnq)
  have hle : b ≤ b' := by
    rcases List.mem_cons.1 hmem with heq | hmem
    · exact le_of_eq (Prod.mk.inj heq).1.symm
    · have hpw := (List.pairwise_append.1 hsorted).2.1
      exact le_of_lt ((List.pairwise_cons.1 hpw).1 _ hmem)
  have hnot : entryDue iNow n = false := entryDue_eq_false (by omega)
  simp [hnot]

/-- The loop over the buckets `bs`, of which the buckets `pre` have been passed. -/
theorem sweepBuckets_spec {fails : Nat → Bool} {iNow : Int} {next : Nat} :
    ∀ (bs pre : List (Int × List (Node RpcExpire))) (st : SweepState M),
      Core st.shard.slots st.shard.sessionIndex (bucketIndex (pre ++ bs)) next →
      (∀ k, st.shard.sessions k ≠ some []) → OrdMap.Sorted (pre ++ bs) →
      (∀ b q, (b, q) ∈ bs → q ≠ []) →
      ∃ bs' st' e ids, sweepBuckets fails iNow bs st = some (bs', st', e) ∧ Fired st st' ids ∧
        Core st'.shard.slots st'.shard.sessionIndex (bucketIndex (pre ++ bs')) next ∧
        (∀ k, st'.shard.sessions k ≠ some []) ∧ OrdMap.Sorted (pre ++ bs') ∧
        (∀ b q, (b, q) ∈ bs' → q ≠ []) ∧ (e = .threw → ∃ n, fails n = true) ∧
        (e = .done → ids = (dueEntries iNow bs).map entryCallId)
  | [], pre, st, h, hne, hsorted, _ =>
    ⟨[], st, .done, [], rfl, Fired.refl st, h, hne, hsorted, by simp, nofun, fun _ => rfl⟩
  | (b, q) :: rest, pre, st, h, hne, hsorted, hbs => by
      rw [sweepBuckets]
      by_cases hb : b > iNow.tdiv sweepMs
      · rw [if_pos hb]
        exact ⟨_, st, .done, [], rfl, Fired.refl st, h, hne, hsorted, hbs, nofun, fun _ => by
          rw [dueEntries_nil_of_break h hsorted hb]; rfl⟩
      · have hrest : ∀ b q, (b, q) ∈ rest → q ≠ [] := fun b q hm =>
          hbs b q (List.mem_cons_of_mem _ hm)
        have hq : Core st.shard.slots st.shard.sessionIndex
            (Function.update (bucketIndex (pre ++ (b, q) :: rest)) b ([] ++ q)) next := by
          rw [List.nil_append, ← bucketIndex_replace hsorted q]
          exact h
        obtain ⟨q', st₁, e, ids, hrun, hfired, hcore, hne₁, hthrew, hdone⟩ :=
          sweepQueue_spec q [] st hq hne
        rw [List.nil_append] at hcore
        rw [if_neg hb, hrun, Option.bind_some]
        cases e with
        | threw =>
          rw [← bucketIndex_replace hsorted] at hcore
          refine ⟨_, st₁, .threw, ids, rfl, hfired, hcore, hne₁, hsorted.replace q', ?_,
            fun _ => (hthrew rfl).2, nofun⟩
          intro b' q'' hmem
          rcases List.mem_cons.1 hmem with heq | hmem
          · obtain ⟨-, rfl⟩ := Prod.mk.inj heq
            exact (hthrew rfl).1
          · exact hrest b' q'' hmem
        | done =>
          obtain ⟨hq', hids⟩ := hdone rfl
          have hsplit : ∀ ids', ids' = (dueEntries iNow rest).map entryCallId →
              ids ++ ids' = (dueEntries iNow ((b, q) :: rest)).map entryCallId := by
            rintro _ rfl
            rw [hids, dueEntries, dueEntries, List.flatMap_cons, List.filter_append,
              List.map_append]
          dsimp only
          cases hcase : q' with
          | nil =>
            -- the bucket ran empty and is erased
            rw [hcase, ← bucketIndex_drop hsorted] at hcore
            obtain ⟨bs', st', e, ids', hrun', hfired', hcore', hne', hsorted', hbs', hthrew',
              hdone'⟩ := sweepBuckets_spec rest pre st₁ hcore hne₁ hsorted.drop_middle hrest
            rw [hrun', Option.map_some]
            exact ⟨bs', st', e, ids ++ ids', rfl, hfired.trans hfired', hcore', hne', hsorted',
              hbs', hthrew', fun he => hsplit ids' (hdone' he)⟩
          | cons n l =>
            rw [← bucketIndex_replace hsorted, hcase, List.append_cons] at hcore
            have hsorted₁ := hsorted.replace (n :: l)
            rw [List.append_cons] at hsorted₁
            obtain ⟨bs', st', e, ids', hrun', hfired', hcore', hne', hsorted', hbs', hthrew',
              hdone'⟩ := sweepBuckets_spec rest (pre ++ [(b, n :: l)]) st₁ hcore hne₁ hsorted₁
                hrest
            rw [hrun', Option.map_some]
            rw [← List.append_cons] at hcore' hsorted'
            refine ⟨(b, n :: l) :: bs', st', e, ids ++ ids', rfl, hfired.trans hfired', hcore',
              hne', hsorted', ?_, hthrew', fun he => hsplit ids' (hdone' he)⟩
            intro b' q'' hmem
            rcases List.mem_cons.1 hmem with heq | hmem
            · obtain ⟨-, rfl⟩ := Prod.mk.inj heq
              simp
            · exact hbs' b' q'' hmem

/-- The part of `SweepRpcCalls` under one shard's lock keeps the invariant. If it ends normally,
it has fired the due entries of the shard in the order of the scan. -/
theorem sweepShard_spec (fails : Nat → Bool) (iNow : Int) (st : SweepState M)
    (h : ShardInv st.shard) :
    ∃ st' e ids, sweepShard fails iNow st = some (st', e) ∧ ShardInv st'.shard ∧
      (∀ i ∈ ids, (st.shard.slots i).isSome) ∧ ids.Nodup ∧
      st'.shard.slots = eraseSlots st.shard.slots ids ∧
      st'.guards = (armAll st.guards (detachedSlots st.shard.slots ids)).1 ∧
      st'.fired = st.fired ++ (armAll st.guards (detachedSlots st.shard.slots ids)).2 ∧
      (e = .threw → ∃ n, fails n = true) ∧
      (e = .done → ids = (dueEntries iNow st.shard.expire).map entryCallId) := by
  obtain ⟨bs', st', e, ids, hrun, hfired, hcore, hne, hsorted, hbs, hthrew, hdone⟩ :=
    sweepBuckets_spec st.shard.expire [] st h.core h.sessions_ne h.sorted h.expire_ne
  refine ⟨{ st' with shard := { st'.shard with expire := bs' } }, e, ids, ?_,
    ⟨?_, hsorted, hne, hbs⟩, hfired.live, hfired.nodup, hfired.slots_eq, hfired.guards_eq,
    hfired.fired_eq, hthrew, hdone⟩
  · rw [sweepShard, hrun, Option.map_some]
  · rw [← hfired.nextNode_eq] at hcore
    exact hcore

end Sweep

end OpenIdea.Rpc
