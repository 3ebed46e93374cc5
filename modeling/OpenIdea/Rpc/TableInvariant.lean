import OpenIdea.Rpc.WaitTable

/-!
# The representation invariant of the wait table

`ShardInv` ties the three indexes of a shard together: the session lists and the expiry buckets
agree with the places the slots remember (`Linked`, once for each index), and no list or bucket is
empty. Every operation of the shard keeps it and meets no undefined behaviour.

The loops of `SweepRpcCalls` and `FailRpcCalls` break the second half for a moment (a bucket or a
list runs empty before it is erased), so what carries them is `Core`, which sees an index only as
the function from keys to lists (`bindRpcCall_spec`, `claimRpcSend_spec`).
-/

set_option autoImplicit false

namespace OpenIdea.Rpc

open OpenIdea.Lib OpenIdea.Lib.LinkedIndex

variable {M : Type}

/-! ## The invariant -/

/-- Where a slot stands in the session index. -/
def RpcCoroSlot.sessionPlace (s : RpcCoroSlot M) : Option ((M × Int) × Nat) :=
  if s.indexed then some (s.key, s.sessionIndex) else none

/-- Where a slot stands in the expiry index. -/
def RpcCoroSlot.expiryPlace (s : RpcCoroSlot M) : Option (Int × Nat) :=
  if s.hasExpiry then some (s.expiryBucket, s.expiry) else none

/-- The session index as a function: a missing list is empty. -/
def RpcCallShard.sessionIndex (sh : RpcCallShard M) (k : M × Int) : List (Node Nat) :=
  (sh.sessions k).getD []

/-- The buckets of an expiry map as a function. -/
def bucketIndex (expire : List (Int × List (Node RpcExpire))) (b : Int) : List (Node RpcExpire) :=
  (OrdMap.find expire b).getD []

/-- The slots and the two indexes, as functions, agree. -/
structure Core (slots : Nat → Option (RpcCoroSlot M)) (sessions : M × Int → List (Node Nat))
    (buckets : Int → List (Node RpcExpire)) (next : Nat) : Prop where
  callId : ∀ i s, slots i = some s → s.callId = i
  indexed : ∀ i s, slots i = some s → s.indexed = true
  session_linked : Linked id sessions fun i => (slots i).bind RpcCoroSlot.sessionPlace
  expiry_linked : Linked RpcExpire.callId buckets fun i => (slots i).bind RpcCoroSlot.expiryPlace
  session_addr : ∀ k, ∀ n ∈ sessions k, n.addr < next
  expiry_addr : ∀ b, ∀ n ∈ buckets b, n.addr < next
  bucket_eq : ∀ b, ∀ n ∈ buckets b, b = n.val.deadlineMilliseconds.tdiv sweepMs

/-- The representation invariant of a shard. -/
structure ShardInv (sh : RpcCallShard M) : Prop where
  core : Core sh.slots sh.sessionIndex (bucketIndex sh.expire) sh.nextNode
  sorted : OrdMap.Sorted sh.expire
  sessions_ne : ∀ k, sh.sessions k ≠ some []
  expire_ne : ∀ b q, (b, q) ∈ sh.expire → q ≠ []

theorem empty_shardInv : ShardInv (RpcCallShard.empty M) := by
  refine ⟨⟨?_, ?_, ⟨?_, ?_, ?_⟩, ⟨?_, ?_, ?_⟩, ?_, ?_, ?_⟩, List.Pairwise.nil, ?_, ?_⟩ <;>
    simp [RpcCallShard.empty, RpcCallShard.sessionIndex, bucketIndex]

/-! ## Changes to the core

The core sees an index as a function from keys to lists. To link a slot in, or out, changes one list
and one place. -/

namespace Core

variable {slots : Nat → Option (RpcCoroSlot M)} {sessions : M × Int → List (Node Nat)}
  {buckets : Int → List (Node RpcExpire)} {next : Nat}

variable {i : Nat} {s : RpcCoroSlot M}

theorem sessionPlace_eq (h : Core slots sessions buckets next) (hs : slots i = some s) :
    s.sessionPlace = some (s.key, s.sessionIndex) :=
  if_pos (h.indexed i s hs)

/-- The node a slot's session iterator names. -/
theorem session_node (h : Core slots sessions buckets next) (hs : slots i = some s) :
    (⟨s.sessionIndex, i⟩ : Node Nat) ∈ sessions s.key := by
  obtain ⟨n, hn, haddr, hval⟩ := h.session_linked.held i s.key s.sessionIndex
    (by simp only [hs, Option.bind_some, h.sessionPlace_eq hs])
  cases n
  simp only at haddr hval
  subst haddr
  obtain rfl : i = _ := hval.symm
  exact hn

/-- The slot an entry of a session list refers to. -/
theorem session_slot (h : Core slots sessions buckets next) {k : M × Int} {n : Node Nat}
    (hn : n ∈ sessions k) :
    ∃ s, slots n.val = some s ∧ s.key = k ∧ s.sessionIndex = n.addr := by
  have hp := h.session_linked.entry k n hn
  obtain ⟨s, hs, hplace⟩ := Option.bind_eq_some_iff.1 hp
  rw [h.sessionPlace_eq hs] at hplace
  obtain ⟨hk, ha⟩ := Prod.mk.inj (Option.some.inj hplace)
  exact ⟨s, hs, hk, ha⟩

/-- The slot an entry of a bucket refers to. -/
theorem expiry_slot (h : Core slots sessions buckets next) {b : Int} {n : Node RpcExpire}
    (hn : n ∈ buckets b) :
    ∃ s, slots n.val.callId = some s ∧ s.hasExpiry = true ∧ s.expiryBucket = b ∧
      s.expiry = n.addr := by
  have hp := h.expiry_linked.entry b n hn
  obtain ⟨s, hs, hplace⟩ := Option.bind_eq_some_iff.1 hp
  unfold RpcCoroSlot.expiryPlace at hplace
  obtain ⟨hexp, hplace⟩ := Option.ite_none_right_eq_some.1 hplace
  obtain ⟨hb, ha⟩ := Prod.mk.inj (Option.some.inj hplace)
  exact ⟨s, hs, hexp, hb, ha⟩

/-- The node a slot's expiry iterator names. -/
theorem expiry_node (h : Core slots sessions buckets next) (hs : slots i = some s)
    (hexp : s.hasExpiry = true) :
    ∃ n ∈ buckets s.expiryBucket, n.addr = s.expiry ∧ n.val.callId = i :=
  h.expiry_linked.held i s.expiryBucket s.expiry
    (by simp only [hs, Option.bind_some, RpcCoroSlot.expiryPlace, if_pos hexp])

/-- Changing one slot changes one place. -/
theorem place_update {α : Type} (f : RpcCoroSlot M → Option α) (i : Nat)
    (x : Option (RpcCoroSlot M)) :
    (fun j => (Function.update slots i x j).bind f) =
      Function.update (fun j => (slots j).bind f) i (x.bind f) := by
  funext j
  by_cases hj : j = i
  · subst hj
    simp only [Function.update_self]
  · simp only [Function.update_of_ne hj]

/-- The core after a change of slot `i`, given that both indexes follow it. -/
theorem update_slot (h : Core slots sessions buckets next) {x : Option (RpcCoroSlot M)}
    {sessions' : M × Int → List (Node Nat)} {buckets' : Int → List (Node RpcExpire)} {next' : Nat}
    (hx : ∀ s, x = some s → s.callId = i ∧ s.indexed = true) (hsession : Linked id sessions'
      (Function.update (fun j => (slots j).bind RpcCoroSlot.sessionPlace) i
        (x.bind RpcCoroSlot.sessionPlace))) (hexpiry : Linked RpcExpire.callId buckets'
      (Function.update (fun j => (slots j).bind RpcCoroSlot.expiryPlace) i
        (x.bind RpcCoroSlot.expiryPlace))) (hsaddr : ∀ k, ∀ n ∈ sessions' k, n.addr < next')
    (headdr : ∀ b, ∀ n ∈ buckets' b, n.addr < next')
    (hbucket : ∀ b, ∀ n ∈ buckets' b, b = n.val.deadlineMilliseconds.tdiv sweepMs) :
    Core (Function.update slots i x) sessions' buckets' next' := by
  have hslot : ∀ j s, Function.update slots i x j = some s → s.callId = j ∧ s.indexed = true := by
    intro j s hs
    by_cases hj : j = i
    · subst hj
      rw [Function.update_self] at hs
      exact hx s hs
    · rw [Function.update_of_ne hj] at hs
      exact ⟨h.callId j s hs, h.indexed j s hs⟩
  exact ⟨fun j s hs => (hslot j s hs).1, fun j s hs => (hslot j s hs).2,
    by rw [place_update]; exact hsession, by rw [place_update]; exact hexpiry,
    hsaddr, headdr, hbucket⟩

/-- A change of a slot that keeps its number and both its places. -/
theorem modify (h : Core slots sessions buckets next) {s' : RpcCoroSlot M} (hs : slots i = some s)
    (hcall : s'.callId = s.callId) (hind : s'.indexed = s.indexed)
    (hsp : s'.sessionPlace = s.sessionPlace) (hep : s'.expiryPlace = s.expiryPlace) :
    Core (Function.update slots i (some s')) sessions buckets next := by
  refine h.update_slot ?_ ?_ ?_ h.session_addr h.expiry_addr h.bucket_eq
  · intro t ht
    obtain rfl := Option.some.inj ht
    exact ⟨hcall.trans (h.callId i s hs), hind.trans (h.indexed i s hs)⟩
  · rw [Option.bind_some, hsp, Function.update_eq_self_iff.2]
    · exact h.session_linked
    · rw [hs, Option.bind_some]
  · rw [Option.bind_some, hep, Function.update_eq_self_iff.2]
    · exact h.expiry_linked
    · rw [hs, Option.bind_some]

section Decidable

variable [DecidableEq M]

/-- The session index after unlinking a slot. -/
def unlinkSession (sessions : M × Int → List (Node Nat)) (s : RpcCoroSlot M) :
    M × Int → List (Node Nat) :=
  Function.update sessions s.key ((sessions s.key).filter fun n => n.addr ≠ s.sessionIndex)

omit [DecidableEq M] in
/-- The expiry index after unlinking a slot. -/
def unlinkExpiry (buckets : Int → List (Node RpcExpire)) (s : RpcCoroSlot M) :
    Int → List (Node RpcExpire) :=
  if s.hasExpiry then
    Function.update buckets s.expiryBucket
      ((buckets s.expiryBucket).filter fun n => n.addr ≠ s.expiry)
  else buckets

theorem mem_of_mem_filter_update {K V : Type} [DecidableEq K] {index : K → List (Node V)}
    {k k' : K} {p : Node V → Bool} {n : Node V}
    (hn : n ∈ Function.update index k ((index k).filter p) k') : n ∈ index k' := by
  by_cases hk : k' = k
  · subst hk
    rw [Function.update_self] at hn
    exact (List.mem_filter.1 hn).1
  · rwa [Function.update_of_ne hk] at hn

omit [DecidableEq M] in
theorem mem_of_mem_unlinkExpiry {b : Int} {n : Node RpcExpire} (hn : n ∈ unlinkExpiry buckets s b) :
    n ∈ buckets b := by
  unfold unlinkExpiry at hn
  split at hn
  · exact mem_of_mem_filter_update hn
  · exact hn

theorem unlinkSession_linked (h : Core slots sessions buckets next) (hs : slots i = some s) :
    Linked id (unlinkSession sessions s)
      (Function.update (fun j => (slots j).bind RpcCoroSlot.sessionPlace) i none) :=
  h.session_linked.erase (by simp only [hs, Option.bind_some, h.sessionPlace_eq hs])

omit [DecidableEq M] in
theorem unlinkExpiry_linked (h : Core slots sessions buckets next) (hs : slots i = some s) :
    Linked RpcExpire.callId (unlinkExpiry buckets s)
      (Function.update (fun j => (slots j).bind RpcCoroSlot.expiryPlace) i none) := by
  unfold unlinkExpiry
  split
  · rename_i hexp
    exact h.expiry_linked.erase
      (by simp only [hs, Option.bind_some, RpcCoroSlot.expiryPlace, if_pos hexp])
  · rename_i hexp
    rw [Function.update_eq_self_iff.2]
    · exact h.expiry_linked
    · rw [hs, Option.bind_some, RpcCoroSlot.expiryPlace, if_neg hexp]

/-- Taking a slot out of the table and of both indexes. -/
theorem remove (h : Core slots sessions buckets next) (hs : slots i = some s) :
    Core (Function.update slots i none) (unlinkSession sessions s) (unlinkExpiry buckets s)
      next := by
  refine h.update_slot (by simp) (h.unlinkSession_linked hs) (h.unlinkExpiry_linked hs) ?_ ?_ ?_
  · exact fun k n hn => h.session_addr k n (mem_of_mem_filter_update hn)
  · exact fun b n hn => h.expiry_addr b n (mem_of_mem_unlinkExpiry hn)
  · exact fun b n hn => h.bucket_eq b n (mem_of_mem_unlinkExpiry hn)

theorem mem_push {K V : Type} [DecidableEq K] {index : K → List (Node V)} {k k' : K}
    {m n : Node V} (hn : n ∈ Function.update index k (index k ++ [m]) k') :
    n ∈ index k' ∨ (k' = k ∧ n = m) := by
  by_cases hk : k' = k
  · subst hk
    rw [Function.update_self] at hn
    rcases List.mem_append.1 hn with hn | hn
    · exact Or.inl hn
    · exact Or.inr ⟨rfl, List.mem_singleton.1 hn⟩
  · rw [Function.update_of_ne hk] at hn
    exact Or.inl hn

/-- A new slot with a node at the end of its session's list. -/
theorem insert (h : Core slots sessions buckets next) (hnone : slots i = none)
    (hcall : s.callId = i) (hind : s.indexed = true) (hidx : s.sessionIndex = next)
    (hexp : s.hasExpiry = false) :
    Core (Function.update slots i (some s))
      (Function.update sessions s.key (sessions s.key ++ [⟨next, i⟩])) buckets (next + 1) := by
  refine h.update_slot ?_ ?_ ?_ ?_ ?_ h.bucket_eq
  · intro t ht
    obtain rfl := Option.some.inj ht
    exact ⟨hcall, hind⟩
  · rw [Option.bind_some, RpcCoroSlot.sessionPlace, if_pos hind, hidx]
    exact h.session_linked.push s.key (v := i)
      (fun n hn => Nat.ne_of_lt (h.session_addr s.key n hn)) (by simp only [id, hnone,
        Option.bind_none])
  · rw [Option.bind_some, RpcCoroSlot.expiryPlace, if_neg (by rw [hexp]; simp),
      Function.update_eq_self_iff.2]
    · exact h.expiry_linked
    · rw [hnone, Option.bind_none]
  · intro k n hn
    rcases mem_push hn with hn | ⟨-, rfl⟩
    · exact Nat.lt_succ_of_lt (h.session_addr k n hn)
    · exact Nat.lt_succ_self next
  · exact fun b n hn => Nat.lt_succ_of_lt (h.expiry_addr b n hn)

omit [DecidableEq M] in
/-- A deadline for a slot without one. -/
theorem arm (h : Core slots sessions buckets next) (d : Int) (hs : slots i = some s)
    (hexp : s.hasExpiry = false) :
    Core
      (Function.update slots i (some { s with
        expiryBucket := d.tdiv sweepMs, expiry := next, hasExpiry := true }))
      sessions
      (Function.update buckets (d.tdiv sweepMs)
        (buckets (d.tdiv sweepMs) ++ [⟨next, ⟨d, i⟩⟩]))
      (next + 1) := by
  refine h.update_slot ?_ ?_ ?_ ?_ ?_ ?_
  · intro t ht
    obtain rfl := Option.some.inj ht
    exact ⟨h.callId i s hs, h.indexed i s hs⟩
  · rw [Function.update_eq_self_iff.2]
    · exact h.session_linked
    · rw [hs, Option.bind_some, Option.bind_some]
      rfl
  · exact h.expiry_linked.push (d.tdiv sweepMs) (v := ⟨d, i⟩)
      (fun n hn => Nat.ne_of_lt (h.expiry_addr _ n hn))
      (by simp only [hs, Option.bind_some, RpcCoroSlot.expiryPlace, hexp]; rfl)
  · exact fun k n hn => Nat.lt_succ_of_lt (h.session_addr k n hn)
  · intro b n hn
    rcases mem_push hn with hn | ⟨-, rfl⟩
    · exact Nat.lt_succ_of_lt (h.expiry_addr b n hn)
    · exact Nat.lt_succ_self next
  · intro b n hn
    rcases mem_push hn with hn | ⟨rfl, rfl⟩
    · exact h.bucket_eq b n hn
    · rfl

/-- A slot moves to another session: it is pushed there first and then unlinked here. -/
theorem rebind (h : Core slots sessions buckets next) {sid : Int} (hs : slots i = some s)
    (hsid : s.sessionId ≠ sid) :
    Core
      (Function.update slots i (some { s with
        sessionIndex := next, indexed := true, sessionId := sid, awaitingConnect := false }))
      (unlinkSession
        (Function.update sessions (s.manager, sid) (sessions (s.manager, sid) ++ [⟨next, i⟩])) s)
      buckets (next + 1) := by
  have hkey : s.key ≠ (s.manager, sid) := fun heq => hsid (Prod.mk.inj heq).2
  have hsessions : unlinkSession (Function.update sessions (s.manager, sid)
      (sessions (s.manager, sid) ++ [⟨next, i⟩])) s =
      Function.update (unlinkSession sessions s) (s.manager, sid)
        (unlinkSession sessions s (s.manager, sid) ++ [⟨next, i⟩]) := by
    unfold unlinkSession
    rw [Function.update_of_ne hkey, Function.update_of_ne hkey.symm,
      Function.update_comm hkey.symm]
  rw [hsessions]
  refine h.update_slot ?_ ?_ ?_ ?_ ?_ h.bucket_eq
  · intro t ht
    obtain rfl := Option.some.inj ht
    exact ⟨h.callId i s hs, rfl⟩
  · have hpush := (h.unlinkSession_linked hs).push (s.manager, sid) (a := next) (v := i)
      (fun n hn => Nat.ne_of_lt (h.session_addr _ n (mem_of_mem_filter_update hn)))
      (by simp only [id, Function.update_self])
    rw [id, Function.update_idem] at hpush
    exact hpush
  · rw [Function.update_eq_self_iff.2]
    · exact h.expiry_linked
    · rw [hs, Option.bind_some, Option.bind_some]
      rfl
  · intro k n hn
    rcases mem_push hn with hn | ⟨-, rfl⟩
    · exact Nat.lt_succ_of_lt (h.session_addr k n (mem_of_mem_filter_update hn))
    · exact Nat.lt_succ_self next
  · exact fun b n hn => Nat.lt_succ_of_lt (h.expiry_addr b n hn)

end Decidable

end Core

/-! ## Index maintenance -/

section Operations

variable [DecidableEq M]

theorem keepNonempty_getD {α : Type} (l : List α) : (keepNonempty l).getD [] = l := by
  cases l <;> rfl

theorem keepNonempty_ne {α : Type} (l : List α) : keepNonempty l ≠ some [] := by
  cases l <;> simp [keepNonempty]

theorem setSession_sessionIndex (sh : RpcCallShard M) (k : M × Int)
    (l : Option (List (Node Nat))) :
    (sh.setSession k l).sessionIndex = Function.update sh.sessionIndex k (l.getD []) := by
  funext k'
  by_cases hk : k' = k
  · subst hk
    simp only [RpcCallShard.sessionIndex, RpcCallShard.setSession, Function.update_self]
  · simp only [RpcCallShard.sessionIndex, RpcCallShard.setSession, Function.update_of_ne hk]

variable {sh : RpcCallShard M} {i : Nat} {s : RpcCoroSlot M}

theorem setSession_ne (h : ∀ k, sh.sessions k ≠ some []) (k : M × Int)
    {l : Option (List (Node Nat))} (hl : l ≠ some []) (k' : M × Int) :
    (sh.setSession k l).sessions k' ≠ some [] := by
  by_cases hk : k' = k
  · subst hk
    simpa only [RpcCallShard.setSession, Function.update_self] using hl
  · simpa only [RpcCallShard.setSession, Function.update_of_ne hk] using h k'

omit [DecidableEq M] in
theorem setBucket_bucketIndex (h : OrdMap.Sorted sh.expire) (b : Int) (q : List (Node RpcExpire)) :
    bucketIndex (sh.setBucket b q).expire = Function.update (bucketIndex sh.expire) b q := by
  funext b'
  unfold RpcCallShard.setBucket bucketIndex
  cases q with
  | nil =>
    simp only [List.isEmpty_nil, if_true, OrdMap.find_erase h]
    by_cases hb : b' = b
    · subst hb
      rw [if_pos rfl, Function.update_self]
      rfl
    · rw [if_neg hb, Function.update_of_ne hb]
  | cons n q =>
    simp only [List.isEmpty_cons, Bool.false_eq_true, if_false, OrdMap.find_put]
    by_cases hb : b' = b
    · subst hb
      rw [if_pos rfl, Function.update_self]
      rfl
    · rw [if_neg hb, Function.update_of_ne hb]

omit [DecidableEq M] in
theorem setBucket_sorted (h : OrdMap.Sorted sh.expire) (b : Int) (q : List (Node RpcExpire)) :
    OrdMap.Sorted (sh.setBucket b q).expire := by
  unfold RpcCallShard.setBucket
  dsimp only
  split
  · exact h.erase b
  · exact h.put b q

omit [DecidableEq M] in
theorem setBucket_ne (h : ∀ b q, (b, q) ∈ sh.expire → q ≠ []) (b : Int) (q : List (Node RpcExpire))
    (b' : Int) (q' : List (Node RpcExpire)) (hmem : (b', q') ∈ (sh.setBucket b q).expire) :
    q' ≠ [] := by
  unfold RpcCallShard.setBucket at hmem
  dsimp only at hmem
  split at hmem
  · exact h b' q' (OrdMap.mem_of_mem_erase hmem)
  · rename_i hq
    rcases OrdMap.mem_put hmem with heq | hmem
    · obtain ⟨-, rfl⟩ := Prod.mk.inj heq
      simpa using hq
    · exact h b' q' hmem

/-- A slot with its expiry link cleared, as `RemoveRpcExpiry` leaves it. -/
def RpcCoroSlot.withoutExpiry (s : RpcCoroSlot M) : RpcCoroSlot M :=
  if s.hasExpiry then { s with hasExpiry := false, expiry := 0, expiryBucket := 0 } else s

omit [DecidableEq M] in
@[simp] theorem withoutExpiry_key (s : RpcCoroSlot M) : s.withoutExpiry.key = s.key := by
  unfold RpcCoroSlot.withoutExpiry
  split <;> rfl

omit [DecidableEq M] in
@[simp] theorem withoutExpiry_indexed (s : RpcCoroSlot M) :
    s.withoutExpiry.indexed = s.indexed := by
  unfold RpcCoroSlot.withoutExpiry
  split <;> rfl

omit [DecidableEq M] in
@[simp] theorem withoutExpiry_sessionIndex (s : RpcCoroSlot M) :
    s.withoutExpiry.sessionIndex = s.sessionIndex := by
  unfold RpcCoroSlot.withoutExpiry
  split <;> rfl

omit [DecidableEq M] in
/-- `RemoveRpcExpiry` on a slot of the table unlinks it from its bucket. -/
theorem removeRpcExpiry_spec {sessions : M × Int → List (Node Nat)} {next : Nat}
    (h : Core sh.slots sessions (bucketIndex sh.expire) next) (hsorted : OrdMap.Sorted sh.expire)
    (hne : ∀ b q, (b, q) ∈ sh.expire → q ≠ []) (hs : sh.slots i = some s) :
    ∃ expire, removeRpcExpiry sh s = some ({ sh with expire := expire }, s.withoutExpiry) ∧
      bucketIndex expire = Core.unlinkExpiry (bucketIndex sh.expire) s ∧
      OrdMap.Sorted expire ∧ ∀ b q, (b, q) ∈ expire → q ≠ [] := by
  unfold removeRpcExpiry Core.unlinkExpiry RpcCoroSlot.withoutExpiry
  by_cases hexp : s.hasExpiry = true
  · obtain ⟨n, hn, haddr, -⟩ := h.expiry_node hs hexp
    cases hq : OrdMap.find sh.expire s.expiryBucket with
    | none =>
      rw [bucketIndex, hq] at hn
      exact absurd hn List.not_mem_nil
    | some q =>
      have hbq : bucketIndex sh.expire s.expiryBucket = q := by rw [bucketIndex, hq]; rfl
      rw [hbq] at hn
      refine ⟨(sh.setBucket s.expiryBucket (q.filter fun m => m.addr ≠ s.expiry)).expire,
        ?_, ?_, setBucket_sorted hsorted _ _, setBucket_ne hne _ _⟩
      · rw [if_pos hexp, if_pos hexp, ← haddr, Option.bind_some, eraseNode_of_mem hn]
        rfl
      · rw [if_pos hexp, hbq]
        exact setBucket_bucketIndex hsorted _ _
  · refine ⟨sh.expire, ?_, ?_, hsorted, hne⟩
    · rw [if_neg hexp, if_neg hexp]
    · rw [if_neg hexp]

/-- `RemoveSessionIndex` on a slot whose iterator names a node of its session's list. -/
theorem removeSessionIndex_spec (hind : s.indexed = true) {n : Node Nat}
    (hn : n ∈ sh.sessionIndex s.key) (haddr : n.addr = s.sessionIndex) :
    ∃ l, removeSessionIndex sh s = some (sh.setSession s.key l, { s with indexed := false }) ∧
      (sh.setSession s.key l).sessionIndex = Core.unlinkSession sh.sessionIndex s ∧
      l ≠ some [] := by
  cases hl : sh.sessions s.key with
  | none =>
    rw [RpcCallShard.sessionIndex, hl] at hn
    exact absurd hn List.not_mem_nil
  | some l =>
    have hkl : sh.sessionIndex s.key = l := by rw [RpcCallShard.sessionIndex, hl]; rfl
    rw [hkl] at hn
    refine ⟨keepNonempty (l.filter fun m => m.addr ≠ s.sessionIndex), ?_, ?_,
      keepNonempty_ne _⟩
    · rw [removeSessionIndex, if_pos hind, hl, ← haddr, Option.bind_some, eraseNode_of_mem hn]
      rfl
    · rw [setSession_sessionIndex, keepNonempty_getD, Core.unlinkSession, hkl]

/-! ## Taking a slot out -/

/-- Both unlinks of `TakeRpcSlot` and `AbandonRpcCall`, and the erased slot. -/
theorem detach_spec (h : ShardInv sh) (hs : sh.slots i = some s) :
    ∃ expire l,
      removeRpcExpiry sh s = some ({ sh with expire := expire }, s.withoutExpiry) ∧
      removeSessionIndex { sh with expire := expire } s.withoutExpiry =
        some (({ sh with expire := expire } : RpcCallShard M).setSession s.key l,
          { s.withoutExpiry with indexed := false }) ∧
      ShardInv ((({ sh with expire := expire } : RpcCallShard M).setSession s.key l).setSlot
        i none) := by
  obtain ⟨expire, hrem, hidx, hsorted, hne⟩ :=
    removeRpcExpiry_spec h.core h.sorted h.expire_ne hs
  have hnode : (⟨s.sessionIndex, i⟩ : Node Nat) ∈
      ({ sh with expire := expire } : RpcCallShard M).sessionIndex s.withoutExpiry.key := by
    rw [withoutExpiry_key]
    exact h.core.session_node hs
  obtain ⟨l, hses, hsidx, hl⟩ := removeSessionIndex_spec
    (by rw [withoutExpiry_indexed]; exact h.core.indexed i s hs) hnode
    (withoutExpiry_sessionIndex s).symm
  rw [withoutExpiry_key] at hses hsidx
  refine ⟨expire, l, hrem, hses, ?_, hsorted, setSession_ne h.sessions_ne _ hl, hne⟩
  have hcore := h.core.remove hs
  have hunlink : Core.unlinkSession sh.sessionIndex s =
      Core.unlinkSession sh.sessionIndex s.withoutExpiry := by
    simp only [Core.unlinkSession, withoutExpiry_key, withoutExpiry_sessionIndex]
  rw [← hidx, hunlink] at hcore
  exact hsidx ▸ hcore

/-- A slot as it leaves the table: off both indexes. -/
def RpcCoroSlot.detached (s : RpcCoroSlot M) : RpcCoroSlot M :=
  { s.withoutExpiry with indexed := false }

/-- `TakeRpcSlot` takes a matching slot out and hands it over with its guard armed. -/
theorem takeRpcSlot_spec (h : ShardInv sh) (g : Guards) (hs : sh.slots i = some s)
    {filter : Option (TakeFilter M)} (hf : ∀ f ∈ filter, f.Matches s) :
    ∃ sh', takeRpcSlot sh g i filter =
        some (sh', (armRpcGuard g s.detached).1, some (armRpcGuard g s.detached).2) ∧
      ShardInv sh' ∧ sh'.slots = Function.update sh.slots i none := by
  obtain ⟨expire, l, hexp, hses, hinv⟩ := detach_spec h hs
  refine ⟨_, ?_, hinv, rfl⟩
  simp only [takeRpcSlot, hs, if_pos hf, hexp, Option.bind_some, hses, Option.map_some]
  rfl

omit [DecidableEq M] in
theorem takeRpcSlot_missing [DecidableEq M] {g : Guards} {filter : Option (TakeFilter M)}
    (hs : sh.slots i = none) : takeRpcSlot sh g i filter = some (sh, g, none) := by
  simp only [takeRpcSlot, hs]

/-- A reply from another source or of another protocol changes nothing. -/
theorem takeRpcSlot_mismatch {g : Guards} {f : TakeFilter M} (hs : sh.slots i = some s)
    (hf : ¬ f.Matches s) : takeRpcSlot sh g i (some f) = some (sh, g, none) := by
  have hall : ¬ ∀ f' ∈ some f, f'.Matches s := fun hall => hf (hall f rfl)
  simp only [takeRpcSlot, hs, if_neg hall]

theorem abandonRpcCall_spec (h : ShardInv sh) (hs : sh.slots i = some s) :
    ∃ sh', abandonRpcCall sh i = some (sh', some s.detached) ∧ ShardInv sh' ∧
      sh'.slots = Function.update sh.slots i none := by
  obtain ⟨expire, l, hexp, hses, hinv⟩ := detach_spec h hs
  refine ⟨_, ?_, hinv, rfl⟩
  simp only [abandonRpcCall, hs, hexp, Option.bind_some, hses, Option.map_some]
  rfl

/-! ## Registering and rebinding

The operations that may throw: each of them leaves a shard behind that is as before, but for what it
says. -/

/-- A slot without its links: what the caller of `BindRpcCall` and `ClaimRpcSend` decides. -/
def RpcCoroSlot.unlinked (s : RpcCoroSlot M) : RpcCoroSlot M :=
  { s with hasExpiry := false, indexed := false, sessionIndex := 0, expiryBucket := 0, expiry := 0 }

omit [DecidableEq M] in
theorem detached_unlinked (s : RpcCoroSlot M) : s.detached.unlinked = s.unlinked := by
  unfold RpcCoroSlot.detached RpcCoroSlot.withoutExpiry RpcCoroSlot.unlinked
  split <;> rfl

omit [DecidableEq M] in
theorem keepNonempty_sessions (h : ∀ k, sh.sessions k ≠ some []) (k : M × Int) :
    keepNonempty ((sh.sessions k).getD []) = sh.sessions k := by
  cases hl : sh.sessions k with
  | none => rfl
  | some l =>
    cases l with
    | nil => exact absurd hl (h k)
    | cons n l => rfl

/-- The shard with one more node, for call `i`, at the end of a session's list. -/
def RpcCallShard.pushSession (sh : RpcCallShard M) (k : M × Int) (i : Nat) : RpcCallShard M :=
  { sh.setSession k (some (sh.sessionIndex k ++ [⟨sh.nextNode, i⟩])) with
    nextNode := sh.nextNode + 1 }

theorem pushSession_sessionIndex (sh : RpcCallShard M) (k : M × Int) (i : Nat) :
    (sh.pushSession k i).sessionIndex =
      Function.update sh.sessionIndex k (sh.sessionIndex k ++ [⟨sh.nextNode, i⟩]) :=
  setSession_sessionIndex sh k _

/-- `AddSessionIndex` changes nothing when it throws; otherwise it pushes one node. -/
theorem addSessionIndex_cases (h : ∀ k, sh.sessions k ≠ some []) (fails : AllocPoint → Bool)
    (s : RpcCoroSlot M) (sid : Int) :
    addSessionIndex fails sh s sid = (sh, none) ∨
      addSessionIndex fails sh s sid =
        (sh.pushSession (s.manager, sid) s.callId, some sh.nextNode) := by
  unfold addSessionIndex
  dsimp only
  split
  · exact Or.inl rfl
  · split
    · left
      rw [keepNonempty_sessions h, RpcCallShard.setSession, Function.update_eq_self]
    · exact Or.inr rfl

omit [DecidableEq M] in
theorem setSlot_setSlot (sh : RpcCallShard M) (i : Nat) (x y : Option (RpcCoroSlot M)) :
    (sh.setSlot i x).setSlot i y = sh.setSlot i y := by
  simp only [RpcCallShard.setSlot, Function.update_idem]

/-- The shard after `BindRpcCall` has stored a new slot and its session node. -/
theorem insert_shardInv (h : ShardInv sh) (hnone : sh.slots i = none) (hcall : s.callId = i)
    (hind : s.indexed = true) (hidx : s.sessionIndex = sh.nextNode) (hexp : s.hasExpiry = false) :
    ShardInv ((sh.pushSession s.key i).setSlot i (some s)) := by
  refine ⟨?_, h.sorted, setSession_ne h.sessions_ne _ (by simp), h.expire_ne⟩
  have hcore := h.core.insert hnone hcall hind hidx hexp
  rw [← pushSession_sessionIndex] at hcore
  exact hcore

/-- The handler of `BindRpcCall` takes the slot out again. -/
theorem bindRollback_spec (h : ShardInv sh) (hs : sh.slots i = some s) (hexp : s.hasExpiry = false)
    :
    ∃ sh', bindRollback sh i s = some sh' ∧ ShardInv sh' ∧
      sh'.slots = Function.update sh.slots i none := by
  obtain ⟨l, hses, hsidx, hl⟩ :=
    removeSessionIndex_spec (h.core.indexed i s hs) (h.core.session_node hs) rfl
  refine ⟨(sh.setSession s.key l).setSlot i none, ?_, ?_, rfl⟩
  · rw [bindRollback, hses, Option.map_some]
  · refine ⟨?_, h.sorted, setSession_ne h.sessions_ne _ hl, h.expire_ne⟩
    have hcore := h.core.remove hs
    rw [← hsidx, Core.unlinkExpiry, if_neg (by rw [hexp]; simp)] at hcore
    exact hcore

omit [DecidableEq M] in
/-- The shard after the deadline of a slot has been stored. -/
theorem arm_shardInv (h : ShardInv sh) (d : Int) (hs : sh.slots i = some s)
    (hexp : s.hasExpiry = false) :
    ShardInv { (sh.setBucket (d.tdiv sweepMs)
        (bucketIndex sh.expire (d.tdiv sweepMs) ++ [⟨sh.nextNode, ⟨d, i⟩⟩])).setSlot i
        (some { s with
          expiryBucket := d.tdiv sweepMs, expiry := sh.nextNode, hasExpiry := true }) with
      nextNode := sh.nextNode + 1 } := by
  refine ⟨?_, setBucket_sorted h.sorted _ _, h.sessions_ne, setBucket_ne h.expire_ne _ _⟩
  have hcore := h.core.arm d hs hexp
  rw [← setBucket_bucketIndex h.sorted] at hcore
  exact hcore

omit [DecidableEq M] in
/-- Storing a bucket as it is keeps the invariant. -/
theorem setBucket_self_shardInv (h : ShardInv sh) (b : Int) :
    ShardInv (sh.setBucket b (bucketIndex sh.expire b)) := by
  refine ⟨?_, setBucket_sorted h.sorted _ _, h.sessions_ne, setBucket_ne h.expire_ne _ _⟩
  rw [setBucket_bucketIndex h.sorted, Function.update_eq_self]
  exact h.core

/-- How a registration ends: nothing is left in the table, or exactly the new slot. -/
def BindOutcome (slots : Nat → Option (RpcCoroSlot M)) (i : Nat) (s₀ : RpcCoroSlot M)
    (sh' : RpcCallShard M) : Bool → Prop
  | false => ShardInv sh' ∧ sh'.slots = Function.update slots i none
  | true => ShardInv sh' ∧
      ∃ s, s.unlinked = s₀ ∧ sh'.slots = Function.update slots i (some s)

theorem bindExpiry_spec (h : ShardInv sh) (fails : AllocPoint → Bool) (iNow timeout : Int)
    (hs : sh.slots i = some s) (hexp : s.hasExpiry = false) :
    ∃ sh' ok, bindExpiry fails iNow sh i s timeout = some (sh', ok) ∧
      BindOutcome sh.slots i s.unlinked sh' ok := by
  have hrollback : ∀ sh₁ : RpcCallShard M, ShardInv sh₁ → sh₁.slots = sh.slots →
      ∃ sh' ok, (bindRollback sh₁ i s).map (fun sh => (sh, false)) = some (sh', ok) ∧
        BindOutcome sh.slots i s.unlinked sh' ok := by
    intro sh₁ h₁ hslots
    obtain ⟨sh', hroll, hinv, hslots'⟩ := bindRollback_spec h₁ (by rw [hslots]; exact hs) hexp
    exact ⟨sh', false, by rw [hroll]; rfl, hinv, by rw [hslots', hslots]⟩
  unfold bindExpiry
  split
  · dsimp only
    split
    · exact hrollback sh h rfl
    · split
      · exact hrollback _ (setBucket_self_shardInv h _) rfl
      · exact ⟨_, true, rfl, arm_shardInv h _ hs hexp, { s with
          expiryBucket := _, expiry := sh.nextNode, hasExpiry := true }, rfl, rfl⟩
  · exact ⟨sh, true, rfl, h, s, rfl, (Function.update_eq_self_iff.2 hs.symm).symm⟩

/-- **`BindRpcCall` on a new number.** Whatever allocation fails, the invariant holds when the lock
is released: either nothing is registered, or exactly the new slot. -/
theorem bindRpcCall_spec (h : ShardInv sh) (fails : AllocPoint → Bool) (iNow : Int)
    (args : BindArgs M) (hnone : sh.slots i = none) :
    ∃ sh' ok, bindRpcCall fails iNow sh i args = some (sh', ok) ∧
      BindOutcome sh.slots i (args.slot i) sh' ok := by
  have hclear : Function.update sh.slots i none = sh.slots :=
    Function.update_eq_self_iff.2 hnone.symm
  have hunchanged : BindOutcome sh.slots i (args.slot i) sh false := ⟨h, hclear.symm⟩
  unfold bindRpcCall
  split
  · exact ⟨sh, false, rfl, hunchanged⟩
  · simp only [hnone, Option.getD_none]
    have hne : ∀ k, (sh.setSlot i (some (args.slot i))).sessions k ≠ some [] := h.sessions_ne
    rcases addSessionIndex_cases hne fails (args.slot i) args.sessionId with hadd | hadd
    · -- the session node was not allocated: the slot is erased again
      simp only [hadd]
      refine ⟨sh, false, ?_, hunchanged⟩
      simp only [bindRollback, removeSessionIndex, BindArgs.slot, Bool.false_eq_true, if_false,
        Option.map_some, setSlot_setSlot]
      rw [RpcCallShard.setSlot, hclear]
    · simp only [hadd]
      have hinv := insert_shardInv h (s := { args.slot i with
        sessionIndex := sh.nextNode, indexed := true }) hnone rfl rfl rfl rfl
      have hpushed : ∀ x, (((sh.setSlot i (some (args.slot i))).pushSession
          ((args.slot i).manager, args.sessionId) (args.slot i).callId).setSlot i x) =
          (sh.pushSession (args.manager, args.sessionId) i).setSlot i x := by
        intro x
        simp only [RpcCallShard.setSlot, RpcCallShard.pushSession, RpcCallShard.setSession,
          Function.update_idem]
        rfl
      rw [hpushed]
      obtain ⟨sh', ok, hbind, hout⟩ := bindExpiry_spec hinv fails iNow args.timeoutMilliseconds
        (Function.update_self i _ sh.slots) rfl
      refine ⟨sh', ok, hbind, ?_⟩
      cases ok with
      | false => exact ⟨hout.1, hout.2.trans (Function.update_idem _ _ _)⟩
      | true =>
        obtain ⟨hinv', s, hs, hslots⟩ := hout
        exact ⟨hinv', s, hs, hslots.trans (Function.update_idem _ _ _)⟩

omit [DecidableEq M] in
/-- `MarkRpcAwaitingConnect` keeps the invariant. -/
theorem markRpcAwaitingConnect_shardInv (h : ShardInv sh) (i : Nat) :
    ShardInv (markRpcAwaitingConnect sh i).1 := by
  unfold markRpcAwaitingConnect
  cases hs : sh.slots i with
  | none => exact h
  | some s => exact ⟨h.core.modify hs rfl rfl rfl rfl, h.sorted, h.sessions_ne, h.expire_ne⟩

/-- `ClaimRpcSend` on a slot: nothing has changed when it throws, and the slot is bound to the
session when it returns. -/
theorem claimRpcSend_spec (h : ShardInv sh) (fails : AllocPoint → Bool) (sid : Int)
    (hs : sh.slots i = some s) :
    claimRpcSend fails sh i sid = some (sh, .threw) ∨
      ∃ sh' s', claimRpcSend fails sh i sid = some (sh', .claimed) ∧ ShardInv sh' ∧
        sh'.slots = Function.update sh.slots i (some s') ∧
        s'.unlinked = { s.unlinked with sessionId := sid, awaitingConnect := false } := by
  simp only [claimRpcSend, hs]
  split
  · rename_i hsid
    rcases addSessionIndex_cases h.sessions_ne fails s sid with hadd | hadd
    · left
      simp only [hadd]
    · right
      simp only [hadd]
      rw [h.core.callId i s hs]
      have hkey : s.key ≠ (s.manager, sid) := fun heq => hsid (Prod.mk.inj heq).2
      have hnode : (⟨s.sessionIndex, i⟩ : Node Nat) ∈
          (sh.pushSession (s.manager, sid) i).sessionIndex s.key := by
        rw [pushSession_sessionIndex, Function.update_of_ne hkey]
        exact h.core.session_node hs
      obtain ⟨l, hses, hsidx, hl⟩ := removeSessionIndex_spec (h.core.indexed i s hs) hnode rfl
      have hcore := h.core.rebind hs hsid
      rw [← pushSession_sessionIndex, ← hsidx] at hcore
      rw [hses, Option.map_some]
      refine ⟨_, _, rfl, ⟨hcore, h.sorted, ?_, h.expire_ne⟩, rfl, rfl⟩
      exact setSession_ne (setSession_ne h.sessions_ne _ (by simp)) _ hl
  · rename_i hsid
    right
    refine ⟨_, _, rfl, ⟨h.core.modify hs rfl rfl rfl rfl, h.sorted, h.sessions_ne, h.expire_ne⟩,
      rfl, ?_⟩
    have hsid : s.sessionId = sid := not_not.1 hsid
    simp only [RpcCoroSlot.unlinked, hsid]

end Operations

end OpenIdea.Rpc
