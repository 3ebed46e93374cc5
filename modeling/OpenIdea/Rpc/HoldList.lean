import Mathlib.Algebra.Order.BigOperators.Group.List
import OpenIdea.Lib.Keyed
import OpenIdea.Rpc.Sending

/-!
# The calls a sender holds

`ProtoClientManager` (`m_vHeldCalls`, `m_mHeldIndex`, `m_iHeldBytes`) and `RouteConnection`
(`vHeld`, `mHeld`, `iHeldBytes`) keep calls that wait for a connection in a linked list. A hash map
leads from a call's id to the list's iterator, so that a call that ends early is taken out without a
search, and a counter holds the bytes of the list. The three are changed together under the sender's
lock.

`HoldList.Wf` says that they agree. `HoldList.view` forgets the iterators: what is left is the
`HeldCalls` on which the sends of `Sending` work. Every operation keeps `Wf` (`Wf.push`, `Wf.drop`,
`wf_swapped`) and is the one of `HeldCalls` on the view (`view_push`, `view_drop`, `view_swapped`).
-/

set_option autoImplicit false

namespace OpenIdea.Rpc

open OpenIdea.Lib OpenIdea.Lib.LinkedIndex

deriving instance DecidableEq for HeldCall

/-- The list, its index and its counter. -/
structure HoldList where
  calls : List (Node HeldCall)
  /-- The iterator under each id: the address of a list node. -/
  index : ℕ → Option ℕ
  bytes : ℕ
  nextNode : ℕ

/-- `-=` on a `size_t`. -/
def subSize (a b : ℕ) : ℕ := if b ≤ a then a - b else a + 2 ^ 64 - b

namespace HoldList

def empty : HoldList := ⟨[], fun _ => none, 0, 0⟩

/-- There is no room for `size` more bytes. -/
def full (h : HoldList) (iMaxCount iMaxBytes size : ℕ) : Bool :=
  h.calls.length ≥ iMaxCount || h.bytes > iMaxBytes || size > iMaxBytes - h.bytes

/-- `push_back`, `emplace` and `+=`. -/
def push (h : HoldList) (stCall : HeldCall) : HoldList where
  calls := h.calls ++ [⟨h.nextNode, stCall⟩]
  index :=
    -- `emplace` keeps the entry of a key that is already there
    if (h.index stCall.callId).isSome then h.index
    else Function.update h.index stCall.callId (some h.nextNode)
  bytes := h.bytes + stCall.size
  nextNode := h.nextNode + 1

/-- `DropPendingCall`, `Drop`. `none` is a dangling iterator. -/
def drop (h : HoldList) (iCallId : ℕ) : Option HoldList :=
  match h.index iCallId with
  | none => some h
  | some a =>
      (h.calls.find? fun n => n.addr = a).bind fun n =>
        (eraseNode h.calls a).map fun calls =>
          { h with
            calls := calls
            index := Function.update h.index iCallId none
            bytes := subSize h.bytes n.val.size }

/-- What is left when the list has been swapped out. -/
def swapped (h : HoldList) : HoldList :=
  { h with calls := [], index := fun _ => none, bytes := 0 }

/-- The calls of the list. -/
def held (h : HoldList) : List HeldCall := h.calls.map Node.val

/-- Their ids. -/
def ids (h : HoldList) : List ℕ := h.calls.map fun n => n.val.callId

/-- The bytes of a list of calls. -/
def sizes (calls : List HeldCall) : ℕ := (calls.map HeldCall.size).sum

/-- **The list and its index describe the same calls, and the counter holds their bytes.** -/
structure Wf (h : HoldList) : Prop where
  linked : Linked HeldCall.callId (fun _ : Unit => h.calls) fun i => (h.index i).map (Prod.mk ())
  bytes : h.bytes = sizes h.held
  fresh : ∀ n ∈ h.calls, n.addr < h.nextNode

theorem linked_nil : Linked HeldCall.callId (fun _ : Unit => []) fun _ => none where
  entry := fun _ _ hn => absurd hn List.not_mem_nil
  held := fun _ _ _ h => (Option.some_ne_none _ h.symm).elim
  nodup := fun _ => List.nodup_nil

theorem wf_empty : empty.Wf where
  linked := linked_nil
  bytes := rfl
  fresh := fun _ hn => absurd hn List.not_mem_nil

namespace Wf

variable {h : HoldList}

theorem nodup_ids (hwf : h.Wf) : h.ids.Nodup := hwf.linked.nodup_ident ()

theorem index_of_mem (hwf : h.Wf) {n : Node HeldCall} (hn : n ∈ h.calls) :
    h.index n.val.callId = some n.addr := by
  obtain ⟨a, ha, heq⟩ := Option.map_eq_some_iff.1 (hwf.linked.entry () n hn)
  rw [ha, (Prod.mk.inj heq).2]

/-- The index has an entry for the ids of the list and for no others. -/
theorem index_isSome (hwf : h.Wf) (iCallId : ℕ) :
    (h.index iCallId).isSome = true ↔ iCallId ∈ h.ids := by
  rw [Option.isSome_iff_exists]
  constructor
  · rintro ⟨a, ha⟩
    obtain ⟨n, hn, -, rfl⟩ := hwf.linked.held iCallId () a (by rw [ha]; rfl)
    exact List.mem_map_of_mem hn
  · intro hid
    obtain ⟨n, hn, rfl⟩ := List.mem_map.1 hid
    exact ⟨n.addr, hwf.index_of_mem hn⟩

theorem index_eq_none (hwf : h.Wf) {iCallId : ℕ} (hid : iCallId ∉ h.ids) :
    h.index iCallId = none := by
  rw [← Option.not_isSome_iff_eq_none]
  exact fun hsome => hid ((hwf.index_isSome iCallId).1 hsome)

end Wf

/-! ## The operations -/

section Operations

variable {h : HoldList}

theorem ids_push (h : HoldList) (stCall : HeldCall) :
    (h.push stCall).ids = h.ids ++ [stCall.callId] := by
  simp [ids, push]

theorem held_push (h : HoldList) (stCall : HeldCall) :
    (h.push stCall).held = h.held ++ [stCall] := by
  simp [held, push]

theorem sizes_append (l₁ l₂ : List HeldCall) : sizes (l₁ ++ l₂) = sizes l₁ + sizes l₂ := by
  simp [sizes]

theorem Wf.push (hwf : h.Wf) {stCall : HeldCall} (hnew : stCall.callId ∉ h.ids) :
    (h.push stCall).Wf where
  linked := by
    have hnone := hwf.index_eq_none hnew
    have hlinked := hwf.linked.push () (a := h.nextNode) (v := stCall)
      (fun n hn => Nat.ne_of_lt (hwf.fresh n hn)) (by rw [hnone]; rfl)
    have hindex : (fun i => ((h.push stCall).index i).map (Prod.mk ())) =
        Function.update (fun i => (h.index i).map (Prod.mk ())) stCall.callId
          (some ((), h.nextNode)) := by
      funext i
      have hput : (h.push stCall).index = Function.update h.index stCall.callId (some h.nextNode) :=
        if_neg (by simp [hnone])
      rw [hput]
      by_cases hi : i = stCall.callId
      · subst hi
        rw [Function.update_self, Function.update_self]
        rfl
      · rw [Function.update_of_ne hi, Function.update_of_ne hi]
    rw [hindex]
    exact hlinked
  bytes := by
    rw [held_push, sizes_append, ← hwf.bytes]
    rfl
  fresh := by
    intro n hn
    rcases List.mem_append.1 hn with hn | hn
    · exact Nat.lt_succ_of_lt (hwf.fresh n hn)
    · obtain rfl := List.mem_singleton.1 hn
      exact Nat.lt_succ_self _

variable {n : Node HeldCall}

/-- The size of a call in the list is part of the counter. -/
theorem Wf.size_le (hwf : h.Wf) (hn : n ∈ h.calls) : n.val.size ≤ h.bytes := by
  rw [hwf.bytes]
  exact List.single_le_sum (fun _ _ => Nat.zero_le _) _
    (List.mem_map_of_mem (List.mem_map_of_mem hn))

theorem Wf.find?_addr (hwf : h.Wf) (hn : n ∈ h.calls) :
    (h.calls.find? fun m => m.addr = n.addr) = some n :=
  Keyed.find?_eq (hwf.linked.nodup ()) (fun _ => by simp) hn rfl

/-- Erasing a node's address is erasing its call's id. -/
theorem Wf.filter_addr (hwf : h.Wf) (hn : n ∈ h.calls) :
    (h.calls.filter fun m => m.addr ≠ n.addr) =
      h.calls.filter fun m => m.val.callId ≠ n.val.callId := by
  refine List.filter_congr fun m hm => ?_
  have hiff : m.addr = n.addr ↔ m.val.callId = n.val.callId := by
    constructor
    · intro haddr
      rw [List.inj_on_of_nodup_map (hwf.linked.nodup ()) hm hn haddr]
    · intro hid
      have hm' := hwf.index_of_mem hm
      rw [hid, hwf.index_of_mem hn] at hm'
      exact (Option.some.inj hm').symm
  simp [hiff]

/-- **A drop in a consistent list.** The iterator is good, the call leaves the list, and its bytes
leave a counter that has them. -/
theorem Wf.drop_mem (hwf : h.Wf) (hn : n ∈ h.calls) :
    h.drop n.val.callId = some
      { h with
        calls := h.calls.filter fun m => m.addr ≠ n.addr
        index := Function.update h.index n.val.callId none
        bytes := h.bytes - n.val.size } := by
  rw [drop, hwf.index_of_mem hn]
  simp only [hwf.find?_addr hn, Option.bind_some, eraseNode_of_mem hn, Option.map_some, subSize,
    if_pos (hwf.size_le hn)]

theorem Wf.drop_not_mem (hwf : h.Wf) {iCallId : ℕ} (hid : iCallId ∉ h.ids) :
    h.drop iCallId = some h := by
  rw [drop, hwf.index_eq_none hid]

theorem sizes_filter_addr (hwf : h.Wf) (hn : n ∈ h.calls) :
    sizes ((h.calls.filter fun m => m.addr ≠ n.addr).map Node.val) + n.val.size =
      sizes h.held := by
  obtain ⟨l₁, l₂, hl⟩ := List.append_of_mem hn
  have hnodup := hwf.linked.nodup ()
  rw [held, hl]
  rw [show h.calls = l₁ ++ n :: l₂ from hl] at hnodup
  rw [filter_addr_append hnodup]
  simp only [List.map_append, List.map_cons, sizes, List.sum_append, List.sum_cons]
  omega

theorem wf_erase (hwf : h.Wf) (hn : n ∈ h.calls) :
    ({ h with
      calls := h.calls.filter fun m => m.addr ≠ n.addr
      index := Function.update h.index n.val.callId none
      bytes := h.bytes - n.val.size } : HoldList).Wf where
  linked := by
    have hlinked := hwf.linked.erase (hwf.linked.entry () n hn)
    have hindex : (fun i => (Function.update h.index n.val.callId none i).map (Prod.mk ())) =
        Function.update (fun i => (h.index i).map (Prod.mk ())) n.val.callId none := by
      funext i
      by_cases hi : i = n.val.callId
      · subst hi
        rw [Function.update_self, Function.update_self]
        rfl
      · rw [Function.update_of_ne hi, Function.update_of_ne hi]
    show Linked HeldCall.callId _ fun i => (Function.update h.index n.val.callId none i).map _
    rw [hindex]
    exact hlinked
  bytes := by
    have hsum := sizes_filter_addr hwf hn
    show h.bytes - n.val.size = _
    rw [hwf.bytes, ← hsum, Nat.add_sub_cancel]
    rfl
  fresh := fun m hm => hwf.fresh m (List.mem_filter.1 hm).1

/-- **Every drop of a consistent list ends in one**, without the id. -/
theorem Wf.drop (hwf : h.Wf) (iCallId : ℕ) :
    ∃ h', h.drop iCallId = some h' ∧ h'.Wf ∧ h'.ids = h.ids.filter (· ≠ iCallId) := by
  by_cases hid : iCallId ∈ h.ids
  · obtain ⟨n, hn, rfl⟩ := List.mem_map.1 hid
    refine ⟨_, hwf.drop_mem hn, wf_erase hwf hn, ?_⟩
    simp only [ids]
    rw [hwf.filter_addr hn, List.filter_map]
    rfl
  · refine ⟨h, hwf.drop_not_mem hid, hwf, ?_⟩
    rw [List.filter_eq_self.2]
    intro i hi
    have hne : i ≠ iCallId := fun heq => hid (heq ▸ hi)
    simpa using hne

theorem wf_swapped (h : HoldList) : h.swapped.Wf where
  linked := linked_nil
  bytes := rfl
  fresh := fun _ hn => absurd hn List.not_mem_nil

@[simp] theorem ids_swapped (h : HoldList) : h.swapped.ids = [] := rfl

theorem ids_eq_map_held (h : HoldList) : h.ids = h.held.map HeldCall.callId := by
  rw [ids, held, List.map_map]
  rfl

/-- Within the limits there are the limits' numbers of calls and bytes after a push. -/
theorem within_push {iMaxCount iMaxBytes : ℕ} {stCall : HeldCall}
    (hroom : h.full iMaxCount iMaxBytes stCall.size = false) :
    (h.push stCall).calls.length ≤ iMaxCount ∧ (h.push stCall).bytes ≤ iMaxBytes := by
  simp only [full, Bool.or_eq_false_iff, decide_eq_false_iff_not] at hroom
  obtain ⟨⟨hcount, hbytes⟩, hsize⟩ := hroom
  have hlength : (h.push stCall).calls.length = h.calls.length + 1 := by simp [push]
  refine ⟨by omega, ?_⟩
  show h.bytes + stCall.size ≤ iMaxBytes
  omega

end Operations

/-! ## The list without its iterators -/

/-- The list as `Sending` has it. -/
def view (h : HoldList) (iMaxCount iMaxBytes : ℕ) : HeldCalls :=
  ⟨h.held, h.bytes, iMaxCount, iMaxBytes⟩

section View

variable {h : HoldList} (iMaxCount iMaxBytes : ℕ)

theorem view_full (size : ℕ) :
    (h.view iMaxCount iMaxBytes).full size = h.full iMaxCount iMaxBytes size := by
  simp [view, HeldCalls.full, full, held]

theorem view_push (stCall : HeldCall) :
    (h.push stCall).view iMaxCount iMaxBytes =
      (h.view iMaxCount iMaxBytes).push stCall.callId stCall.size := by
  simp only [view, held_push, HeldCalls.push]
  rfl

theorem view_swapped :
    h.swapped.view iMaxCount iMaxBytes = (h.view iMaxCount iMaxBytes).swapped := rfl

/-- **The iterator finds what a search by the id finds.** -/
theorem view_drop (hwf : h.Wf) {h' : HoldList} {iCallId : ℕ} (hdrop : h.drop iCallId = some h') :
    h'.view iMaxCount iMaxBytes = (h.view iMaxCount iMaxBytes).drop iCallId := by
  have hnodup : (h.held.map HeldCall.callId).Nodup := by
    rw [← ids_eq_map_held]
    exact hwf.nodup_ids
  by_cases hid : iCallId ∈ h.ids
  · obtain ⟨n, hn, rfl⟩ := List.mem_map.1 hid
    obtain rfl := Option.some.inj (hdrop.symm.trans (hwf.drop_mem hn))
    have hfind : (h.held.find? fun c => c.callId = n.val.callId) = some n.val :=
      Keyed.find?_eq hnodup (fun _ => by simp) (List.mem_map_of_mem hn) rfl
    simp only [view, HeldCalls.drop, hfind]
    congr 1
    -- the first call of the id is the only one
    rw [Keyed.eraseP_eq_filter (k := n.val.callId) hnodup fun _ => of_decide_eq_true]
    simp only [held]
    rw [hwf.filter_addr hn, List.filter_map]
    congr 1
    exact List.filter_congr fun m _ => by simp
  · rw [Option.some.inj (hdrop.symm.trans (hwf.drop_not_mem hid))]
    have hfind : (h.held.find? fun c => c.callId = iCallId) = none := by
      rw [List.find?_eq_none]
      intro c hc
      have hne : c.callId ≠ iCallId := by
        rintro rfl
        rw [ids_eq_map_held] at hid
        exact hid (List.mem_map_of_mem hc)
      simpa using hne
    simp only [view, HeldCalls.drop, hfind]

end View

/-! ## Runs -/

inductive Op
  | push (stCall : HeldCall)
  | drop (iCallId : ℕ)
  | swap

/-- A sender pushes a new call, and only where there is room. -/
def step (iMaxCount iMaxBytes : ℕ) (h : HoldList) : Op → Option HoldList
  | .push stCall =>
      if stCall.callId ∉ h.ids ∧ h.full iMaxCount iMaxBytes stCall.size = false then
        some (h.push stCall)
      else none
  | .drop iCallId => h.drop iCallId
  | .swap => some h.swapped

/-- The same without iterators. -/
def plainStep (h : HeldCalls) : Op → HeldCalls
  | .push stCall => h.push stCall.callId stCall.size
  | .drop iCallId => h.drop iCallId
  | .swap => h.swapped

/-- The list is consistent and stands for `k`. -/
def Stands (iMaxCount iMaxBytes : ℕ) (h : HoldList) (k : HeldCalls) : Prop :=
  h.Wf ∧ h.view iMaxCount iMaxBytes = k

theorem stands_step {iMaxCount iMaxBytes : ℕ} {h h' : HoldList} {k : HeldCalls} {op : Op}
    (hk : Stands iMaxCount iMaxBytes h k) (hstep : step iMaxCount iMaxBytes h op = some h') :
    Stands iMaxCount iMaxBytes h' (plainStep k op) := by
  obtain ⟨hwf, rfl⟩ := hk
  cases op with
  | push stCall =>
    obtain ⟨⟨hnew, -⟩, rfl⟩ := Runs.of_guard hstep
    exact ⟨hwf.push hnew, view_push _ _ stCall⟩
  | drop iCallId =>
    obtain ⟨h₁, hdrop, hwf', -⟩ := hwf.drop iCallId
    obtain rfl := Option.some.inj (hdrop.symm.trans hstep)
    exact ⟨hwf', view_drop _ _ hwf hdrop⟩
  | swap =>
    obtain rfl := Option.some.inj hstep
    exact ⟨wf_swapped h, view_swapped _ _⟩

theorem stands_run {iMaxCount iMaxBytes : ℕ} {ops : List Op} {h h' : HoldList} {k : HeldCalls}
    (hk : Stands iMaxCount iMaxBytes h k)
    (hrun : Runs.runFrom (step iMaxCount iMaxBytes) h ops = some h') :
    Stands iMaxCount iMaxBytes h' (ops.foldl plainStep k) := by
  induction ops generalizing h k with
  | nil =>
    obtain rfl := Option.some.inj hrun
    exact hk
  | cons op ops ih =>
    obtain ⟨h₁, hstep, hrest⟩ := Runs.runFrom_cons.1 hrun
    exact ih (stands_step hk hstep) hrest

/-- **The index is only an index.** In every run the list is what the plain one is after the same
operations, its index and its counter agree with it, and no iterator is ever dangling. -/
theorem hold_list_refines {iMaxCount iMaxBytes : ℕ} {ops : List Op} {h : HoldList}
    (hrun : Runs.runFrom (step iMaxCount iMaxBytes) empty ops = some h) :
    h.Wf ∧ h.view iMaxCount iMaxBytes = ops.foldl plainStep ⟨[], 0, iMaxCount, iMaxBytes⟩ ∧
      ∀ iCallId, (h.drop iCallId).isSome := by
  obtain ⟨hwf, hview⟩ := stands_run ⟨wf_empty, rfl⟩ hrun
  refine ⟨hwf, hview, fun iCallId => ?_⟩
  obtain ⟨h', hdrop, -, -⟩ := hwf.drop iCallId
  rw [hdrop]
  rfl

theorem hold_list_refines_dropped : ∃ h, Runs.runFrom (step 8 100) empty
    [.push ⟨0, 4⟩, .push ⟨1, 5⟩, .drop 0] = some h ∧ h.view 8 100 = ⟨[⟨1, 5⟩], 5, 8, 100⟩ := by
  obtain ⟨h, hrun⟩ := Option.isSome_iff_exists.1 (show (Runs.runFrom (step 8 100) empty
    [.push ⟨0, 4⟩, .push ⟨1, 5⟩, .drop 0]).isSome = true by decide)
  exact ⟨h, hrun, (hold_list_refines hrun).2.1⟩

end HoldList

/-! ## What a sender sees of the call table -/

/-- The part of a slot that a sender reads or writes. -/
structure CallSlot where
  bAwaitingConnect : Bool
  iSessionId : ℤ
  deriving DecidableEq, Repr

/-- The slots by their call ids. -/
abbrev CallTable := ℕ → Option CallSlot

namespace CallTable

/-- `MarkRpcAwaitingConnect`; `none` is its `false`. -/
def mark (calls : CallTable) (iCallId : ℕ) : Option CallTable :=
  (calls iCallId).map fun stSlot =>
    Function.update calls iCallId (some { stSlot with bAwaitingConnect := true })

/-- `ClaimRpcSend`; `none` is its `false`. -/
def claim (calls : CallTable) (iCallId : ℕ) (iSessionId : ℤ) : Option CallTable :=
  (calls iCallId).map fun _ => Function.update calls iCallId (some ⟨false, iSessionId⟩)

/-- The slot is taken out. -/
def erase (calls : CallTable) (iCallId : ℕ) : CallTable := Function.update calls iCallId none

section Shards

variable {M : Type} [DecidableEq M]

/-- What a sender sees of a shard. -/
def ofShard (sh : RpcCallShard M) : CallTable := fun iCallId =>
  (sh.slots iCallId).map fun s => ⟨s.awaitingConnect, s.sessionId⟩

omit [DecidableEq M] in
theorem ofShard_setSlot (sh : RpcCallShard M) (iCallId : ℕ) (s : Option (RpcCoroSlot M)) :
    ofShard (sh.setSlot iCallId s) =
      Function.update (ofShard sh) iCallId (s.map fun s => ⟨s.awaitingConnect, s.sessionId⟩) := by
  funext i
  by_cases hi : i = iCallId
  · subst hi
    simp [ofShard, RpcCallShard.setSlot]
  · simp [ofShard, RpcCallShard.setSlot, Function.update_of_ne hi]

variable {sh sh' : RpcCallShard M}

omit [DecidableEq M] in
theorem ofShard_congr (h : sh'.slots = sh.slots) : ofShard sh' = ofShard sh := by
  funext i
  simp only [ofShard, h]

omit [DecidableEq M] in
theorem mark_ofShard (sh : RpcCallShard M) (iCallId : ℕ) :
    (ofShard sh).mark iCallId =
      if (markRpcAwaitingConnect sh iCallId).2 then
        some (ofShard (markRpcAwaitingConnect sh iCallId).1)
      else none := by
  cases hslot : sh.slots iCallId with
  | none => simp [mark, ofShard, markRpcAwaitingConnect, hslot]
  | some s =>
    simp only [markRpcAwaitingConnect, hslot, if_true, ofShard_setSlot]
    simp [mark, ofShard, hslot]

theorem slots_addSessionIndex (fails : AllocPoint → Bool) (sh : RpcCallShard M)
    (s : RpcCoroSlot M) (iSessionId : ℤ) :
    (addSessionIndex fails sh s iSessionId).1.slots = sh.slots := by
  simp only [addSessionIndex]
  split
  · rfl
  · split <;> rfl

theorem slots_removeSessionIndex {s s' : RpcCoroSlot M}
    (h : removeSessionIndex sh s = some (sh', s')) :
    sh'.slots = sh.slots ∧ s'.awaitingConnect = s.awaitingConnect := by
  rw [removeSessionIndex] at h
  split at h
  · obtain ⟨l, -, h⟩ := Option.bind_eq_some_iff.1 h
    obtain ⟨l', -, h⟩ := Option.map_eq_some_iff.1 h
    obtain ⟨rfl, rfl⟩ := Prod.mk.inj h
    exact ⟨rfl, rfl⟩
  · obtain ⟨rfl, rfl⟩ := Prod.mk.inj (Option.some.inj h)
    exact ⟨rfl, rfl⟩

omit [DecidableEq M] in
theorem slots_removeRpcExpiry {s s' : RpcCoroSlot M} (h : removeRpcExpiry sh s = some (sh', s')) :
    sh'.slots = sh.slots ∧ s'.awaitingConnect = s.awaitingConnect := by
  rw [removeRpcExpiry] at h
  split at h
  · obtain ⟨l, -, h⟩ := Option.bind_eq_some_iff.1 h
    obtain ⟨l', -, h⟩ := Option.map_eq_some_iff.1 h
    obtain ⟨rfl, rfl⟩ := Prod.mk.inj h
    exact ⟨rfl, rfl⟩
  · obtain ⟨rfl, rfl⟩ := Prod.mk.inj (Option.some.inj h)
    exact ⟨rfl, rfl⟩

/-- A claim that does not throw does to the shard what it does to the table. -/
theorem claim_ofShard {fails : AllocPoint → Bool} {iCallId : ℕ} {iSessionId : ℤ} {r : ClaimResult}
    (h : claimRpcSend fails sh iCallId iSessionId = some (sh', r)) (hr : r ≠ .threw) :
    (ofShard sh).claim iCallId iSessionId =
      if r = .claimed then some (ofShard sh') else none := by
  cases hslot : sh.slots iCallId with
  | none =>
    rw [claimRpcSend, hslot] at h
    obtain ⟨-, rfl⟩ := Prod.mk.inj (Option.some.inj h)
    simp [claim, ofShard, hslot]
  | some s =>
    have hclaim : (ofShard sh).claim iCallId iSessionId =
        some (Function.update (ofShard sh) iCallId (some ⟨false, iSessionId⟩)) := by
      simp [claim, ofShard, hslot]
    simp only [claimRpcSend, hslot] at h
    by_cases hsid : s.sessionId = iSessionId
    · rw [if_neg (by simpa using hsid)] at h
      obtain ⟨rfl, rfl⟩ := Prod.mk.inj (Option.some.inj h)
      rw [hclaim, if_pos rfl, ofShard_setSlot]
      simp [hsid]
    · rw [if_pos hsid] at h
      cases hadd : addSessionIndex fails sh s iSessionId with
      | mk sh₁ a? =>
        have hslots₁ : sh₁.slots = sh.slots := by
          have := slots_addSessionIndex fails sh s iSessionId
          rwa [hadd] at this
        simp only [hadd] at h
        cases a? with
        | none =>
          obtain ⟨-, rfl⟩ := Prod.mk.inj (Option.some.inj h)
          exact absurd rfl hr
        | some a =>
          obtain ⟨⟨sh₂, s₂⟩, hremove, h⟩ := Option.map_eq_some_iff.1 h
          obtain ⟨rfl, rfl⟩ := Prod.mk.inj h
          rw [hclaim, if_pos rfl, ofShard_setSlot,
            ofShard_congr ((slots_removeSessionIndex hremove).1.trans hslots₁)]
          rfl

/-- The same for a slot that is taken out: what is found there is what the table had. -/
theorem erase_ofShard {g g' : Guards} {iCallId : ℕ} {s? : Option (RpcCoroSlot M)}
    (h : takeRpcSlot sh g iCallId none = some (sh', g', s?)) :
    ofShard sh' = (ofShard sh).erase iCallId ∧
      s?.map RpcCoroSlot.awaitingConnect =
        (ofShard sh iCallId).map CallSlot.bAwaitingConnect := by
  cases hslot : sh.slots iCallId with
  | none =>
    rw [takeRpcSlot, hslot] at h
    obtain ⟨rfl, hrest⟩ := Prod.mk.inj (Option.some.inj h)
    obtain ⟨-, rfl⟩ := Prod.mk.inj hrest
    refine ⟨?_, by simp [ofShard, hslot]⟩
    rw [erase, eq_comm, Function.update_eq_self_iff]
    simp [ofShard, hslot]
  | some s =>
    simp only [takeRpcSlot, hslot] at h
    rw [if_pos (by simp)] at h
    obtain ⟨⟨sh₁, s₁⟩, hexpiry, h⟩ := Option.bind_eq_some_iff.1 h
    obtain ⟨⟨sh₂, s₂⟩, hindex, h⟩ := Option.map_eq_some_iff.1 h
    obtain ⟨hslots₁, hawait₁⟩ := slots_removeRpcExpiry hexpiry
    obtain ⟨hslots₂, hawait₂⟩ := slots_removeSessionIndex hindex
    obtain ⟨rfl, hrest⟩ := Prod.mk.inj h
    obtain ⟨-, rfl⟩ := Prod.mk.inj hrest
    refine ⟨?_, ?_⟩
    · rw [ofShard_setSlot, ofShard_congr (hslots₂.trans hslots₁)]
      rfl
    · have harmed : (armRpcGuard g s₂).2.awaitingConnect = s₂.awaitingConnect := by
        rw [armRpcGuard]
        split
        · rfl
        · split <;> rfl
      simp [ofShard, hslot, harmed, hawait₂, hawait₁]

end Shards

end CallTable

end OpenIdea.Rpc
