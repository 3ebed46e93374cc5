import OpenIdea.Lib.Tally
import OpenIdea.Rpc.FailCalls

/-!
# Awaiters and their guards

`Dispatch` of a `RpcCallAwaiter` binds a call whose slot has pointers to the awaiter's fields and
shares the awaiter's guard. Whoever takes the slot out works on it outside the lock, with the guard
armed. The destructor takes the slot out itself, or waits until the guard is back at zero.

An awaiter is the number of its guard. Its destructor runs beside any other use of the call table.
The main result is `awaiter_guarded`.
-/

set_option autoImplicit false

namespace OpenIdea.Rpc

open OpenIdea.Lib OpenIdea.Lib.Runs OpenIdea.Lib.Tally

variable {M : Type}

/-! ## The guards count the slots that were taken out -/

/-- The completions that work with guard `p`. -/
def refs (p : Nat) (cs : List (Completion M)) : Nat := cs.countP fun c => c.slot.guard = some p

/-- A slot with a guard has it armed. -/
def Armed (cs : List (Completion M)) : Prop :=
  ∀ c ∈ cs, ∀ p, c.slot.guard = some p → c.slot.guardArmed = true

theorem refs_append (p : Nat) (cs ds : List (Completion M)) :
    refs p (cs ++ ds) = refs p cs + refs p ds :=
  List.countP_append

theorem refs_eq_zero {p : Nat} {cs : List (Completion M)} :
    refs p cs = 0 ↔ ∀ c ∈ cs, c.slot.guard ≠ some p := by
  rw [refs, List.countP_eq_zero]
  simp only [decide_eq_true_eq, ne_eq]

theorem armRpcGuard_armed (g : Guards) (s : RpcCoroSlot M) {p : Nat}
    (h : (armRpcGuard g s).2.guard = some p) : (armRpcGuard g s).2.guardArmed = true := by
  unfold armRpcGuard at h ⊢
  split at h
  · rename_i hnone
    rw [hnone] at h
    cases h
  · split at h
    · rename_i harmed
      rw [if_pos harmed]
      exact harmed
    · rename_i harmed
      rw [if_neg harmed]

theorem armAll_armed (g : Guards) (ss : List (RpcCoroSlot M)) :
    ∀ t ∈ (armAll g ss).2, ∀ p, t.guard = some p → t.guardArmed = true := by
  induction ss generalizing g with
  | nil =>
    intro t ht
    cases ht
  | cons s ss ih =>
    intro t ht p hp
    rcases List.mem_cons.1 ht with rfl | ht
    · exact armRpcGuard_armed g s hp
    · exact ih (armRpcGuard g s).1 t ht p hp

/-- What is armed is what works with the guard. -/
theorem armedAt_eq_refs {cs : List (Completion M)} (h : Armed cs) (p : Nat) :
    armedAt p (cs.map Completion.slot) = refs p cs := by
  rw [armedAt, refs, List.countP_map]
  refine List.countP_congr fun c hc => ?_
  simp only [Function.comp_apply, decide_eq_true_eq]
  constructor
  · exact fun hboth => hboth.1
  · exact fun hp => ⟨hp, h c hc p hp⟩

section Guards

variable [DecidableEq M]

/-- The slots that an event takes out, each with its guard armed and counted. -/
structure GuardsAdded (S S' : CallSystem M) (cs : List (Completion M)) : Prop where
  inFlight : S'.inFlight = S.inFlight ++ cs
  armed : Armed cs
  guards : ∀ p, S'.guards p = S.guards p + refs p cs

variable {S S' : CallSystem M}

omit [DecidableEq M] in
theorem GuardsAdded.none (hflight : S'.inFlight = S.inFlight) (hguards : S'.guards = S.guards) :
    GuardsAdded S S' [] where
  inFlight := hflight.trans (List.append_nil _).symm
  armed := fun c hc => by cases hc
  guards := fun p => by
    rw [hguards]
    exact (Int.add_zero _).symm

theorem take_guards (h : TableInv S) (harm : Unarmed S.table) {i : Nat}
    {filter : Option (TakeFilter M)} {iCode : Int} {reply : Option (Reply M)}
    (htake : S.take i filter iCode reply = some S') : ∃ cs, GuardsAdded S S' cs := by
  unfold CallSystem.take at htake
  cases hs : (S.shards (shardOf i)).slots i with
  | none =>
    rw [takeRpcSlot_missing hs] at htake
    obtain rfl := Option.some.inj htake
    exact ⟨[], .none rfl rfl⟩
  | some s =>
    by_cases hf : ∀ f ∈ filter, f.Matches s
    · obtain ⟨sh', hout, -, -⟩ := takeRpcSlot_spec (h.shard (shardOf i)) S.guards hs hf
      rw [hout] at htake
      obtain rfl := Option.some.inj htake
      have hdetached : s.detached.guardArmed = false := by
        refine harm.detached [i] s.detached ?_
        rw [detachedSlots_cons (show S.table i = some s from hs)]
        exact List.mem_cons_self
      have harmed : Armed [(⟨(armRpcGuard S.guards s.detached).2, iCode, reply⟩ : Completion M)] := by
        intro c hc p hp
        obtain rfl := List.mem_singleton.1 hc
        exact armRpcGuard_armed _ _ hp
      refine ⟨_, rfl, harmed, fun p => ?_⟩
      rw [← armedAt_eq_refs harmed]
      exact armRpcGuard_apply S.guards hdetached p
    · have hnot : ∃ f, filter = some f ∧ ¬ f.Matches s := by
        by_contra hno
        refine hf fun f hf' => ?_
        by_contra hne
        exact hno ⟨f, hf', hne⟩
      obtain ⟨f, rfl, hmatch⟩ := hnot
      rw [takeRpcSlot_mismatch hs hmatch] at htake
      obtain rfl := Option.some.inj htake
      exact ⟨[], .none rfl rfl⟩

omit [DecidableEq M] in
/-- The loops take slots out in the same way. -/
theorem loop_guards {S S' : CallSystem M} {slots : Nat → Option (RpcCoroSlot M)}
    (harm : Unarmed slots) {ids : List Nat} {code : RpcCoroSlot M → Int}
    (hflight : S'.inFlight = S.inFlight ++
      ((armAll S.guards (detachedSlots slots ids)).2.map fun s => ⟨s, code s, none⟩))
    (hguards : S'.guards = (armAll S.guards (detachedSlots slots ids)).1) :
    ∃ cs, GuardsAdded S S' cs := by
  have harmed : Armed ((armAll S.guards (detachedSlots slots ids)).2.map fun s =>
      (⟨s, code s, none⟩ : Completion M)) := by
    intro c hc p hp
    obtain ⟨s, hs, rfl⟩ := List.mem_map.1 hc
    exact armAll_armed _ _ s hs p hp
  refine ⟨_, hflight, harmed, fun p => ?_⟩
  rw [← armedAt_eq_refs harmed, List.map_map, hguards,
    armAll_apply S.guards (harm.detached ids) p]
  exact congrArg (fun ss => S.guards p + (armedAt p ss : Int)) (List.map_id _).symm

/-- Every event but the end of a completion takes slots out, perhaps none. -/
theorem callStep_guards (h : TableInv S) (harm : Unarmed S.table) {e : CallEvent M}
    (hstep : callStep S e = some S') (hfinish : ∀ n, e ≠ .finish n) (hlose : ∀ n, e ≠ .lose n) :
    ∃ cs, GuardsAdded S S' cs := by
  have hshard : ∀ j, Unarmed (S.shards j).slots := fun j i s hs =>
    harm i s (h.table_of_shard hs).2
  cases e with
  | draw =>
    obtain rfl := Option.some.inj hstep
    exact ⟨[], .none rfl rfl⟩
  | bind i args fails iNow =>
    simp only [callStep] at hstep
    split at hstep
    · obtain ⟨r, -, rfl⟩ := Option.map_eq_some_iff.1 hstep
      exact ⟨[], .none rfl rfl⟩
    · obtain rfl := Option.some.inj hstep
      exact ⟨[], .none rfl rfl⟩
  | claim i sid fails =>
    obtain ⟨r, -, rfl⟩ := Option.map_eq_some_iff.1 hstep
    exact ⟨[], .none rfl rfl⟩
  | mark i =>
    obtain rfl := Option.some.inj hstep
    exact ⟨[], .none rfl rfl⟩
  | wake i iCode => exact take_guards h harm hstep
  | deliver iId bytes m sid =>
    simp only [callStep] at hstep
    split at hstep
    · obtain rfl := Option.some.inj hstep
      exact ⟨[], .none rfl rfl⟩
    · exact take_guards h harm hstep
  | sweep j iNow fails =>
    simp only [callStep] at hstep
    split at hstep
    · obtain ⟨st', e, ids, hrun, -, -, -, -, hg, hfired, -, -⟩ :=
        sweepShard_spec fails iNow ⟨S.shards j, S.guards, []⟩ (h.shard j)
      rw [hrun] at hstep
      obtain rfl := Option.some.inj hstep
      refine @loop_guards M S _ _ (hshard j) ids sweepCode ?_ hg
      exact congrArg (fun fired => S.inFlight ++ List.map _ fired) hfired
    · obtain rfl := Option.some.inj hstep
      exact ⟨[], .none rfl rfl⟩
  | fail j m sid =>
    simp only [callStep] at hstep
    split at hstep
    · cases hl : (S.shards j).sessions (m, sid) with
      | none =>
        rw [failBatch_missing hl] at hstep
        obtain rfl := Option.some.inj hstep
        exact ⟨[], .none (List.append_nil _) rfl⟩
      | some l =>
        obtain ⟨sh', hbatch, -⟩ := failBatch_spec (h.shard j) S.guards hl
        rw [hbatch] at hstep
        obtain rfl := Option.some.inj hstep
        exact loop_guards (hshard j) rfl rfl
    · obtain rfl := Option.some.inj hstep
      exact ⟨[], .none rfl rfl⟩
  | abandon i =>
    obtain ⟨r, -, rfl⟩ := Option.map_eq_some_iff.1 hstep
    exact ⟨[], .none rfl rfl⟩
  | finish n => exact absurd rfl (hfinish n)
  | lose n => exact absurd rfl (hlose n)

end Guards

/-! ## Awaiters -/

/-- How far an awaiter is: `Dispatch` has made its guard, has a call number, has returned from
`BindRpcCall`; the destructor has returned from `AbandonRpcCall`; nothing of it is left. -/
inductive Awaiter where
  | fresh
  | drawn (iCallId : Nat)
  | bound (iCallId : Nat)
  | abandoned (iCallId : Nat)
  | gone
  deriving DecidableEq

structure AwaiterSystem (M : Type) where
  calls : CallSystem M
  /-- What each run of `FinishRpcSlot` has still to do, in the order of `inFlight`. -/
  left : List (List (RpcAction M))
  awaiters : List Awaiter

def AwaiterSystem.init (M : Type) : AwaiterSystem M := ⟨CallSystem.init M, [], []⟩

inductive AwaiterEvent (M : Type) where
  /-- any other use of the call table -/
  | call (e : CallEvent M)
  | dispatch
  /-- `Dispatch` draws a number -/
  | number (p : Nat)
  /-- `Dispatch` binds its call -/
  | bind (p : Nat) (args : BindArgs M) (fails : AllocPoint → Bool) (iNow : Int)
  /-- the `n`-th run of `FinishRpcSlot` goes on by a statement -/
  | act (n : Nat)
  /-- the `n`-th run of `FinishRpcSlot` returns -/
  | finish (n : Nat)
  /-- `AbandonRpcCall` of the destructor -/
  | abandon (p : Nat)
  /-- a load in `WaitRpcGuard` -/
  | wait (p : Nat)

/-- The statements of the `FinishRpcSlot` of a completion. -/
def Completion.actions (c : Completion M) : List (RpcAction M) :=
  finishActions c.slot c.code (c.reply.map Reply.body)

/-- The slots that were taken out since have everything still to do. -/
def AwaiterSystem.withCalls (S : AwaiterSystem M) (calls : CallSystem M) : AwaiterSystem M :=
  { S with
    calls := calls
    left := S.left ++ (calls.inFlight.drop S.calls.inFlight.length).map Completion.actions }

/-- A use of the call table by others: calls that are not awaited have no guard, a number is bound
by whoever has drawn it, and a completion neither throws nor is lost. -/
def Other (awaiters : List Awaiter) : CallEvent M → Prop
  | .bind i args _ _ => args.guard = none ∧ .drawn i ∉ awaiters
  | .finish _ => False
  | .lose _ => False
  | _ => True

instance (awaiters : List Awaiter) (e : CallEvent M) : Decidable (Other awaiters e) := by
  cases e <;> unfold Other <;> infer_instance

section System

variable [DecidableEq M]

def awaiterStep (S : AwaiterSystem M) : AwaiterEvent M → Option (AwaiterSystem M)
  | .call e => if Other S.awaiters e then (callStep S.calls e).map S.withCalls else none
  | .dispatch => some { S with awaiters := S.awaiters ++ [.fresh] }
  | .number p =>
      match S.awaiters[p]? with
      | some .fresh =>
          (callStep S.calls .draw).map fun calls =>
            { S.withCalls calls with
              awaiters := S.awaiters.set p (.drawn (callIdOf S.calls.issued)) }
      | _ => none
  | .bind p args fails iNow =>
      match S.awaiters[p]? with
      | some (.drawn i) =>
          let args := { args with guard := some p }
          (bindRpcCall fails iNow (S.calls.shards (shardOf i)) i args).bind fun r =>
            (callStep S.calls (.bind i args fails iNow)).map fun calls =>
              { S.withCalls calls with
                awaiters := S.awaiters.set p (if r.2 then .bound i else .gone) }
      | _ => none
  | .act n =>
      match S.left[n]? with
      | some (_ :: rest) => some { S with left := S.left.set n rest }
      | _ => none
  | .finish n =>
      match S.left[n]? with
      | some [] =>
          (callStep S.calls (.finish n)).map fun calls =>
            { S with calls := calls, left := S.left.eraseIdx n }
      | _ => none
  | .abandon p =>
      match S.awaiters[p]? with
      | some (.bound i) =>
          (callStep S.calls (.abandon i)).map fun calls =>
            { S.withCalls calls with awaiters := S.awaiters.set p (.abandoned i) }
      | _ => none
  | .wait p =>
      match S.awaiters[p]? with
      | some (.abandoned _) =>
          if S.calls.guards p = 0 then some { S with awaiters := S.awaiters.set p .gone }
          else some S
      | _ => none

end System

/-- The statement reads or writes fields of the awaiter. -/
def RpcAction.usesAwaiter : RpcAction M → Bool
  | .senderDrop _ _ => false
  | .managerDrop _ _ => false
  | .decode _ _ _ => true
  | .writeResult _ _ => true
  | .resume _ => true
  | .schedule _ => true

/-- The next statement of the `n`-th run of `FinishRpcSlot` is at the fields of awaiter `p`. -/
def Touches (S : AwaiterSystem M) (n p : Nat) : Prop :=
  ∃ c a rest, S.calls.inFlight[n]? = some c ∧ S.left[n]? = some (a :: rest) ∧
    c.slot.guard = some p ∧ a.usesAwaiter = true

/-! ### The call table below -/

/-- What the awaiters rely on: the guards count the completions that work with them. -/
structure CallsInv (S : CallSystem M) : Prop where
  table : TableInv S
  unarmed : Unarmed S.table
  tracked : Tracked S.view
  armed : Armed S.inFlight
  guards : ∀ p, S.guards p = refs p S.inFlight

theorem callsInv_init : CallsInv (CallSystem.init M) where
  table := init_tableInv
  unarmed := fun i s hs => by cases hs
  tracked := init_tracked
  armed := fun c hc => by cases hc
  guards := fun p => rfl

section Calls

variable [DecidableEq M] {S S' : CallSystem M} {e : CallEvent M}

theorem CallsInv.move (h : CallsInv S) (hstep : callStep S e = some S') :
    TableInv S' ∧ CallMove S.view e S'.view := by
  obtain ⟨S₁, hstep₁, hS₁, hmove⟩ := callStep_move h.table (h.tracked.freshBind e)
  obtain rfl := Option.some.inj (hstep.symm.trans hstep₁)
  exact ⟨hS₁, hmove⟩

omit [DecidableEq M] in
theorem issued_map {α : Type} {o : Option α} {f : α → CallSystem M}
    (h : o.map f = some S') (hf : ∀ r, (f r).issued = S.issued) : S.issued ≤ S'.issued := by
  obtain ⟨r, -, rfl⟩ := Option.map_eq_some_iff.1 h
  exact Nat.le_of_eq (hf r).symm

omit [DecidableEq M] in
theorem issued_guarded {c : Prop} [Decidable c] {α : Type} {o : Option α} {f : α → CallSystem M}
    (h : (if c then o.map f else some S) = some S') (hf : ∀ r, (f r).issued = S.issued) :
    S.issued ≤ S'.issued := by
  split at h
  · exact issued_map h hf
  · obtain rfl := Option.some.inj h
    exact Nat.le_refl _

variable {i : Nat} {v v' : CallView M}

theorem take_issued {filter : Option (TakeFilter M)} {iCode : Int} {reply : Option (Reply M)}
    (htake : S.take i filter iCode reply = some S') : S.issued ≤ S'.issued := by
  refine issued_map htake fun r => ?_
  split
  · rfl
  · rfl

/-- Numbers are only drawn, never given back. -/
theorem callStep_issued (hstep : callStep S e = some S') : S.issued ≤ S'.issued := by
  cases e with
  | draw =>
    obtain rfl := Option.some.inj hstep
    exact Nat.le_succ _
  | bind i args fails iNow => exact issued_guarded hstep fun r => rfl
  | claim i sid fails => exact issued_map hstep fun r => rfl
  | mark i =>
    obtain rfl := Option.some.inj hstep
    exact Nat.le_refl _
  | wake i iCode => exact take_issued hstep
  | deliver iId bytes m sid =>
    rw [callStep] at hstep
    split at hstep
    · obtain rfl := Option.some.inj hstep
      exact Nat.le_refl _
    · exact take_issued hstep
  | sweep j iNow fails => exact issued_guarded hstep fun r => rfl
  | fail j m sid => exact issued_guarded hstep fun r => rfl
  | abandon i => exact issued_map hstep fun r => rfl
  | finish n =>
    rw [callStep] at hstep
    split at hstep
    · obtain rfl := Option.some.inj hstep
      exact Nat.le_refl _
    · obtain rfl := Option.some.inj hstep
      exact Nat.le_refl _
  | lose n =>
    obtain rfl := Option.some.inj hstep
    exact Nat.le_refl _

/-- Anything but the end of a completion adds the slots it takes out. -/
theorem CallsInv.step (h : CallsInv S) (hstep : callStep S e = some S')
    (hfinish : ∀ n, e ≠ .finish n) (hlose : ∀ n, e ≠ .lose n) (hbound : S'.issued ≤ 2 ^ 63) :
    CallsInv S' ∧ ∃ cs, S'.inFlight = S.inFlight ++ cs := by
  obtain ⟨hS', hmove⟩ := h.move hstep
  obtain ⟨cs, hcs⟩ := callStep_guards h.table h.unarmed hstep hfinish hlose
  refine ⟨⟨hS', h.unarmed.move hmove, h.tracked.move hmove (fun j s => h.table.callId) hbound,
    fun c hc p hp => ?_, fun p => ?_⟩, cs, hcs.inFlight⟩
  · rw [hcs.inFlight] at hc
    rcases List.mem_append.1 hc with hc | hc
    · exact h.armed c hc p hp
    · exact hcs.armed c hc p hp
  · rw [hcs.guards, h.guards, hcs.inFlight, refs_append, Nat.cast_add]

/-- A completion that returns gives its guard back. -/
theorem CallsInv.finish (h : CallsInv S) {n : Nat} {c : Completion M}
    (hc : S.inFlight[n]? = some c) (hstep : callStep S (.finish n) = some S')
    (hbound : S.issued ≤ 2 ^ 63) :
    CallsInv S' ∧ S'.inFlight = S.inFlight.eraseIdx n ∧ S'.table = S.table ∧
      S'.pending = S.pending := by
  obtain ⟨hS', hmove⟩ := h.move hstep
  simp only [callStep, hc] at hstep
  obtain rfl := Option.some.inj hstep
  refine ⟨⟨hS', h.unarmed.move hmove, h.tracked.move hmove (fun j s => h.table.callId) hbound,
    fun d hd => h.armed d (List.mem_of_mem_eraseIdx hd), fun p => ?_⟩, rfl, rfl, rfl⟩
  have hsingle : Armed [c] := by
    intro d hd
    obtain rfl := List.mem_singleton.1 hd
    exact h.armed d (List.mem_of_getElem? hc)
  have hrefs := countP_eraseIdx (fun c => decide (c.slot.guard = some p)) hc
  have harmed := armedAt_eq_refs hsingle p
  show releaseGuard S.guards c.slot p = refs p (S.inFlight.eraseIdx n)
  rw [releaseGuard_apply, h.guards]
  simp only [refs, List.map_singleton] at harmed hrefs ⊢
  omega

/-- Where a slot of the table with guard `p` comes from. -/
theorem move_table (h : CallMove v e v') {p : Nat} {s' : RpcCoroSlot M} (hs' : v'.table i = some s')
    (hp : s'.guard = some p) :
    (∃ s, v.table i = some s ∧ s.guard = some p) ∨
      ∃ args fails iNow, e = .bind i args fails iNow ∧ args.guard = some p ∧
        v.table i = none := by
  -- a slot that the move has not written was there before
  have hupdate : ∀ {j : Nat} {x : Option (RpcCoroSlot M)},
      Function.update v.table j x i = some s' → (i = j ∧ x = some s') ∨ v.table i = some s' := by
    intro j x hx
    by_cases hj : i = j
    · subst hj
      rw [Function.update_self] at hx
      exact Or.inl ⟨rfl, hx⟩
    · rw [Function.update_of_ne hj] at hx
      exact Or.inr hx
  cases h with
  | bound j args fails iNow s hi hnone hs =>
    rcases hupdate hs' with ⟨rfl, hx⟩ | hold
    · obtain rfl := Option.some.inj hx
      exact Or.inr ⟨args, fails, iNow, rfl, (congrArg RpcCoroSlot.guard hs).symm.trans hp, hnone⟩
    · exact Or.inl ⟨s', hold, hp⟩
  | claimed j sid fails s t hs ht =>
    rcases hupdate hs' with ⟨rfl, hx⟩ | hold
    · obtain rfl := Option.some.inj hx
      exact Or.inl ⟨s, hs, (congrArg RpcCoroSlot.guard ht).symm.trans hp⟩
    · exact Or.inl ⟨s', hold, hp⟩
  | marked j s hs =>
    rcases hupdate hs' with ⟨rfl, hx⟩ | hold
    · obtain rfl := Option.some.inj hx
      exact Or.inl ⟨s, hs, hp⟩
    · exact Or.inl ⟨s', hold, hp⟩
  | woken j iCode s t hs ht | delivered j iId bytes m sid s t hi hs ht hm =>
    rcases hupdate hs' with ⟨-, hx⟩ | hold
    · cases hx
    · exact Or.inl ⟨s', hold, hp⟩
  | taken _ ids ts code hnodup hids hts =>
    simp only [eraseSlots] at hs'
    obtain ⟨_, hs'⟩ := Option.ite_none_left_eq_some.1 hs'
    exact Or.inl ⟨s', hs', hp⟩
  | abandoned j =>
    rcases hupdate hs' with ⟨-, hx⟩ | hold
    · cases hx
    · exact Or.inl ⟨s', hold, hp⟩
  | _ => exact Or.inl ⟨s', hs', hp⟩

/-- Where a slot that was taken out comes from. -/
theorem move_taken (h : CallMove v e v') (hid : ∀ j s, v.table j = some s → s.callId = j)
    {c : Completion M} (hc : c ∈ v'.inFlight) {p : Nat} (hp : c.slot.guard = some p) :
    c ∈ v.inFlight ∨ ∃ s, v.table c.slot.callId = some s ∧ s.guard = some p := by
  -- a completion has the call of the slot that it took out, and with it its guard and its number
  have hslot : ∀ {i : Nat} {s t : RpcCoroSlot M}, v.table i = some s → t.call = s.call →
      t.guard = some p → ∃ s, v.table t.callId = some s ∧ s.guard = some p := by
    intro i s t hs ht hguard
    refine ⟨s, ?_, (congrArg RpcCoroSlot.guard ht).symm.trans hguard⟩
    rw [callId_of_call ht, hid i s hs, hs]
  cases h with
  | woken i iCode s t hs ht | delivered i iId bytes m sid s t hi hs ht hm =>
    rcases List.mem_append.1 hc with hc | hc
    · exact Or.inl hc
    · obtain rfl := List.mem_singleton.1 hc
      exact Or.inr (hslot hs ht hp)
  | taken _ ids ts code hnodup hids hts =>
    rcases List.mem_append.1 hc with hc | hc
    · exact Or.inl hc
    · obtain ⟨t, ht, rfl⟩ := List.mem_map.1 hc
      obtain ⟨s, hs, hcall⟩ := hts t ht
      exact Or.inr (hslot hs hcall hp)
  | finished n d hd => exact Or.inl (List.mem_of_mem_eraseIdx hc)
  | lost n => exact Or.inl (List.mem_of_mem_eraseIdx hc)
  | _ => exact Or.inl hc

/-- A number that is waiting to be bound goes on waiting until it is bound. -/
theorem move_pending (h : CallMove v e v') (hi : i ∈ v.pending) :
    i ∈ v'.pending ∨ ∃ args fails iNow, e = .bind i args fails iNow := by
  have herase : ∀ {j : Nat}, j ≠ i → i ∈ v.pending.erase j := fun hj =>
    (List.mem_erase_of_ne (Ne.symm hj)).2 hi
  cases h with
  | drawn => exact Or.inl (List.mem_cons_of_mem _ hi)
  | bound j args fails iNow s hj hnone hs | bindFailed j args fails iNow =>
    by_cases hji : j = i
    · subst hji
      exact Or.inr ⟨args, fails, iNow, rfl⟩
    · exact Or.inl (herase hji)
  | _ => exact Or.inl hi

end Calls

/-! ### Where an awaiter is referred to

A slot that points to an awaiter, in the table or in the hands of a thread, is the one that the
awaiter has bound. -/

/-- A slot of the table with guard `p` is the one that `p` has bound, and a slot that was taken out
is that one as well. -/
structure AwaiterInv (S : AwaiterSystem M) : Prop where
  calls : CallsInv S.calls
  left : S.left.length = S.calls.inFlight.length
  pending : ∀ (p i : Nat), S.awaiters[p]? = some (.drawn i) → i ∈ S.calls.pending
  own : ∀ (p q i : Nat), S.awaiters[p]? = some (.drawn i) → S.awaiters[q]? = some (.drawn i) → p = q
  inTable : ∀ i s p, S.calls.table i = some s → s.guard = some p →
    S.awaiters[p]? = some (.bound i)
  taken : ∀ c ∈ S.calls.inFlight, ∀ p, c.slot.guard = some p →
    S.awaiters[p]? = some (.bound c.slot.callId) ∨ S.awaiters[p]? = some (.abandoned c.slot.callId)

theorem awaiterInv_init : AwaiterInv (AwaiterSystem.init M) where
  calls := callsInv_init
  left := rfl
  pending := fun p i h => by cases h
  own := fun p q i h => by cases h
  inTable := fun i s p h => by cases h
  taken := fun c h => by cases h

section Steps

variable [DecidableEq M] {S S' : AwaiterSystem M}

/-- The awaiters of a state after the call table has made a step. -/
theorem AwaiterInv.withCalls (h : AwaiterInv S) {calls : CallSystem M} {e : CallEvent M}
    (hstep : callStep S.calls e = some calls) (hfinish : ∀ n, e ≠ .finish n)
    (hlose : ∀ n, e ≠ .lose n) (hbound : calls.issued ≤ 2 ^ 63) {awaiters : List Awaiter}
    (hpending : ∀ (p i : Nat), awaiters[p]? = some (.drawn i) → i ∈ calls.pending)
    (hown : ∀ (p q i : Nat), awaiters[p]? = some (.drawn i) → awaiters[q]? = some (.drawn i) → p = q)
    (hinTable : ∀ i s p, calls.table i = some s → s.guard = some p →
      awaiters[p]? = some (.bound i))
    (htaken : ∀ (i p : Nat),
      S.awaiters[p]? = some (.bound i) ∨ S.awaiters[p]? = some (.abandoned i) →
      awaiters[p]? = some (.bound i) ∨ awaiters[p]? = some (.abandoned i)) :
    AwaiterInv { S.withCalls calls with awaiters := awaiters } := by
  obtain ⟨hcalls, cs, hcs⟩ := h.calls.step hstep hfinish hlose hbound
  obtain ⟨-, hmove⟩ := h.calls.move hstep
  refine ⟨hcalls, ?_, hpending, hown, hinTable, fun c hc p hp => ?_⟩
  · show (S.left ++ (calls.inFlight.drop S.calls.inFlight.length).map Completion.actions).length =
      calls.inFlight.length
    rw [hcs, List.drop_left, List.length_append, List.length_append, List.length_map, h.left]
  · refine htaken _ _ ?_
    rcases move_taken hmove (fun j s => h.calls.table.callId) hc hp with hc | ⟨s, hs, hguard⟩
    · exact h.taken c hc p hp
    · exact Or.inl (h.inTable _ s p hs hguard)

theorem AwaiterInv.call (h : AwaiterInv S) {calls : CallSystem M} {e : CallEvent M}
    (hother : Other S.awaiters e) (hstep : callStep S.calls e = some calls)
    (hbound : calls.issued ≤ 2 ^ 63) : AwaiterInv (S.withCalls calls) := by
  obtain ⟨-, hmove⟩ := h.calls.move hstep
  refine h.withCalls hstep ?_ ?_ hbound (fun p i hp => ?_) h.own (fun i s p hs hguard => ?_)
    fun i p => id
  · rintro n rfl
    exact hother
  · rintro n rfl
    exact hother
  · rcases move_pending hmove (h.pending p i hp) with hi | ⟨args, fails, iNow, rfl⟩
    · exact hi
    · exact absurd (List.mem_of_getElem? hp) hother.2
  · rcases move_table hmove hs hguard with ⟨s₀, hs₀, hguard₀⟩ | ⟨args, fails, iNow, rfl, hargs, -⟩
    · exact h.inTable i s₀ p hs₀ hguard₀
    · rw [hother.1] at hargs
      cases hargs

omit [DecidableEq M] in
theorem AwaiterInv.dispatch (h : AwaiterInv S) :
    AwaiterInv { S with awaiters := S.awaiters ++ [.fresh] } := by
  have hdrawn : ∀ (p i : Nat), (S.awaiters ++ [.fresh])[p]? = some (.drawn i) →
      S.awaiters[p]? = some (.drawn i) := by
    intro p i hp
    rcases getElem?_concat_iff.1 hp with hp | ⟨-, hp⟩
    · exact hp
    · cases hp
  refine ⟨h.calls, h.left, fun p i hp => h.pending p i (hdrawn p i hp),
    fun p q i hp hq => h.own p q i (hdrawn p i hp) (hdrawn q i hq), fun i s p hs hguard => ?_,
    fun c hc p hp => ?_⟩
  · exact getElem?_concat_iff.2 (Or.inl (h.inTable i s p hs hguard))
  · exact (h.taken c hc p hp).imp (fun hb => getElem?_concat_iff.2 (Or.inl hb))
      fun ha => getElem?_concat_iff.2 (Or.inl ha)

/-- `Dispatch` draws a number that no other awaiter has. -/
theorem AwaiterInv.number (h : AwaiterInv S) {p : Nat} (hp : S.awaiters[p]? = some .fresh)
    {calls : CallSystem M} (hstep : callStep S.calls .draw = some calls)
    (hbound : calls.issued ≤ 2 ^ 63) :
    AwaiterInv { S.withCalls calls with
      awaiters := S.awaiters.set p (.drawn (callIdOf S.calls.issued)) } := by
  have hcalls : calls = { S.calls with
      issued := S.calls.issued + 1, pending := callIdOf S.calls.issued :: S.calls.pending } :=
    (Option.some.inj hstep).symm
  -- the number is new: below 2 ^ 63 draws the counter has not come round
  have hnew : callIdOf S.calls.issued ∉ S.calls.pending := by
    intro hmem
    have hzero := h.calls.tracked.weight_new (by rw [hcalls] at hbound; exact hbound)
    have hpos := List.count_pos_iff.2 hmem
    simp only [CallView.weight, CallSystem.view] at hzero
    omega
  have hkeep : ∀ (q : Nat) (a : Awaiter), a ≠ .fresh → S.awaiters[q]? = some a →
      (S.awaiters.set p (.drawn (callIdOf S.calls.issued)))[q]? = some a :=
    fun q a ha hq => getElem?_set_keep hp hq ha
  refine h.withCalls hstep (fun n hn => by cases hn) (fun n hn => by cases hn) hbound
    (fun q i hq => ?_) (fun q q' i hq hq' => ?_) (fun i s q hs hguard => ?_) fun i q hq => ?_
  · rw [hcalls]
    rcases getElem?_set_cases hq with ⟨-, hi⟩ | ⟨-, hq⟩
    · obtain rfl := Awaiter.drawn.inj hi
      exact List.mem_cons_self
    · exact List.mem_cons_of_mem _ (h.pending q i hq)
  · rcases getElem?_set_cases hq with ⟨rfl, hi⟩ | ⟨-, hold⟩
    · obtain rfl := Awaiter.drawn.inj hi
      rcases getElem?_set_cases hq' with ⟨rfl, -⟩ | ⟨-, hold⟩
      · rfl
      · exact absurd (h.pending q' _ hold) hnew
    · rcases getElem?_set_cases hq' with ⟨rfl, hi⟩ | ⟨-, hq'⟩
      · obtain rfl := Awaiter.drawn.inj hi
        exact absurd (h.pending q _ hold) hnew
      · exact h.own q q' i hold hq'
  · rw [hcalls] at hs
    exact hkeep q _ (fun hf => by cases hf) (h.inTable i s q hs hguard)
  · exact hq.imp (hkeep q _ fun hf => by cases hf) (hkeep q _ fun hf => by cases hf)

variable {i p : Nat}

/-- A registration that threw leaves the number free. -/
theorem bind_threw {T T' : CallSystem M} (hT : TableInv T) {args : BindArgs M}
    {fails : AllocPoint → Bool} {iNow : Int} {sh : RpcCallShard M} (hi : i ∈ T.pending)
    (hnone : T.table i = none)
    (hbind : bindRpcCall fails iNow (T.shards (shardOf i)) i args = some (sh, false))
    (hstep : callStep T (.bind i args fails iNow) = some T') : T'.table i = none := by
  obtain ⟨sh', ok, hspec, hout⟩ := bindRpcCall_spec (hT.shard (shardOf i)) fails iNow args hnone
  obtain ⟨rfl, rfl⟩ := Prod.mk.inj (Option.some.inj (hbind.symm.trans hspec))
  rw [callStep_bind hi hbind] at hstep
  obtain rfl := Option.some.inj hstep
  show ((T.setShard (shardOf i) sh).shards (shardOf i)).slots i = none
  rw [setShard_shards_self, hout.2, Function.update_self]

theorem abandon_table {T T' : CallSystem M} (hT : TableInv T)
    (hstep : callStep T (.abandon i) = some T') : T'.table i = none := by
  obtain ⟨r, hr, rfl⟩ := Option.map_eq_some_iff.1 hstep
  show ((T.setShard (shardOf i) r.1).shards (shardOf i)).slots i = none
  rw [setShard_shards_self]
  cases hs : (T.shards (shardOf i)).slots i with
  | none =>
    rw [abandonRpcCall, hs] at hr
    obtain rfl := Option.some.inj hr
    exact hs
  | some s =>
    obtain ⟨sh', hab, -, hslots⟩ := abandonRpcCall_spec (hT.shard (shardOf i)) hs
    obtain rfl := Option.some.inj (hab.symm.trans hr)
    rw [hslots, Function.update_self]

/-- `Dispatch` binds its number with its guard, or throws and leaves nothing behind. -/
theorem AwaiterInv.bind (h : AwaiterInv S) (hp : S.awaiters[p]? = some (.drawn i))
    {args : BindArgs M} (hargs : args.guard = some p) {fails : AllocPoint → Bool} {iNow : Int}
    {r : RpcCallShard M × Bool}
    (hbind : bindRpcCall fails iNow (S.calls.shards (shardOf i)) i args = some r)
    {calls : CallSystem M} (hstep : callStep S.calls (.bind i args fails iNow) = some calls)
    (hbound : calls.issued ≤ 2 ^ 63) :
    AwaiterInv { S.withCalls calls with
      awaiters := S.awaiters.set p (if r.2 then .bound i else .gone) } := by
  obtain ⟨-, hmove⟩ := h.calls.move hstep
  have hend : ∀ j, Awaiter.drawn j ≠ (if r.2 then .bound i else .gone) := by
    intro j
    split
    · exact fun he => by cases he
    · exact fun he => by cases he
  have hdrawn : ∀ (q j : Nat),
      (S.awaiters.set p (if r.2 then .bound i else .gone))[q]? = some (.drawn j) →
      q ≠ p ∧ S.awaiters[q]? = some (.drawn j) :=
    fun q j hq => getElem?_set_old hq (hend j)
  have hkeep : ∀ (q : Nat) (a : Awaiter), a ≠ .drawn i → S.awaiters[q]? = some a →
      (S.awaiters.set p (if r.2 then .bound i else .gone))[q]? = some a :=
    fun q a ha hq => getElem?_set_keep hp hq ha
  refine h.withCalls hstep (fun n hn => by cases hn) (fun n hn => by cases hn) hbound
    (fun q j hq => ?_) (fun q q' j hq hq' => h.own q q' j (hdrawn q j hq).2 (hdrawn q' j hq').2)
    (fun j s q hs hguard => ?_) fun j q hq => ?_
  · obtain ⟨hne, hq⟩ := hdrawn q j hq
    rcases move_pending hmove (h.pending q j hq) with hj | ⟨args', fails', iNow', he⟩
    · exact hj
    · -- only the awaiter itself binds its number
      cases he
      exact absurd (h.own q p i hq hp) hne
  · rcases move_table hmove hs hguard with
      ⟨s₀, hs₀, hguard₀⟩ | ⟨args', fails', iNow', he, hargs', hnone⟩
    · exact hkeep q _ (fun hf => by cases hf) (h.inTable j s₀ q hs₀ hguard₀)
    · cases he
      obtain rfl := Option.some.inj (hargs.symm.trans hargs')
      obtain ⟨sh, ok⟩ := r
      cases ok with
      | true => exact (getElem?_set_iff hp).2 (Or.inl ⟨rfl, rfl⟩)
      | false =>
        -- `BindRpcCall` threw: the slot that would have the guard is not there
        rw [bind_threw h.calls.table (h.pending p i hp) hnone hbind hstep] at hs
        cases hs
  · exact hq.imp (hkeep q _ fun hf => by cases hf) (hkeep q _ fun hf => by cases hf)

theorem AwaiterInv.finish (h : AwaiterInv S) {n : Nat} (hn : S.left[n]? = some [])
    {calls : CallSystem M} (hstep : callStep S.calls (.finish n) = some calls)
    (hbound : S.calls.issued ≤ 2 ^ 63) :
    AwaiterInv { S with calls := calls, left := S.left.eraseIdx n } := by
  have hlt : n < S.calls.inFlight.length := h.left ▸ (List.getElem?_eq_some_iff.1 hn).1
  obtain ⟨hcalls, hflight, htable, hpending⟩ :=
    h.calls.finish (List.getElem?_eq_getElem hlt) hstep hbound
  refine ⟨hcalls, ?_, fun p i hp => hpending.symm ▸ h.pending p i hp, h.own,
    fun i s p hs => h.inTable i s p (htable ▸ hs), fun c hc => h.taken c ?_⟩
  · show (S.left.eraseIdx n).length = calls.inFlight.length
    rw [hflight, List.length_eraseIdx, List.length_eraseIdx, h.left]
  · have hc : c ∈ S.calls.inFlight.eraseIdx n := hflight ▸ hc
    exact List.mem_of_mem_eraseIdx hc

/-- After `AbandonRpcCall` the awaiter has no slot in the table. -/
theorem AwaiterInv.abandon (h : AwaiterInv S) (hp : S.awaiters[p]? = some (.bound i))
    {calls : CallSystem M} (hstep : callStep S.calls (.abandon i) = some calls)
    (hbound : calls.issued ≤ 2 ^ 63) :
    AwaiterInv { S.withCalls calls with awaiters := S.awaiters.set p (.abandoned i) } := by
  obtain ⟨-, hmove⟩ := h.calls.move hstep
  have hdrawn : ∀ (q j : Nat), (S.awaiters.set p (.abandoned i))[q]? = some (.drawn j) →
      S.awaiters[q]? = some (.drawn j) :=
    fun q j hq => (getElem?_set_old hq fun he => by cases he).2
  refine h.withCalls hstep (fun n hn => by cases hn) (fun n hn => by cases hn) hbound
    (fun q j hq => ?_) (fun q q' j hq hq' => h.own q q' j (hdrawn q j hq) (hdrawn q' j hq'))
    (fun j s q hs hguard => ?_) fun j q hq => ?_
  · rcases move_pending hmove (h.pending q j (hdrawn q j hq)) with hj | ⟨args, fails, iNow, he⟩
    · exact hj
    · cases he
  · rcases move_table hmove hs hguard with ⟨s₀, hs₀, hguard₀⟩ | ⟨args, fails, iNow, he, -, -⟩
    · refine getElem?_set_keep hp (h.inTable j s₀ q hs₀ hguard₀) fun hj => ?_
      -- the slot would be the one that `AbandonRpcCall` has just taken away
      obtain rfl := Awaiter.bound.inj hj
      rw [abandon_table h.calls.table hstep] at hs
      cases hs
    · cases he
  · by_cases hqp : q = p
    · -- the awaiter's own slot may be with a completion: the awaiter waits for it
      subst hqp
      refine Or.inr ((getElem?_set_iff hp).2 (Or.inl ⟨rfl, ?_⟩))
      rcases hq with hq | hq
      · obtain rfl := Awaiter.bound.inj (Option.some.inj (hq.symm.trans hp))
        rfl
      · cases hq.symm.trans hp
    · exact hq.imp (fun hb => (getElem?_set_iff hp).2 (Or.inr ⟨hqp, hb⟩))
        fun ha => (getElem?_set_iff hp).2 (Or.inr ⟨hqp, ha⟩)

omit [DecidableEq M] in
/-- A guard at zero: nobody works with the awaiter any more. -/
theorem AwaiterInv.gone (h : AwaiterInv S) (hp : S.awaiters[p]? = some (.abandoned i))
    (hzero : S.calls.guards p = 0) : AwaiterInv { S with awaiters := S.awaiters.set p .gone } := by
  -- the guard counts the completions at the awaiter, so there is none
  have hnone : ∀ c ∈ S.calls.inFlight, c.slot.guard ≠ some p := by
    rw [h.calls.guards p] at hzero
    exact refs_eq_zero.1 (Int.natCast_eq_zero.1 hzero)
  have hdrawn : ∀ (q j : Nat), (S.awaiters.set p .gone)[q]? = some (.drawn j) →
      S.awaiters[q]? = some (.drawn j) :=
    fun q j hq => (getElem?_set_old hq fun he => by cases he).2
  refine ⟨h.calls, h.left, fun q j hq => h.pending q j (hdrawn q j hq),
    fun q q' j hq hq' => h.own q q' j (hdrawn q j hq) (hdrawn q' j hq'),
    fun j s q hs hguard => ?_, fun c hc q hq => ?_⟩
  · exact getElem?_set_keep hp (h.inTable j s q hs hguard) fun he => by cases he
  · have hne : q ≠ p := by
      rintro rfl
      exact hnone c hc hq
    exact (h.taken c hc q hq).imp (fun hb => (getElem?_set_iff hp).2 (Or.inr ⟨hne, hb⟩))
      fun ha => (getElem?_set_iff hp).2 (Or.inr ⟨hne, ha⟩)

/-! ### Whole runs -/

/-- What an event can do. -/
inductive AwaiterMove (S : AwaiterSystem M) : AwaiterSystem M → Prop
  | call (e : CallEvent M) (calls : CallSystem M) (hother : Other S.awaiters e)
      (hcall : callStep S.calls e = some calls) : AwaiterMove S (S.withCalls calls)
  | dispatched : AwaiterMove S { S with awaiters := S.awaiters ++ [.fresh] }
  | numbered (p : Nat) (calls : CallSystem M) (hp : S.awaiters[p]? = some .fresh)
      (hcall : callStep S.calls .draw = some calls) :
      AwaiterMove S { S.withCalls calls with
        awaiters := S.awaiters.set p (.drawn (callIdOf S.calls.issued)) }
  | bound (p i : Nat) (args : BindArgs M) (fails : AllocPoint → Bool) (iNow : Int)
      (r : RpcCallShard M × Bool) (calls : CallSystem M) (hp : S.awaiters[p]? = some (.drawn i))
      (hargs : args.guard = some p)
      (hbind : bindRpcCall fails iNow (S.calls.shards (shardOf i)) i args = some r)
      (hcall : callStep S.calls (.bind i args fails iNow) = some calls) :
      AwaiterMove S { S.withCalls calls with
        awaiters := S.awaiters.set p (if r.2 then .bound i else .gone) }
  | acted (n : Nat) (rest : List (RpcAction M)) :
      AwaiterMove S { S with left := S.left.set n rest }
  | finished (n : Nat) (calls : CallSystem M) (hn : S.left[n]? = some [])
      (hcall : callStep S.calls (.finish n) = some calls) :
      AwaiterMove S { S with calls := calls, left := S.left.eraseIdx n }
  | abandoned (p i : Nat) (calls : CallSystem M) (hp : S.awaiters[p]? = some (.bound i))
      (hcall : callStep S.calls (.abandon i) = some calls) :
      AwaiterMove S { S.withCalls calls with awaiters := S.awaiters.set p (.abandoned i) }
  | waiting : AwaiterMove S S
  | gone (p i : Nat) (hp : S.awaiters[p]? = some (.abandoned i)) (hzero : S.calls.guards p = 0) :
      AwaiterMove S { S with awaiters := S.awaiters.set p .gone }

theorem awaiterStep_move {e : AwaiterEvent M} (hstep : awaiterStep S e = some S') :
    AwaiterMove S S' := by
  cases e with
  | call e =>
    obtain ⟨hother, hstep⟩ := Option.ite_none_right_eq_some.1 hstep
    obtain ⟨calls, hcall, rfl⟩ := Option.map_eq_some_iff.1 hstep
    exact .call e calls hother hcall
  | dispatch =>
    obtain rfl := Option.some.inj hstep
    exact .dispatched
  | number p =>
    rw [awaiterStep] at hstep
    split at hstep
    · rename_i hp
      obtain ⟨calls, hcall, rfl⟩ := Option.map_eq_some_iff.1 hstep
      exact .numbered p calls hp hcall
    · cases hstep
  | bind p args fails iNow =>
    rw [awaiterStep] at hstep
    split at hstep
    · rename_i i hp
      obtain ⟨r, hbind, hstep⟩ := Option.bind_eq_some_iff.1 hstep
      obtain ⟨calls, hcall, rfl⟩ := Option.map_eq_some_iff.1 hstep
      exact .bound p i _ fails iNow r calls hp rfl hbind hcall
    · cases hstep
  | act n =>
    rw [awaiterStep] at hstep
    split at hstep
    · obtain rfl := Option.some.inj hstep
      exact .acted n _
    · cases hstep
  | finish n =>
    rw [awaiterStep] at hstep
    split at hstep
    · rename_i hn
      obtain ⟨calls, hcall, rfl⟩ := Option.map_eq_some_iff.1 hstep
      exact .finished n calls hn hcall
    · cases hstep
  | abandon p =>
    rw [awaiterStep] at hstep
    split at hstep
    · rename_i i hp
      obtain ⟨calls, hcall, rfl⟩ := Option.map_eq_some_iff.1 hstep
      exact .abandoned p i calls hp hcall
    · cases hstep
  | wait p =>
    rw [awaiterStep] at hstep
    split at hstep
    · rename_i i hp
      split at hstep
      · rename_i hzero
        obtain rfl := Option.some.inj hstep
        exact .gone p i hp hzero
      · obtain rfl := Option.some.inj hstep
        exact .waiting
    · cases hstep

theorem AwaiterMove.issued_le (hmove : AwaiterMove S S') :
    S.calls.issued ≤ S'.calls.issued := by
  cases hmove with
  | call e calls hother hcall => exact callStep_issued hcall
  | numbered p calls hp hcall => exact callStep_issued hcall
  | bound p i args fails iNow r calls hp hargs hbind hcall => exact callStep_issued hcall
  | finished n calls hn hcall => exact callStep_issued hcall
  | abandoned p i calls hp hcall => exact callStep_issued hcall
  | _ => exact Nat.le_refl _

/-- Every event keeps the guards exact. -/
theorem AwaiterInv.move (h : AwaiterInv S) (hmove : AwaiterMove S S')
    (hbound : S'.calls.issued ≤ 2 ^ 63) : AwaiterInv S' := by
  have hissued := hmove.issued_le
  cases hmove with
  | call e calls hother hcall => exact h.call hother hcall hbound
  | dispatched => exact h.dispatch
  | numbered p calls hp hcall => exact h.number hp hcall hbound
  | bound p i args fails iNow r calls hp hargs hbind hcall =>
    exact h.bind hp hargs hbind hcall hbound
  | acted n rest =>
    exact ⟨h.calls, List.length_set.trans h.left, h.pending, h.own, h.inTable, h.taken⟩
  | finished n calls hn hcall => exact h.finish hn hcall (hissued.trans hbound)
  | abandoned p i calls hp hcall => exact h.abandon hp hcall hbound
  | waiting => exact h
  | gone p i hp hzero => exact h.gone hp hzero

/-- What is left of an awaiter does not change any more. -/
theorem AwaiterMove.stays_gone (hmove : AwaiterMove S S') (hp : S.awaiters[p]? = some .gone) :
    S'.awaiters[p]? = some .gone := by
  have hset : ∀ {q : Nat} {a b : Awaiter}, S.awaiters[q]? = some a → a ≠ .gone →
      (S.awaiters.set q b)[p]? = some .gone :=
    fun hq ha => getElem?_set_keep hq hp ha.symm
  cases hmove with
  | dispatched => exact getElem?_concat_iff.2 (Or.inl hp)
  | numbered q calls hq hcall => exact hset hq fun he => by cases he
  | bound q i args fails iNow r calls hq hargs hbind hcall => exact hset hq fun he => by cases he
  | abandoned q i calls hq hcall => exact hset hq fun he => by cases he
  | gone q i hq hzero => exact hset hq fun he => by cases he
  | _ => exact hp

omit [DecidableEq M] in
/-- At most one completion works with a guard: the one of the call that the awaiter has bound. -/
theorem AwaiterInv.refs_le_one (h : AwaiterInv S) (p : Nat) : refs p S.calls.inFlight ≤ 1 := by
  by_cases hnone : refs p S.calls.inFlight = 0
  · omega
  · obtain ⟨i, hi⟩ : ∃ i, ∀ c ∈ S.calls.inFlight, c.slot.guard = some p → c.slot.callId = i := by
      cases hp : S.awaiters[p]? with
      | none =>
        refine absurd (refs_eq_zero.2 fun c hc hguard => ?_) hnone
        rcases h.taken c hc p hguard with hb | ha
        · cases hb.symm.trans hp
        · cases ha.symm.trans hp
      | some a =>
        have hcase : ∀ c ∈ S.calls.inFlight, c.slot.guard = some p →
            a = .bound c.slot.callId ∨ a = .abandoned c.slot.callId := fun c hc hguard =>
          (h.taken c hc p hguard).imp (fun hb => Option.some.inj (hp.symm.trans hb))
            fun ha => Option.some.inj (hp.symm.trans ha)
        cases a with
        | bound i =>
          refine ⟨i, fun c hc hguard => ?_⟩
          rcases hcase c hc hguard with he | he
          · exact (Awaiter.bound.inj he).symm
          · cases he
        | abandoned i =>
          refine ⟨i, fun c hc hguard => ?_⟩
          rcases hcase c hc hguard with he | he
          · cases he
          · exact (Awaiter.abandoned.inj he).symm
        | _ =>
          refine absurd (refs_eq_zero.2 fun c hc hguard => ?_) hnone
          rcases hcase c hc hguard with he | he
          · cases he
          · cases he
    -- a call that is completed once has at most one completion on its way
    have hle : refs p S.calls.inFlight ≤ completionsOf i S.calls.inFlight := by
      refine List.countP_mono_left fun c hc hguard => ?_
      exact decide_eq_true (hi c hc (of_decide_eq_true hguard))
    have hone := h.calls.tracked.le_one i
    simp only [CallView.weight, CallSystem.view] at hone
    omega

omit [DecidableEq M] in
/-- What is gone has no slot left, neither in the table nor taken out. -/
theorem AwaiterInv.not_touched (h : AwaiterInv S) (hp : S.awaiters[p]? = some .gone) :
    (∀ i s, S.calls.table i = some s → s.guard ≠ some p) ∧ ∀ n, ¬ Touches S n p := by
  refine ⟨fun i s hs hguard => ?_, ?_⟩
  · cases (h.inTable i s p hs hguard).symm.trans hp
  · rintro n ⟨c, a, rest, hc, -, hguard, -⟩
    rcases h.taken c (List.mem_of_getElem? hc) p hguard with hb | ha
    · cases hb.symm.trans hp
    · cases ha.symm.trans hp

theorem awaiterInv_run {es : List (AwaiterEvent M)} (hrun : runFrom awaiterStep S es = some S')
    (h : AwaiterInv S) (hbound : S'.calls.issued ≤ 2 ^ 63) : AwaiterInv S' := by
  -- the counter only grows, so a bound at the end of the run holds all along it
  refine runFrom_invariant (I := fun T : AwaiterSystem M => T.calls.issued ≤ 2 ^ 63 → AwaiterInv T)
    (fun T e T' hT hstep hT' => ?_) (fun _ => h) hrun hbound
  have hmove := awaiterStep_move hstep
  exact (hT (hmove.issued_le.trans hT')).move hmove hT'

/-- A guard counts the completions that have taken its slot out and have not returned, at most one.
Once the destructor has seen it at zero, no statement of a completion is at the awaiter any more. -/
theorem awaiter_guarded {es : List (AwaiterEvent M)}
    (hrun : runFrom awaiterStep (AwaiterSystem.init M) es = some S)
    (hbound : S.calls.issued ≤ 2 ^ 63) :
    (∀ p, S.calls.guards p = refs p S.calls.inFlight ∧ refs p S.calls.inFlight ≤ 1) ∧
      ∀ p, S.awaiters[p]? = some .gone → ∀ es' S', runFrom awaiterStep S es' = some S' →
        S'.calls.issued ≤ 2 ^ 63 → S'.awaiters[p]? = some .gone ∧
          (∀ i s, S'.calls.table i = some s → s.guard ≠ some p) ∧ ∀ n, ¬ Touches S' n p := by
  have h := awaiterInv_run hrun awaiterInv_init hbound
  refine ⟨fun p => ⟨h.calls.guards p, h.refs_le_one p⟩, fun p hp es' S' hrun' hbound' => ?_⟩
  have hgone : S'.awaiters[p]? = some .gone :=
    runFrom_invariant (I := fun T : AwaiterSystem M => T.awaiters[p]? = some .gone)
      (fun T e T' hT hstep => (awaiterStep_move hstep).stays_gone hT) hp hrun'
  exact ⟨hgone, (awaiterInv_run hrun' h hbound').not_touched hgone⟩

end Steps

/-- A call is woken while its awaiter goes away: the destructor waits for the completion. -/
def wokenWhileDestroyed : List (AwaiterEvent Unit) :=
  [.dispatch, .number 0,
    .bind 0 { plainCall with result := true, resume := true } (fun _ => false) 8,
    .call (.wake 1 oiErrConnect), .abandon 0, .wait 0, .act 0, .act 0, .finish 0]

/-- What the run shows: the guard of awaiter `0`, the awaiters, the numbers drawn, and whether the next
statement of a completion uses an awaiter. -/
def AwaiterSystem.shown (S : AwaiterSystem Unit) : Int × List Awaiter × Nat × List (Option Bool) :=
  (S.calls.guards 0, S.awaiters, S.calls.issued,
    S.left.map fun acts => acts.head?.map RpcAction.usesAwaiter)

theorem awaiter_guarded_woken :
    ∃ S₁ S, runFrom awaiterStep (AwaiterSystem.init Unit) (wokenWhileDestroyed.take 6) = some S₁ ∧
      S₁.shown = (1, [.abandoned 1], 1, [some true]) ∧
      runFrom awaiterStep (AwaiterSystem.init Unit) (wokenWhileDestroyed ++ [.wait 0]) = some S ∧
      S.shown = (0, [.gone], 1, []) ∧
      ∀ es' S', runFrom awaiterStep S es' = some S' → S'.calls.issued ≤ 2 ^ 63 →
        ∀ n, ¬ Touches S' n 0 := by
  have hwaits : (runFrom awaiterStep (AwaiterSystem.init Unit) (wokenWhileDestroyed.take 6)).map
      AwaiterSystem.shown = some (1, [.abandoned 1], 1, [some true]) := by
    decide +kernel
  have hgone : (runFrom awaiterStep (AwaiterSystem.init Unit)
      (wokenWhileDestroyed ++ [.wait 0])).map AwaiterSystem.shown = some (0, [.gone], 1, []) := by
    decide +kernel
  obtain ⟨S₁, hrun₁, hshown₁⟩ := Option.map_eq_some_iff.1 hwaits
  obtain ⟨S, hrun, hshown⟩ := Option.map_eq_some_iff.1 hgone
  have hbound : S.calls.issued ≤ 2 ^ 63 := by
    rw [show S.calls.issued = 1 from congrArg (fun x => x.2.2.1) hshown]
    decide
  have hp : S.awaiters[0]? = some .gone := by
    rw [show S.awaiters = [.gone] from congrArg (fun x => x.2.1) hshown]
    rfl
  exact ⟨S₁, S, hrun₁, hshown₁, hrun, hshown, fun es' S' hrun' hbound' =>
    ((awaiter_guarded hrun hbound).2 0 hp es' S' hrun' hbound').2.2⟩

end OpenIdea.Rpc
