import OpenIdea.Lib.Tally
import OpenIdea.Rpc.ClientSteps

/-!
# Calls held before the first connect

A submitted call is in one place at a time: a task is working on it, the manager holds it, or a
session has its bytes (`places`). `Wf` adds what each place promises about the call's slot. A call
that is held waits in the call table with `bAwaitingConnect` set, or a `FinishRpcSlot` that will
drop it is under way; a call whose slot is still there is in some place. The main result is
`held_once`; `hands_after_timeout` is a call that times out between its claim and its send.
-/

set_option autoImplicit false

namespace OpenIdea.Rpc.ClientManager

open OpenIdea.Lib OpenIdea.Lib.Runs OpenIdea.Lib.Tally

namespace Task

/-- The calls that the task has still to put into the hold, to send or to wake. -/
def carries : Task → List ℕ
  | .mark c | .queue c | .claim c _ | .submit c _ => [c.callId]
  | .wake i => [i]
  | .flush _ v | .fail v => v.map HeldCall.callId
  | .flushSend _ c v => c.callId :: v.map HeldCall.callId
  | _ => []

/-- The call that the task is about to put into the hold. -/
def holds : Task → Option HeldCall
  | .mark c | .queue c => some c
  | _ => none

/-- The call that the task has claimed for a session and not yet sent. -/
def claims : Task → Option (ℕ × ℤ)
  | .submit c sid | .flushSend sid c _ => some (c.callId, sid)
  | _ => none

end Task

/-- How often a call is with a task, in the hold or with a session. -/
def places (s : State) (i : ℕ) : ℕ :=
  s.hold.ids.count i + tally (fun t => t.carries.count i) s.tasks + (s.handed.map Prod.fst).count i

theorem places_spawn (s : State) (t : Task) (i : ℕ) :
    places (s.spawn t) i = t.carries.count i + places s i := by
  simp only [places, State.spawn, tally_cons]
  omega

variable {s s' : State} {i : ℕ} {c : HeldCall} {e : Event} {cfg : Config}

theorem places_perm {tasks : List Task} (hperm : tasks.Perm s.tasks) (i : ℕ) :
    places { s with tasks := tasks } i = places s i := by
  simp only [places, tally, (hperm.map _).sum_eq]

/-- The call's slot says that it waits for a connect, or `FinishRpcSlot` is about to drop it. -/
def AwaitsOrDrops (s : State) (i : ℕ) : Prop :=
  (∃ sid, s.calls i = some ⟨true, sid⟩) ∨ Task.finish i true ∈ s.tasks

/-- **The hold and the call table.** -/
structure Wf (s : State) : Prop where
  phase : Phase s
  hold : s.hold.Wf
  /-- The limits are not changed while a call is on its way into the hold. -/
  room : ∀ t ∈ s.tasks, ∀ c ∈ t.holds,
    s.hold.full s.m_iHeldMaxCount s.m_iHeldMaxBytes c.size = false
  once : ∀ i, places s i ≤ 1
  fresh : ∀ i, i ∉ s.submitted → places s i = 0
  bound : ∀ i, i ∈ s.submitted ∨ s.calls i ≠ none → i < s.bound
  taken : ∀ i b, Task.finish i b ∈ s.tasks → s.calls i = none ∧ i < s.bound
  awaiting : ∀ i, i ∈ s.hold.ids ∨ (∃ c, Task.queue c ∈ s.tasks ∧ c.callId = i) →
    AwaitsOrDrops s i
  accounted : ∀ i ∈ s.submitted, s.calls i ≠ none → 0 < places s i
  handed : ∀ p ∈ s.handed, p ∈ s.claimed
  claims : ∀ t ∈ s.tasks, ∀ p ∈ t.claims, p ∈ s.claimed

theorem wf_init : Wf init where
  phase := phase_init
  hold := HoldList.wf_empty
  room := fun _ ht => absurd ht List.not_mem_nil
  once := fun _ => Nat.zero_le _
  fresh := fun _ _ => rfl
  bound := fun i h => by
    rcases h with h | h
    · exact absurd h List.not_mem_nil
    · exact absurd rfl h
  taken := fun _ _ ht => absurd ht List.not_mem_nil
  awaiting := fun i h => by
    rcases h with h | ⟨c, hc, -⟩
    · exact absurd h List.not_mem_nil
    · exact absurd hc List.not_mem_nil
  accounted := fun _ h => absurd h List.not_mem_nil
  handed := fun _ h => absurd h List.not_mem_nil
  claims := fun _ ht => absurd ht List.not_mem_nil

namespace Wf

theorem perm (h : Wf s) {tasks : List Task} (hperm : tasks.Perm s.tasks) :
    Wf { s with tasks := tasks } where
  phase := h.phase.perm hperm
  hold := h.hold
  room := fun t ht => h.room t (hperm.subset ht)
  once := fun i => (places_perm hperm i).trans_le (h.once i)
  fresh := fun i hi => (places_perm hperm i).trans (h.fresh i hi)
  bound := h.bound
  taken := fun i b ht => h.taken i b (hperm.subset ht)
  awaiting := fun i hi => by
    rcases h.awaiting i (hi.imp_right fun ⟨c, hc, hid⟩ => ⟨c, hperm.subset hc, hid⟩) with hw | hw
    · exact Or.inl hw
    · exact Or.inr (hperm.symm.subset hw)
  accounted := fun i hi hs => (h.accounted i hi hs).trans_eq (places_perm hperm i).symm
  handed := h.handed
  claims := fun t ht => h.claims t (hperm.subset ht)

/-- A call that a task carries is in no other place. -/
theorem not_held_of_spawn {t : Task} (h : Wf (s.spawn t)) (hi : i ∈ t.carries) :
    places s i = 0 ∧ i ∉ s.hold.ids := by
  have honce := h.once i
  rw [places_spawn] at honce
  have hpos := List.count_pos_iff.2 hi
  have hzero : places s i = 0 := by omega
  refine ⟨hzero, fun hheld => ?_⟩
  have hcount := List.count_pos_iff.2 hheld
  simp only [places] at hzero
  omega

/-- Next to a task that carries a call, none is putting it into the hold. -/
theorem not_queue_of_spawn {t : Task} (h : Wf (s.spawn t)) (hi : i ∈ t.carries)
    (hc : Task.queue c ∈ s.tasks) : c.callId ≠ i := by
  rintro rfl
  have hzero := (h.not_held_of_spawn hi).1
  obtain ⟨l₁, l₂, hl⟩ := List.append_of_mem hc
  simp only [places, hl, tally_append, tally_cons, Task.carries, List.count_singleton_self] at hzero
  omega

/-- A step that replaces the tasks `rem` by `add` and submits nothing. -/
theorem next (h : Wf s) (hphase : Phase s') (rem add : List Task) {rest : List Task}
    (htasks : s.tasks = rem ++ rest) (htasks' : s'.tasks = add ++ rest)
    (hsubmitted : s'.submitted = s.submitted) (hbound : s'.bound = s.bound) (hhold : s'.hold.Wf)
    (hroom : ∀ t ∈ s'.tasks, ∀ c ∈ t.holds,
      s'.hold.full s'.m_iHeldMaxCount s'.m_iHeldMaxBytes c.size = false)
    (hcalls : ∀ i, s.calls i = none → s'.calls i = none)
    (hplaces : ∀ i, places s' i = places s i ∨ (s'.calls i = none ∧ places s' i ≤ places s i))
    (htaken : ∀ i b, Task.finish i b ∈ add → s'.calls i = none ∧ i < s.bound)
    (hawaiting : ∀ i, i ∈ s'.hold.ids ∨ (∃ c, Task.queue c ∈ s'.tasks ∧ c.callId = i) →
      AwaitsOrDrops s' i) (hhanded : ∀ p ∈ s'.handed, p ∈ s'.claimed)
    (hclaimed : ∀ p ∈ s.claimed, p ∈ s'.claimed)
    (hclaims : ∀ t ∈ add, ∀ p ∈ t.claims, p ∈ s'.claimed) : Wf s' where
  phase := hphase
  hold := hhold
  room := hroom
  once := by
    intro i
    rcases hplaces i with hi | ⟨-, hi⟩
    · exact hi.trans_le (h.once i)
    · exact hi.trans (h.once i)
  fresh := by
    intro i hi
    rw [hsubmitted] at hi
    have hzero := h.fresh i hi
    rcases hplaces i with hi | ⟨-, hi⟩
    · exact hi.trans hzero
    · omega
  bound := by
    intro i hi
    rw [hbound]
    rw [hsubmitted] at hi
    exact h.bound i (hi.imp_right fun hs hnone => hs (hcalls i hnone))
  taken := by
    intro i b ht
    rw [hbound]
    rw [htasks'] at ht
    rcases List.mem_append.1 ht with ht | ht
    · exact htaken i b ht
    · obtain ⟨hnone, hlt⟩ := h.taken i b (htasks ▸ List.mem_append_right _ ht)
      exact ⟨hcalls i hnone, hlt⟩
  awaiting := hawaiting
  accounted := by
    intro i hi hs
    rw [hsubmitted] at hi
    rcases hplaces i with hp | ⟨hnone, -⟩
    · rw [hp]
      exact h.accounted i hi fun hnone => hs (hcalls i hnone)
    · exact absurd hnone hs
  handed := hhanded
  claims := by
    intro t ht p hp
    rw [htasks'] at ht
    rcases List.mem_append.1 ht with ht | ht
    · exact hclaims t ht p hp
    · exact hclaimed p (h.claims t (htasks ▸ List.mem_append_right _ ht) p hp)

end Wf

namespace Wf

/-- A step of a task that leaves the hold and the call table alone. -/
theorem work (h : Wf s) (hphase : Phase s') (rem add : List Task) {rest : List Task}
    (htasks : s.tasks = rem ++ rest) (htasks' : s'.tasks = add ++ rest)
    (hsubmitted : s'.submitted = s.submitted) (hbound : s'.bound = s.bound)
    (hhold : s'.hold = s.hold)
    (hlimits : s'.m_iHeldMaxCount = s.m_iHeldMaxCount ∧ s'.m_iHeldMaxBytes = s.m_iHeldMaxBytes)
    (hcalls : s'.calls = s.calls) (hclaimed : s'.claimed = s.claimed)
    (hplaces : ∀ i, places s' i = places s i ∨ (s.calls i = none ∧ places s' i ≤ places s i))
    (hrem : ∀ i, Task.finish i true ∉ rem) (hadd : ∀ t ∈ add, t.holds = none)
    (hfinish : ∀ i b, Task.finish i b ∉ add) (hhanded : ∀ p ∈ s'.handed, p ∈ s.claimed)
    (hclaims : ∀ t ∈ add, ∀ p ∈ t.claims, p ∈ s.claimed) : Wf s' := by
  refine h.next hphase rem add htasks htasks' hsubmitted hbound (by rw [hhold]; exact h.hold) ?_
    (fun i hi => by rw [hcalls]; exact hi) (fun i => by rw [hcalls]; exact hplaces i)
    (fun i b ht => absurd ht (hfinish i b)) ?_ (by rw [hclaimed]; exact hhanded)
    (fun p hp => by rw [hclaimed]; exact hp) (by rw [hclaimed]; exact hclaims)
  · intro t ht c hc
    rw [hhold, hlimits.1, hlimits.2]
    rw [htasks'] at ht
    rcases List.mem_append.1 ht with ht | ht
    · rw [hadd t ht] at hc
      cases hc
    · exact h.room t (htasks ▸ List.mem_append_right _ ht) c hc
  · intro i hi
    have hbefore : AwaitsOrDrops s i := by
      refine h.awaiting i (hi.imp (fun hheld => hhold ▸ hheld) ?_)
      rintro ⟨c, hc, hid⟩
      rw [htasks'] at hc
      rcases List.mem_append.1 hc with hc | hc
      · exact absurd (hadd _ hc) (by simp [Task.holds])
      · exact ⟨c, htasks ▸ List.mem_append_right _ hc, hid⟩
    rcases hbefore with ⟨sid, hsid⟩ | hdrop
    · exact Or.inl ⟨sid, by rw [hcalls]; exact hsid⟩
    · rw [htasks] at hdrop
      refine Or.inr ?_
      rw [htasks']
      exact List.mem_append_right _ ((List.mem_append.1 hdrop).resolve_left (hrem i))

end Wf

variable {x : ℕ}

/-- A task has let go of a call whose slot is gone. -/
theorem places_lost (hnone : s'.calls x = none) (h : ∀ i, places s i = [x].count i + places s' i)
    (i : ℕ) : places s' i = places s i ∨ (s'.calls i = none ∧ places s' i ≤ places s i) := by
  by_cases hi : i = x
  · subst hi
    exact Or.inr ⟨hnone, by rw [h]; omega⟩
  · rw [h, List.count_eq_zero_of_not_mem (by simpa using hi), Nat.zero_add]
    exact Or.inl rfl

theorem erase_none {calls : CallTable} (h : calls i = none) : calls.erase x i = none := by
  by_cases hi : i = x
  · rw [hi, CallTable.erase, Function.update_self]
  · rw [CallTable.erase, Function.update_of_ne hi]
    exact h

theorem takeSlot_calls (s : State) (i : ℕ) : (s.takeSlot i).calls i = none := by
  rw [State.takeSlot]
  cases hslot : s.calls i with
  | none => exact hslot
  | some stSlot => exact Function.update_self _ _ _

/-- A slot is taken out by a step that may also let go of the call. -/
theorem wf_takeSlot (rem : List Task) {rest : List Task} (h : Wf { s with tasks := rem ++ rest })
    (hrest : s.tasks = rest) (hphase : Phase (s.takeSlot x)) (hrem : ∀ i, Task.finish i true ∉ rem)
    (hplaces : ∀ i, places { s with tasks := rem ++ rest } i = places s i ∨
      (i = x ∧ places s i ≤ places { s with tasks := rem ++ rest } i)) : Wf (s.takeSlot x) := by
  have hplaces' : ∀ i, places (s.takeSlot x) i = places { s with tasks := rem ++ rest } i ∨
      ((s.takeSlot x).calls i = none ∧
        places (s.takeSlot x) i ≤ places { s with tasks := rem ++ rest } i) := by
    intro i
    have hsame : places (s.takeSlot x) i = places s i := by
      rw [State.takeSlot]
      cases s.calls x with
      | none => rfl
      | some stSlot =>
        rw [places_spawn]
        exact Nat.zero_add _
    rw [hsame]
    rcases hplaces i with heq | ⟨rfl, hle⟩
    · exact Or.inl heq.symm
    · exact Or.inr ⟨takeSlot_calls s i, hle⟩
  revert hphase hplaces'
  rw [State.takeSlot]
  cases hslot : s.calls x with
  | none =>
    intro hphase hplaces'
    exact h.work hphase rem [] rfl hrest rfl rfl rfl ⟨rfl, rfl⟩ rfl rfl hplaces' hrem
      (fun t ht => absurd ht List.not_mem_nil) (fun i b ht => absurd ht List.not_mem_nil) h.handed
      (fun t ht => absurd ht List.not_mem_nil)
  | some stSlot =>
    intro hphase hplaces'
    have hlater : ∀ t, t ∈ rest → t ∈ rem ++ rest := fun t ht => List.mem_append_right _ ht
    refine h.next hphase rem [.finish x stSlot.bAwaitingConnect] rfl (congrArg _ hrest) rfl rfl
      h.hold ?_ (fun i hi => erase_none hi) hplaces' ?_ ?_ h.handed (fun p hp => hp) ?_
    · intro t ht c hc
      rcases List.mem_cons.1 ht with rfl | ht
      · cases hc
      · exact h.room t (hlater t (hrest ▸ ht)) c hc
    · intro i b ht
      obtain ⟨rfl, rfl⟩ := Task.finish.inj (List.mem_singleton.1 ht)
      refine ⟨Function.update_self _ _ _, h.bound i (Or.inr ?_)⟩
      show s.calls i ≠ none
      rw [hslot]
      exact Option.some_ne_none _
    · intro i hi
      have hbefore : AwaitsOrDrops { s with tasks := rem ++ rest } i := by
        refine h.awaiting i (hi.imp_right ?_)
        rintro ⟨c, hc, hid⟩
        rcases List.mem_cons.1 hc with hc | hc
        · cases hc
        · exact ⟨c, hlater _ (hrest ▸ hc), hid⟩
      rcases hbefore with ⟨sid, hsid⟩ | hdrop
      · by_cases hx : i = x
        · -- the slot was waiting, so the call is dropped next
          subst hx
          have hawaits : stSlot = ⟨true, sid⟩ := Option.some.inj (hslot.symm.trans hsid)
          rw [hawaits]
          exact Or.inr List.mem_cons_self
        · exact Or.inl ⟨sid, (Function.update_of_ne hx _ _).trans hsid⟩
      · refine Or.inr (List.mem_cons_of_mem _ ?_)
        show _ ∈ s.tasks
        rw [hrest]
        exact (List.mem_append.1 hdrop).resolve_left (hrem i)
    · intro t ht p hp
      obtain rfl := List.mem_singleton.1 ht
      cases hp

/-- A submission puts a fresh call into the hands of one task. -/
theorem wf_submit (h : Wf s) (hphase : Phase s') (hbound : i < s.bound) (hnew : i ∉ s.submitted)
    (t : Task) (htasks : s'.tasks = t :: s.tasks) (hcarries : t.carries = [i])
    (hclaims : t.claims = none) (hfinish : ∀ j b, t ≠ .finish j b) (hqueue : ∀ c, t ≠ .queue c)
    (hroom : ∀ c ∈ t.holds, s.hold.full s.m_iHeldMaxCount s.m_iHeldMaxBytes c.size = false)
    (hsubmitted : s'.submitted = i :: s.submitted) (hb : s'.bound = s.bound)
    (hhold : s'.hold = s.hold)
    (hlimits : s'.m_iHeldMaxCount = s.m_iHeldMaxCount ∧ s'.m_iHeldMaxBytes = s.m_iHeldMaxBytes)
    (hcalls : s'.calls = s.calls) (hclaimed : s'.claimed = s.claimed)
    (hhanded : s'.handed = s.handed) : Wf s' := by
  have hplaces : ∀ j, places s' j = [i].count j + places s j := by
    intro j
    simp only [places, htasks, tally_cons, hcarries, hhold, hhanded]
    omega
  have hother : ∀ j, j ≠ i → places s' j = places s j := by
    intro j hj
    rw [hplaces, List.count_eq_zero_of_not_mem (by simpa using hj), Nat.zero_add]
  have hself : places s' i = 1 := by
    rw [hplaces, h.fresh i hnew]
    simp
  have hcases : ∀ u, u ∈ s'.tasks → u = t ∨ u ∈ s.tasks := fun u hu =>
    List.mem_cons.1 (htasks ▸ hu)
  refine ⟨hphase, by rw [hhold]; exact h.hold, ?_, ?_, ?_, ?_, ?_, ?_, ?_, ?_, ?_⟩
  · intro u hu c hc
    rw [hhold, hlimits.1, hlimits.2]
    rcases hcases u hu with rfl | hu
    · exact hroom c hc
    · exact h.room u hu c hc
  · intro j
    by_cases hj : j = i
    · rw [hj, hself]
    · rw [hother j hj]
      exact h.once j
  · intro j hj
    rw [hsubmitted, List.mem_cons, not_or] at hj
    rw [hother j hj.1]
    exact h.fresh j hj.2
  · intro j hj
    rw [hsubmitted, hcalls, List.mem_cons] at hj
    rw [hb]
    rcases hj with (rfl | hj) | hj
    · exact hbound
    · exact h.bound j (Or.inl hj)
    · exact h.bound j (Or.inr hj)
  · intro j b hj
    rw [hcalls, hb]
    rcases hcases _ hj with heq | hj
    · exact absurd heq.symm (hfinish j b)
    · exact h.taken j b hj
  · intro j hj
    have hbefore : AwaitsOrDrops s j := by
      refine h.awaiting j (hj.imp (fun hheld => hhold ▸ hheld) ?_)
      rintro ⟨c, hc, hid⟩
      rcases hcases _ hc with heq | hc
      · exact absurd heq.symm (hqueue c)
      · exact ⟨c, hc, hid⟩
    rcases hbefore with ⟨sid, hsid⟩ | hdrop
    · exact Or.inl ⟨sid, by rw [hcalls]; exact hsid⟩
    · exact Or.inr (htasks ▸ List.mem_cons_of_mem _ hdrop)
  · intro j hj hs
    rw [hsubmitted, List.mem_cons] at hj
    by_cases heq : j = i
    · rw [heq, hself]
      exact Nat.one_pos
    · rw [hother j heq]
      exact h.accounted j (hj.resolve_left heq) (hcalls ▸ hs)
  · rw [hhanded, hclaimed]
    exact h.handed
  · intro u hu p hp
    rw [hclaimed]
    rcases hcases u hu with rfl | hu
    · rw [hclaims] at hp
      cases hp
    · exact h.claims u hu p hp

theorem holdsLock_of_holds {t : Task} (hc : c ∈ t.holds) : t.holdsLock = true := by
  cases t <;> first | rfl | cases hc

namespace Wf

/-- Where nobody has the lock, no call is on its way into the hold. -/
theorem not_holding (h : Wf s) (hfree : s.locked = false) {t : Task} (ht : t ∈ s.tasks)
    (hc : c ∈ t.holds) : False := by
  have hlock := h.phase.not_holdsLock hfree ht
  rw [holdsLock_of_holds hc] at hlock
  cases hlock

theorem not_queue (h : Wf s) (hfree : s.locked = false) (hc : Task.queue c ∈ s.tasks) : False :=
  h.not_holding hfree hc (c := c) rfl

/-- The hold is swapped out under the lock. -/
theorem swap (h : Wf s) (hphase : Phase s') (hfree : s.locked = false) (rem : List Task) (t : Task)
    {rest : List Task} (htasks : s.tasks = rem ++ rest) (htasks' : s'.tasks = t :: rest)
    (hrem : ∀ u ∈ rem, u.carries = []) (hcarries : t.carries = s.hold.ids)
    (hclaims : t.claims = none) (hfinish : ∀ j b, t ≠ .finish j b) (hnever : t.holds = none)
    (hsubmitted : s'.submitted = s.submitted) (hbound : s'.bound = s.bound)
    (hhold : s'.hold = s.hold.swapped) (hcalls : s'.calls = s.calls)
    (hclaimed : s'.claimed = s.claimed) (hhanded : s'.handed = s.handed) : Wf s' := by
  -- nobody else is putting a call into the hold
  have hnone : ∀ u ∈ s'.tasks, ∀ c, c ∉ u.holds := by
    intro u hu c hc
    rw [htasks'] at hu
    rcases List.mem_cons.1 hu with rfl | hu
    · rw [hnever] at hc
      cases hc
    · exact h.not_holding hfree (htasks ▸ List.mem_append_right _ hu) hc
  have hplaces : ∀ i, places s' i = places s i := by
    intro i
    have hzero : tally (fun u => u.carries.count i) rem = 0 := by
      refine tally_eq_zero fun j u hu => ?_
      rw [hrem u (List.mem_of_getElem? hu)]
      rfl
    simp only [places, htasks, htasks', tally_cons, tally_append, hcarries, hhold, hhanded, hzero,
      HoldList.ids_swapped, List.count_nil]
    omega
  refine h.next hphase rem [t] htasks htasks' hsubmitted hbound
    (by rw [hhold]; exact HoldList.wf_swapped _) (fun u hu c hc => absurd hc (hnone u hu c))
    (fun i hi => by rw [hcalls]; exact hi) (fun i => Or.inl (hplaces i)) ?_ ?_
    (by rw [hhanded, hclaimed]; exact h.handed) (fun p hp => by rw [hclaimed]; exact hp) ?_
  · intro i b ht
    exact absurd (List.mem_singleton.1 ht).symm (hfinish i b)
  · rintro i (hi | ⟨c, hc, -⟩)
    · rw [hhold] at hi
      cases hi
    · exact absurd rfl (hnone _ hc c)
  · intro u hu p hp
    rw [List.mem_singleton.1 hu, hclaims] at hp
    cases hp

/-- A task claims its first call for a session. -/
theorem claim {s₁ : State} {t u : Task} {sid : ℤ} (h : Wf (s.spawn t))
    (hclaim : s.claimRpcSend c.callId sid = some s₁) (hs' : Phase s') (hmem : c.callId ∈ t.carries)
    (hcarries : u.carries = t.carries) (hclaims : u.claims = some (c.callId, sid))
    (hholds : u.holds = none) (hfinish : ∀ i b, t ≠ .finish i b ∧ u ≠ .finish i b)
    (heq : s' = { s₁ with locked := s'.locked }.spawn u) : Wf s' := by
  obtain ⟨hslot, rfl⟩ := claimRpcSend_some hclaim
  have htasks' : s'.tasks = [u] ++ s.tasks := by rw [heq]; rfl
  have hcalls : s'.calls = Function.update s.calls c.callId (some ⟨false, sid⟩) := by rw [heq]; rfl
  have hclaimed : s'.claimed = (c.callId, sid) :: s.claimed := by rw [heq]; rfl
  have hhold : s'.hold = s.hold := by rw [heq]; rfl
  have hplaces : ∀ i, places s' i = places (s.spawn t) i := by
    intro i
    rw [heq, places_spawn, places_spawn, hcarries]
    rfl
  refine h.next hs' [t] [u] rfl htasks' (by rw [heq]; rfl) (by rw [heq]; rfl)
    (by rw [hhold]; exact h.hold) ?_ ?_ (fun i => Or.inl (hplaces i)) ?_ ?_ ?_ ?_ ?_
  · intro v hv d hd
    rw [hhold, heq]
    rw [htasks'] at hv
    rcases List.mem_cons.1 hv with rfl | hv
    · rw [hholds] at hd
      cases hd
    · exact h.room v (List.mem_cons_of_mem _ hv) d hd
  · intro i hi
    have hne : i ≠ c.callId := by
      rintro rfl
      exact hslot hi
    rw [hcalls, Function.update_of_ne hne]
    exact hi
  · intro i b hmem'
    exact absurd (List.mem_singleton.1 hmem').symm (hfinish i b).2
  · -- the claimed call is in the hands of this task, so it is not held
    intro i hi
    have hne : i ≠ c.callId := by
      rintro rfl
      rcases hi with hi | ⟨d, hd, hid⟩
      · exact (h.not_held_of_spawn hmem).2 (hhold ▸ hi)
      · rw [htasks'] at hd
        rcases List.mem_cons.1 hd with hd | hd
        · rw [← hd] at hholds
          cases hholds
        · exact h.not_queue_of_spawn hmem hd hid
    have hbefore : AwaitsOrDrops (s.spawn t) i := by
      refine h.awaiting i (hi.imp (fun hheld => hhold ▸ hheld) ?_)
      rintro ⟨d, hd, hid⟩
      rw [htasks'] at hd
      rcases List.mem_cons.1 hd with hd | hd
      · rw [← hd] at hholds
        cases hholds
      · exact ⟨d, List.mem_cons_of_mem _ hd, hid⟩
    rcases hbefore with ⟨sid', hsid⟩ | hdrop
    · refine Or.inl ⟨sid', ?_⟩
      rw [hcalls, Function.update_of_ne hne]
      exact hsid
    · refine Or.inr ?_
      rw [htasks']
      rcases List.mem_cons.1 hdrop with hd | hd
      · exact absurd hd.symm (hfinish i true).1
      · exact List.mem_cons_of_mem _ hd
  · intro p hp
    rw [hclaimed]
    refine List.mem_cons_of_mem _ (h.handed p ?_)
    rw [heq] at hp
    exact hp
  · intro p hp
    rw [hclaimed]
    exact List.mem_cons_of_mem _ hp
  · intro v hv p hp
    rw [hclaimed]
    rw [List.mem_singleton.1 hv, hclaims] at hp
    obtain rfl := Option.some.inj hp
    exact List.mem_cons_self

end Wf

/-- Taking a slot out and going on with a task are independent. -/
theorem takeSlot_spawn (s : State) (i : ℕ) (t : Task) :
    ∃ tasks, tasks.Perm ((s.spawn t).takeSlot i).tasks ∧
      (s.takeSlot i).spawn t = { (s.spawn t).takeSlot i with tasks := tasks } := by
  refine ⟨((s.takeSlot i).spawn t).tasks, ?_, ?_⟩
  · simp only [State.takeSlot, State.spawn]
    cases s.calls i with
    | none => exact List.Perm.refl _
    | some stSlot => exact List.Perm.swap _ _ _
  · simp only [State.takeSlot, State.spawn]
    cases s.calls i with
    | none => rfl
    | some stSlot => rfl

theorem wf_bind (h : Wf s) (hphase : Phase { s with
    bound := s.bound + 1
    calls := Function.update s.calls s.bound (some ⟨false, invalidSid⟩) }) :
    Wf { s with
      bound := s.bound + 1
      calls := Function.update s.calls s.bound (some ⟨false, invalidSid⟩) } := by
  have hother : ∀ i, i < s.bound →
      Function.update s.calls s.bound (some ⟨false, invalidSid⟩) i = s.calls i := fun i hi =>
    Function.update_of_ne (Nat.ne_of_lt hi) _ _
  have hnew : s.calls s.bound = none := by
    by_contra hs
    exact Nat.lt_irrefl _ (h.bound s.bound (Or.inr hs))
  refine ⟨hphase, h.hold, h.room, h.once, h.fresh, ?_, ?_, ?_, ?_, h.handed, h.claims⟩
  · intro i hi
    show i < s.bound + 1
    by_cases heq : i = s.bound
    · rw [heq]
      exact Nat.lt_succ_self _
    · refine Nat.lt_succ_of_lt (h.bound i (hi.imp_right fun hs hnone => hs ?_))
      exact (Function.update_of_ne heq _ _).trans hnone
  · intro i b ht
    obtain ⟨hnone, hlt⟩ := h.taken i b ht
    exact ⟨(hother i hlt).trans hnone, Nat.lt_succ_of_lt hlt⟩
  · intro i hi
    rcases h.awaiting i hi with ⟨sid, hsid⟩ | hdrop
    · have hlt := h.bound i (Or.inr (by rw [hsid]; exact Option.some_ne_none _))
      exact Or.inl ⟨sid, (hother i hlt).trans hsid⟩
    · exact Or.inr hdrop
  · intro i hi hs
    refine h.accounted i hi ?_
    rwa [← hother i (h.bound i (Or.inl hi))]

/-- A call enters the hold: it has been marked, and the lock has been kept since. -/
theorem wf_queued (h : Wf (s.spawn (.queue c)))
    (hphase : Phase { s with hold := s.hold.push c }.unlock) :
    Wf { s with hold := s.hold.push c }.unlock := by
  have hnone : ∀ t ∈ s.tasks, ∀ d, d ∉ t.holds := by
    intro t ht d hd
    have hlock := h.phase.not_holdsLock_of_spawn (t := .queue c) rfl ht
    rw [holdsLock_of_holds hd] at hlock
    cases hlock
  have hnew := (h.not_held_of_spawn (t := .queue c) List.mem_cons_self).2
  refine h.next hphase [.queue c] [] rfl rfl rfl rfl (h.hold.push hnew)
    (fun t ht d hd => absurd hd (hnone t ht d)) (fun i hi => hi) ?_ (by simp) ?_ h.handed
    (fun p hp => hp) (by simp)
  · intro i
    refine Or.inl ?_
    rw [places_spawn]
    simp only [places, State.unlock, HoldList.ids_push, List.count_append, Task.carries]
    omega
  · intro i hi
    have hbefore : AwaitsOrDrops (s.spawn (.queue c)) i := by
      refine h.awaiting i ?_
      rcases hi with hi | ⟨d, hd, -⟩
      · have hids : i ∈ s.hold.ids ++ [c.callId] := (HoldList.ids_push s.hold c) ▸ hi
        rcases List.mem_append.1 hids with hi | hi
        · exact Or.inl hi
        · exact Or.inr ⟨c, List.mem_cons_self, (List.mem_singleton.1 hi).symm⟩
      · exact absurd rfl (hnone _ hd d)
    refine hbefore.imp_right fun hdrop => ?_
    rcases List.mem_cons.1 hdrop with hd | hd
    · cases hd
    · exact hd

/-- `FinishRpcSlot` drops a call from the hold: its slot is gone already. -/
theorem wf_dropped {hold : HoldList} (h : Wf (s.spawn (.finish i true))) (hfree : s.locked = false)
    (hdrop : s.hold.drop i = some hold) (hphase : Phase { s with hold := hold }) :
    Wf { s with hold := hold } := by
  obtain ⟨hold', hdrop', hwf, hids⟩ := h.hold.drop i
  obtain rfl : hold = hold' := Option.some.inj (hdrop.symm.trans hdrop')
  have hgone := (h.taken i true List.mem_cons_self).1
  refine h.next hphase [.finish i true] [] rfl rfl rfl rfl hwf ?_ (fun j hj => hj) ?_ (by simp)
    ?_ h.handed (fun p hp => hp) (by simp)
  · intro t ht c hc
    exact (h.not_holding hfree (List.mem_cons_of_mem _ ht) hc).elim
  · intro j
    have hids' : hold.ids.count j ≤ s.hold.ids.count j := by
      rw [hids]
      exact List.Sublist.count_le _ List.filter_sublist
    by_cases hj : j = i
    · subst hj
      refine Or.inr ⟨hgone, ?_⟩
      rw [places_spawn]
      simp only [places]
      omega
    · refine Or.inl ?_
      have hcount : hold.ids.count j = s.hold.ids.count j := by
        rw [hids, List.count_filter (by simpa using hj)]
        rfl
      rw [places_spawn]
      simp only [places, hcount, Task.carries, List.count_nil]
      omega
  · rintro j (hj | ⟨c, hc, -⟩)
    · have hj' : j ∈ hold.ids := hj
      rw [hids, List.mem_filter] at hj'
      refine (h.awaiting j (Or.inl hj'.1)).imp_right fun hd => ?_
      rcases List.mem_cons.1 hd with hd | hd
      · exact absurd (Task.finish.inj hd).1 (by simpa using hj'.2)
      · exact hd
    · exact (h.not_queue hfree (List.mem_cons_of_mem _ hc)).elim

theorem wf_marked {stSlot : CallSlot} (h : Wf (s.spawn (.mark c)))
    (hslot : s.calls c.callId = some stSlot) (hphase : Phase ({ s with
      calls := Function.update s.calls c.callId
        (some { stSlot with bAwaitingConnect := true }) }.spawn (.queue c))) :
    Wf ({ s with
      calls := Function.update s.calls c.callId
        (some { stSlot with bAwaitingConnect := true }) }.spawn (.queue c)) := by
  refine h.next hphase [.mark c] [.queue c] rfl rfl rfl rfl h.hold ?_ ?_ (fun i => Or.inl rfl)
    (by simp) ?_ h.handed (fun p hp => hp) (by simp [Task.claims])
  · intro t ht d hd
    rcases List.mem_cons.1 ht with rfl | ht
    · exact h.room (.mark c) List.mem_cons_self d hd
    · exact h.room t (List.mem_cons_of_mem _ ht) d hd
  · intro i hi
    have hne : i ≠ c.callId := by
      rintro rfl
      rw [show s.calls c.callId = none from hi] at hslot
      cases hslot
    exact (Function.update_of_ne hne _ _).trans hi
  · intro i hi
    by_cases hic : i = c.callId
    · exact Or.inl ⟨stSlot.iSessionId, hic ▸ Function.update_self _ _ _⟩
    · have hbefore : AwaitsOrDrops (s.spawn (.mark c)) i := by
        refine h.awaiting i (hi.imp_right ?_)
        rintro ⟨d, hd, hid⟩
        rcases List.mem_cons.1 hd with hd | hd
        · rw [Task.queue.inj hd] at hid
          exact absurd hid.symm hic
        · exact ⟨d, List.mem_cons_of_mem _ hd, hid⟩
      rcases hbefore with ⟨sid, hsid⟩ | hdrop
      · exact Or.inl ⟨sid, (Function.update_of_ne hic _ _).trans hsid⟩
      · refine Or.inr (List.mem_cons_of_mem _ ?_)
        rcases List.mem_cons.1 hdrop with hd | hd
        · cases hd
        · exact hd

/-- `WakeRpcCall` from the loop of `FailHeldCalls`. -/
theorem wf_failNext {v : List HeldCall} (h : Wf (s.spawn (.fail (c :: v))))
    (hphase : Phase ((s.takeSlot c.callId).spawn (.fail v))) :
    Wf ((s.takeSlot c.callId).spawn (.fail v)) := by
  obtain ⟨tasks, hperm, heq⟩ := takeSlot_spawn s c.callId (.fail v)
  rw [heq] at hphase ⊢
  have hphase' : Phase ((s.spawn (.fail v)).takeSlot c.callId) := hphase.perm hperm.symm
  -- the loop goes on as two tasks, one of which only wakes the call
  have hsplit : Wf { s.spawn (.fail v) with tasks := [.wake c.callId] ++ (.fail v :: s.tasks) } := by
    refine h.work (h.phase.next [.fail (c :: v)] [.wake c.callId, .fail v] rfl rfl rfl rfl
      (by simp [Task.fits]) fun hc => Or.inr ⟨hc, by simp⟩) [.fail (c :: v)]
      [.wake c.callId, .fail v] rfl rfl rfl rfl rfl ⟨rfl, rfl⟩ rfl rfl ?_ (by simp)
      (by simp [Task.holds]) (by simp) h.handed (by simp [Task.claims])
    intro i
    refine Or.inl ?_
    rw [places_spawn]
    simp only [places, State.spawn, tally_append, tally_cons, tally_nil, Task.carries,
      List.map_cons, List.count_cons, List.count_nil]
    omega
  refine Wf.perm (wf_takeSlot [.wake c.callId] hsplit rfl hphase' (by simp) ?_) hperm
  intro i
  have hsum : places { s.spawn (.fail v) with tasks := [.wake c.callId] ++ (.fail v :: s.tasks) } i =
      [c.callId].count i + places (s.spawn (.fail v)) i := by
    simp only [places, State.spawn, tally_append, tally_cons, tally_nil, Task.carries]
    omega
  by_cases hi : i = c.callId
  · exact Or.inr ⟨hi, (Nat.le_add_left _ _).trans_eq hsum.symm⟩
  · rw [hsum, List.count_eq_zero_of_not_mem (by simpa using hi), Nat.zero_add]
    exact Or.inl rfl

theorem wf_callMoves (h : Wf s) (hmoves : CallMoves e s s') : Wf s' := by
  have hphase := phase_callMoves h.phase hmoves
  cases hmoves with
  | bind => exact wf_bind h hphase
  | limits s iCount iBytes hfree =>
    refine h.next hphase [] [] rfl rfl rfl rfl h.hold ?_ (fun i hi => hi) (fun i => Or.inl rfl)
      (by simp) h.awaiting h.handed (fun p hp => hp) (by simp)
    intro t ht c hc
    exact (h.not_holding hfree ht hc).elim
  | direct s c _ hbound hnew =>
    exact wf_submit h hphase hbound hnew (.claim c s.m_iSessionId) rfl rfl rfl (by simp) (by simp)
      (by simp [Task.holds]) rfl rfl rfl ⟨rfl, rfl⟩ rfl rfl rfl
  | refused _ s c _ hbound hnew =>
    exact wf_submit h hphase hbound hnew (.wake c.callId) rfl rfl rfl (by simp) (by simp)
      (by simp [Task.holds]) rfl rfl rfl ⟨rfl, rfl⟩ rfl rfl rfl
  | holding _ s c _ hbound hnew _ hroom =>
    refine wf_submit h hphase hbound hnew (.mark c) rfl rfl rfl (by simp) (by simp) ?_ rfl rfl rfl
      ⟨rfl, rfl⟩ rfl rfl rfl
    intro d hd
    obtain rfl := Option.some.inj hd
    exact hroom
  | left => exact h
  | failHeldCalls s hfree =>
    exact h.swap hphase hfree [] (.fail s.hold.held) rfl rfl (by simp)
      (HoldList.ids_eq_map_held _).symm rfl (by simp) rfl rfl rfl rfl rfl rfl rfl
  | takeSlot s i =>
    exact wf_takeSlot [] (x := i) h rfl hphase (by simp) fun j => Or.inl rfl
  | markMissed s c hslot =>
    exact h.work hphase [.mark c] [] rfl rfl rfl rfl rfl ⟨rfl, rfl⟩ rfl rfl
      (places_lost hslot fun i => places_spawn s _ i) (by simp) (by simp) (by simp) h.handed
      (by simp)
  | marked s c stSlot hslot => exact wf_marked h hslot hphase
  | queued s c => exact wf_queued h hphase
  | claimMissed s c sid hslot =>
    exact h.work hphase [.claim c sid] [] rfl rfl rfl rfl rfl ⟨rfl, rfl⟩ rfl rfl
      (places_lost hslot fun i => places_spawn s _ i) (by simp) (by simp) (by simp) h.handed
      (by simp)
  | claimed s s₁ c sid hclaim =>
    exact h.claim (u := .submit c sid) hclaim hphase List.mem_cons_self rfl rfl rfl (by simp) rfl
  | sent s s₁ c sid hsend =>
    obtain ⟨stSession, -, rfl⟩ := sendCall_some hsend
    refine h.work hphase [.submit c sid] [] rfl rfl rfl rfl rfl ⟨rfl, rfl⟩ rfl rfl ?_ (by simp)
      (by simp) (by simp) ?_ (by simp)
    · intro i
      refine Or.inl ?_
      rw [places_spawn]
      simp only [places, State.setSession, List.map_append, List.count_append, List.map_cons,
        List.map_nil, Task.carries]
      omega
    · intro p hp
      rcases List.mem_append.1 hp with hp | hp
      · exact h.handed p hp
      · rw [List.mem_singleton.1 hp]
        exact h.claims (.submit c sid) List.mem_cons_self _ rfl
  | sendFailed s c sid =>
    refine h.work hphase [.submit c sid] [.wake c.callId] rfl rfl rfl rfl rfl ⟨rfl, rfl⟩ rfl rfl
      (fun i => Or.inl ?_) (by simp) (by simp [Task.holds]) (by simp) h.handed
      (by simp [Task.claims])
    rw [places_spawn, places_spawn]
    rfl
  | wake s i =>
    refine wf_takeSlot [.wake i] h rfl hphase (by simp) fun j => ?_
    have hsum : places (s.spawn (.wake i)) j = [i].count j + places s j := places_spawn s _ j
    by_cases hj : j = i
    · exact Or.inr ⟨hj, (Nat.le_add_left _ _).trans_eq hsum.symm⟩
    · refine Or.inl (hsum.trans ?_)
      rw [List.count_eq_zero_of_not_mem (by simpa using hj), Nat.zero_add]
  | finished s i =>
    exact h.work hphase [.finish i false] [] rfl rfl rfl rfl rfl ⟨rfl, rfl⟩ rfl rfl
      (fun j => Or.inl (by rw [places_spawn]; exact (Nat.zero_add _).symm)) (by simp) (by simp)
      (by simp) h.handed (by simp)
  | dropped s i hold hfree hdrop => exact wf_dropped h hfree hdrop hphase
  | flushHeld s sid hfree =>
    exact h.swap hphase hfree [.flushHeld sid] (.flush sid s.hold.held) rfl rfl
      (by simp [Task.carries]) (HoldList.ids_eq_map_held _).symm rfl (by simp) rfl rfl rfl rfl rfl
      rfl rfl
  | flushDone s sid =>
    exact h.work hphase [.flush sid []] [] rfl rfl rfl rfl rfl ⟨rfl, rfl⟩ rfl rfl
      (fun j => Or.inl (by rw [places_spawn]; exact (Nat.zero_add _).symm)) (by simp) (by simp)
      (by simp) h.handed (by simp)
  | flushMissed s sid c v hslot =>
    refine h.work hphase [.flush sid (c :: v)] [.flush sid v] rfl rfl rfl rfl rfl ⟨rfl, rfl⟩ rfl
      rfl (places_lost hslot fun i => ?_) (by simp) (by simp [Task.holds]) (by simp) h.handed
      (by simp [Task.claims])
    rw [places_spawn, places_spawn, ← Nat.add_assoc, ← List.count_append]
    rfl
  | flushClaimed s s₁ sid c v hclaim =>
    exact h.claim (u := .flushSend sid c v) hclaim hphase List.mem_cons_self rfl rfl rfl (by simp)
      rfl
  | flushSent s s₁ sid c v hsend =>
    obtain ⟨stSession, -, rfl⟩ := sendCall_some hsend
    refine h.work hphase [.flushSend sid c v] [.flush sid v] rfl rfl rfl rfl rfl ⟨rfl, rfl⟩ rfl
      rfl ?_ (by simp) (by simp [Task.holds]) (by simp) ?_ (by simp [Task.claims])
    · intro i
      refine Or.inl ?_
      rw [places_spawn, places_spawn]
      simp only [places, State.setSession, List.map_append, List.count_append, List.map_cons,
        List.map_nil, List.count_cons, List.count_nil, Task.carries]
      omega
    · intro p hp
      rcases List.mem_append.1 hp with hp | hp
      · exact h.handed p hp
      · rw [List.mem_singleton.1 hp]
        exact h.claims (.flushSend sid c v) List.mem_cons_self _ rfl
  | flushFailed s sid c v =>
    refine h.work hphase [.flushSend sid c v] [.flush sid v, .wake c.callId] rfl rfl rfl rfl rfl
      ⟨rfl, rfl⟩ rfl rfl (fun i => Or.inl ?_) (by simp) (by simp [Task.holds]) (by simp) h.handed
      (by simp [Task.claims])
    rw [places_spawn, places_spawn, places_spawn]
    simp only [Task.carries, List.count_cons, List.count_nil]
    omega
  | failDone s =>
    exact h.work hphase [.fail []] [] rfl rfl rfl rfl rfl ⟨rfl, rfl⟩ rfl rfl
      (fun j => Or.inl (by rw [places_spawn]; exact (Nat.zero_add _).symm)) (by simp) (by simp)
      (by simp) h.handed (by simp)
  | failNext s c v => exact wf_failNext h hphase

namespace Wf

/-- A step of raw data or of a connection, as far as calls are concerned: tasks without calls come
and go. -/
theorem aside (h : Wf s) (hphase : Phase s') (rem add : List Task) {rest : List Task}
    (htasks : s.tasks = rem ++ rest) (htasks' : s'.tasks = add ++ rest)
    (hsubmitted : s'.submitted = s.submitted) (hbound : s'.bound = s.bound)
    (hhold : s'.hold = s.hold)
    (hlimits : s'.m_iHeldMaxCount = s.m_iHeldMaxCount ∧ s'.m_iHeldMaxBytes = s.m_iHeldMaxBytes)
    (hcalls : s'.calls = s.calls) (hclaimed : s'.claimed = s.claimed)
    (hhanded : s'.handed = s.handed)
    (hidle : ∀ t ∈ rem ++ add, t.carries = [] ∧ t.holds = none ∧ t.claims = none ∧
      ∀ i b, t ≠ .finish i b) : Wf s' := by
  have hzero : ∀ i, ∀ l : List Task, (∀ t ∈ l, t.carries = []) →
      tally (fun t => t.carries.count i) l = 0 := by
    intro i l hl
    refine tally_eq_zero fun j t ht => ?_
    rw [hl t (List.mem_of_getElem? ht)]
    rfl
  have hrem : ∀ t ∈ rem, t ∈ rem ++ add := fun t ht => List.mem_append_left _ ht
  have hadd : ∀ t ∈ add, t ∈ rem ++ add := fun t ht => List.mem_append_right _ ht
  refine h.work hphase rem add htasks htasks' hsubmitted hbound hhold hlimits hcalls hclaimed ?_
    (fun i ht => (hidle _ (hrem _ ht)).2.2.2 i true rfl) (fun t ht => (hidle t (hadd t ht)).2.1)
    (fun i b ht => (hidle _ (hadd _ ht)).2.2.2 i b rfl) (by rw [hhanded]; exact h.handed) ?_
  · intro i
    refine Or.inl ?_
    simp only [places, htasks, htasks', tally_append, hhold, hhanded,
      hzero i rem fun t ht => (hidle t (hrem t ht)).1, hzero i add fun t ht => (hidle t (hadd t ht)).1]
  · intro t ht p hp
    rw [(hidle t (hadd t ht)).2.2.1] at hp
    cases hp

end Wf

theorem wf_rawMoves (h : Wf s) (hmoves : RawMoves cfg e s s') : Wf s' := by
  have hphase := phase_rawMoves h.phase hmoves
  cases hmoves with
  | direct _ s size =>
    exact h.aside hphase [] [_] rfl rfl rfl rfl rfl ⟨rfl, rfl⟩ rfl rfl rfl
      (by simp [Task.carries, Task.holds, Task.claims])
  | refused => exact h.aside hphase [] [] rfl rfl rfl rfl rfl ⟨rfl, rfl⟩ rfl rfl rfl (by simp)
  | pended => exact h.aside hphase [] [] rfl rfl rfl rfl rfl ⟨rfl, rfl⟩ rfl rfl rfl (by simp)
  | addSession =>
    exact h.aside hphase [] [.addSession _] rfl rfl rfl rfl rfl ⟨rfl, rfl⟩ rfl rfl rfl
      (by simp [Task.carries, Task.holds, Task.claims])
  | onDelSession s sid =>
    revert hphase
    rw [State.onDelSession]
    split
    · intro hphase
      exact h.aside hphase [] [] rfl rfl rfl rfl rfl ⟨rfl, rfl⟩ rfl rfl rfl (by simp)
    · intro _
      exact h
  | closeSession => exact h.aside hphase [] [] rfl rfl rfl rfl rfl ⟨rfl, rfl⟩ rfl rfl rfl (by simp)
  | onBytesSent => exact h.aside hphase [] [] rfl rfl rfl rfl rfl ⟨rfl, rfl⟩ rfl rfl rfl (by simp)
  | sent s s₁ m sid hsend =>
    obtain ⟨stSession, -, rfl⟩ := sendMessage_some hsend
    exact h.aside hphase [.sendRaw m sid] [] rfl rfl rfl rfl rfl ⟨rfl, rfl⟩ rfl rfl rfl
      (by simp [Task.carries, Task.holds, Task.claims])
  | sendFailed s m sid =>
    exact h.aside hphase [.sendRaw m sid] [] rfl rfl rfl rfl rfl ⟨rfl, rfl⟩ rfl rfl rfl
      (by simp [Task.carries, Task.holds, Task.claims])
  | onAddSession s sid =>
    exact h.aside hphase [.addSession sid] [.flushPending sid] rfl rfl rfl rfl rfl ⟨rfl, rfl⟩ rfl
      rfl rfl (by simp [Task.carries, Task.holds, Task.claims])
  | pendingSent s s₁ sid m v hpending hsend =>
    obtain ⟨stSession, -, rfl⟩ := sendMessage_some hsend
    exact h.aside hphase [.flushPending sid] [.flushPending sid] rfl rfl rfl rfl rfl ⟨rfl, rfl⟩
      rfl rfl rfl (by simp [Task.carries, Task.holds, Task.claims])
  | pendingFlushed s sid =>
    exact h.aside hphase [.flushPending sid] [.flushHeld sid] rfl rfl rfl rfl rfl ⟨rfl, rfl⟩ rfl
      rfl rfl (by simp [Task.carries, Task.holds, Task.claims])

theorem wf_step (h : Wf s) (hstep : step cfg s e = some s') : Wf s' := by
  obtain ⟨tasks, hperm, hmoves | hmoves⟩ := step_moves hstep
  · exact wf_callMoves (h.perm hperm) hmoves
  · exact wf_rawMoves (h.perm hperm) hmoves

theorem wf_run {run : List Event} (h : Wf s) (hrun : runFrom (step cfg) s run = some s') : Wf s' :=
  runFrom_invariant (fun _ _ _ h hstep => wf_step h hstep) h hrun

/-! ## What a step does to the hold and to the sessions -/

/-- The hold stays, is emptied, loses a call or gets one more. -/
theorem hold_callMoves (hmoves : CallMoves e s s') :
    s'.hold = s.hold ∨ s'.hold = s.hold.swapped ∨ (∃ i, s.hold.drop i = some s'.hold) ∨
      ∃ c, Task.queue c ∈ s.tasks ∧ s'.hold = s.hold.push c ∧
        s'.m_iHeldMaxCount = s.m_iHeldMaxCount ∧ s'.m_iHeldMaxBytes = s.m_iHeldMaxBytes := by
  have htake : ∀ (u : State) (i : ℕ), (u.takeSlot i).hold = u.hold := by
    intro u i
    obtain ⟨calls, tasks, heq⟩ := takeSlot_fields u i
    rw [heq]
  cases hmoves with
  | failHeldCalls => exact Or.inr (Or.inl rfl)
  | flushHeld => exact Or.inr (Or.inl rfl)
  | takeSlot s i => exact Or.inl (htake s i)
  | wake s i => exact Or.inl (htake s i)
  | failNext s c v => exact Or.inl (htake s c.callId)
  | queued s c => exact Or.inr (Or.inr (Or.inr ⟨c, List.mem_cons_self, rfl, rfl, rfl⟩))
  | dropped s i hold _ hdrop => exact Or.inr (Or.inr (Or.inl ⟨i, hdrop⟩))
  | claimed s s₁ c sid hclaim | flushClaimed s s₁ sid c v hclaim =>
    obtain ⟨-, rfl⟩ := claimRpcSend_some hclaim
    exact Or.inl rfl
  | sent s s₁ c sid hsend | flushSent s s₁ sid c v hsend =>
    obtain ⟨stSession, -, rfl⟩ := sendCall_some hsend
    exact Or.inl rfl
  | _ => exact Or.inl rfl

/-- A claim finds a slot, and a send is that of a claimed call. -/
theorem sends_callMoves (hmoves : CallMoves e s s') :
    (s'.claimed = s.claimed ∨ ∃ i sid, s.calls i ≠ none ∧ s'.calls i = some ⟨false, sid⟩ ∧
      s'.claimed = (i, sid) :: s.claimed) ∧
    (s'.handed = s.handed ∨ ∃ t ∈ s.tasks, ∃ p ∈ t.claims, s'.handed = s.handed ++ [p]) := by
  have htake : ∀ (u : State) (i : ℕ),
      (u.takeSlot i).claimed = u.claimed ∧ (u.takeSlot i).handed = u.handed := by
    intro u i
    obtain ⟨calls, tasks, heq⟩ := takeSlot_fields u i
    rw [heq]
    exact ⟨rfl, rfl⟩
  cases hmoves with
  | takeSlot s i => exact ⟨Or.inl (htake s i).1, Or.inl (htake s i).2⟩
  | wake s i => exact ⟨Or.inl (htake s i).1, Or.inl (htake s i).2⟩
  | failNext s c v => exact ⟨Or.inl (htake s c.callId).1, Or.inl (htake s c.callId).2⟩
  | claimed s s₁ c sid hclaim | flushClaimed s s₁ sid c v hclaim =>
    obtain ⟨hslot, rfl⟩ := claimRpcSend_some hclaim
    exact ⟨Or.inr ⟨c.callId, sid, hslot, Function.update_self _ _ _, rfl⟩, Or.inl rfl⟩
  | sent s s₁ c sid hsend =>
    obtain ⟨stSession, -, rfl⟩ := sendCall_some hsend
    exact ⟨Or.inl rfl, Or.inr ⟨.submit c sid, List.mem_cons_self, _, rfl, rfl⟩⟩
  | flushSent s s₁ sid c v hsend =>
    obtain ⟨stSession, -, rfl⟩ := sendCall_some hsend
    exact ⟨Or.inl rfl, Or.inr ⟨.flushSend sid c v, List.mem_cons_self, _, rfl, rfl⟩⟩
  | _ => exact ⟨Or.inl rfl, Or.inl rfl⟩

/-- Raw data and connections leave the calls alone. -/
theorem calls_rawMoves (hmoves : RawMoves cfg e s s') :
    s'.hold = s.hold ∧ s'.claimed = s.claimed ∧ s'.handed = s.handed := by
  cases hmoves with
  | onDelSession s sid =>
    rw [State.onDelSession]
    split <;> exact ⟨rfl, rfl, rfl⟩
  | sent s s₁ m sid hsend | pendingSent s s₁ sid m v hpending hsend =>
    obtain ⟨stSession, -, rfl⟩ := sendMessage_some hsend
    exact ⟨rfl, rfl, rfl⟩
  | _ => exact ⟨rfl, rfl, rfl⟩

theorem within_step (h : Wf s) (hstep : step cfg s e = some s')
    (hmore : s.hold.calls.length < s'.hold.calls.length) :
    s'.hold.calls.length ≤ s'.m_iHeldMaxCount ∧ s'.hold.bytes ≤ s'.m_iHeldMaxBytes := by
  obtain ⟨tasks, hperm, hmoves | hmoves⟩ := step_moves hstep
  · have hwf := h.perm hperm
    rcases hold_callMoves hmoves with heq | heq | ⟨i, hdrop⟩ | ⟨c, hc, heq, hcount, hbytes⟩
    · rw [heq] at hmore
      exact absurd hmore (Nat.lt_irrefl _)
    · rw [heq] at hmore
      exact absurd hmore (Nat.not_lt_zero _)
    · obtain ⟨hold', hdrop', -, hids⟩ := h.hold.drop i
      obtain rfl := Option.some.inj (hdrop.symm.trans hdrop')
      have hle : s'.hold.ids.length ≤ s.hold.ids.length := by
        rw [hids]
        exact List.length_filter_le _ _
      simp only [HoldList.ids, List.length_map] at hle
      omega
    · rw [heq, hcount, hbytes]
      exact HoldList.within_push (hwf.room _ hc c rfl)
  · rw [(calls_rawMoves hmoves).1] at hmore
    exact absurd hmore (Nat.lt_irrefl _)

theorem claimed_step {p : ℕ × ℤ} (hstep : step cfg s e = some s') (hp : p ∈ s'.claimed) :
    p ∈ s.claimed ∨ (s.calls p.1 ≠ none ∧ s'.calls p.1 = some ⟨false, p.2⟩) := by
  obtain ⟨tasks, hperm, hmoves | hmoves⟩ := step_moves hstep
  · rcases (sends_callMoves hmoves).1 with heq | ⟨i, sid, hslot, hslot', heq⟩
    · exact Or.inl (heq ▸ hp)
    · rw [heq] at hp
      rcases List.mem_cons.1 hp with rfl | hp
      · exact Or.inr ⟨hslot, hslot'⟩
      · exact Or.inl hp
  · exact Or.inl ((calls_rawMoves hmoves).2.1 ▸ hp)

theorem handed_step {p : ℕ × ℤ} (h : Wf s) (hstep : step cfg s e = some s') (hp : p ∈ s'.handed) :
    p ∈ s.claimed := by
  obtain ⟨tasks, hperm, hmoves | hmoves⟩ := step_moves hstep
  · rcases (sends_callMoves hmoves).2 with heq | ⟨t, ht, q, hq, heq⟩
    · exact h.handed p (heq ▸ hp)
    · rw [heq] at hp
      rcases List.mem_append.1 hp with hp | hp
      · exact h.handed p hp
      · rw [List.mem_singleton.1 hp]
        exact (h.perm hperm).claims t ht q hq
  · exact h.handed p ((calls_rawMoves hmoves).2.2 ▸ hp)

/-! ## What holds of runs -/

/-- In a step of the run `ClaimRpcSend` found the slot of the call and bound it to the session. -/
def ClaimedIn (cfg : Config) (s : State) (run : List Event) (i : ℕ) (sid : ℤ) : Prop :=
  ∃ es e es' t t', run = es ++ e :: es' ∧ runFrom (step cfg) s es = some t ∧
    step cfg t e = some t' ∧ t.calls i ≠ none ∧ t'.calls i = some ⟨false, sid⟩

/-- Whenever a step puts a call into the hold, the limits in force are kept. -/
def AdmitsWithin (cfg : Config) (s : State) (run : List Event) : Prop :=
  ∀ es e es' t t', run = es ++ e :: es' → runFrom (step cfg) s es = some t →
    step cfg t e = some t' → t.hold.calls.length < t'.hold.calls.length →
      t'.hold.calls.length ≤ t'.m_iHeldMaxCount ∧ t'.hold.bytes ≤ t'.m_iHeldMaxBytes

/-- A session accepts the bytes of a call only after the call has been claimed for it. -/
def HandsClaimed (cfg : Config) (s : State) (run : List Event) : Prop :=
  ∀ es e es' t t' i sid, run = es ++ e :: es' → runFrom (step cfg) s es = some t →
    step cfg t e = some t' → (i, sid) ∈ t'.handed → ClaimedIn cfg s es i sid

/-- A session accepts the bytes of a call only while the slot is in the call table. -/
def HandsLive (cfg : Config) (s : State) (run : List Event) : Prop :=
  ∀ es e es' t t' i sid, run = es ++ e :: es' → runFrom (step cfg) s es = some t →
    step cfg t e = some t' → (i, sid) ∉ t.handed → (i, sid) ∈ t'.handed → t.calls i ≠ none

theorem claimed_run {run : List Event} {sid : ℤ} :
    ∀ {s s' : State}, runFrom (step cfg) s run = some s' → (i, sid) ∈ s'.claimed →
      (i, sid) ∈ s.claimed ∨ ClaimedIn cfg s run i sid := by
  induction run with
  | nil =>
    intro s s' hrun hp
    obtain rfl := Option.some.inj hrun
    exact Or.inl hp
  | cons e run ih =>
    intro s s' hrun hp
    obtain ⟨s₁, hstep, hrest⟩ := runFrom_cons.1 hrun
    rcases ih hrest hp with hp | ⟨es, e', es', t, t', rfl, ht, hstep', hslot, hslot'⟩
    · rcases claimed_step hstep hp with hp | ⟨hslot, hslot'⟩
      · exact Or.inl hp
      · exact Or.inr ⟨[], e, run, s, s₁, rfl, rfl, hstep, hslot, hslot'⟩
    · exact Or.inr ⟨e :: es, e', es', t, t', rfl, runFrom_cons.2 ⟨s₁, hstep, ht⟩, hstep', hslot,
        hslot'⟩

/-- The hold over a run, and the calls in the state that it reaches. -/
structure HeldOnce (cfg : Config) (run : List Event) (s : State) : Prop where
  /-- The list and the index describe the same calls, one for each id, and the bytes are theirs. -/
  hold : s.hold.Wf
  /-- No drop uses a dangling iterator or takes more bytes than there are. -/
  drop : (∀ i, s.hold.drop i ≠ none) ∧ ∀ n ∈ s.hold.calls, n.val.size ≤ s.hold.bytes
  admits : AdmitsWithin cfg init run
  /-- The bytes of a call go to one session, once. -/
  once : (s.handed.map Prod.fst).Nodup
  claimed : HandsClaimed cfg init run
  /-- A held call waits in the table, or it is about to leave the hold. -/
  awaiting : ∀ i ∈ s.hold.ids, AwaitsOrDrops s i
  /-- A submitted call that waits in the table is held, in the hands of a thread, or sent. -/
  accounted : ∀ i ∈ s.submitted, s.calls i ≠ none →
    i ∈ s.hold.ids ∨ (∃ t ∈ s.tasks, i ∈ t.carries) ∨ ∃ sid, (i, sid) ∈ s.handed

/-- **Held calls are sent or failed.** In every run: the hold is consistent and within its limits
when a call is put in, no call is sent twice, a call is sent only to the session for which it was
claimed while it was in the call table, and no waiting call is lost. -/
theorem held_once {cfg : Config} {run : List Event} {s : State}
    (hrun : runFrom (step cfg) init run = some s) : HeldOnce cfg run s := by
  have h := wf_run wf_init hrun
  refine ⟨h.hold, ⟨?_, fun n hn => h.hold.size_le hn⟩, ?_, ?_, ?_, fun i hi =>
    h.awaiting i (Or.inl hi), ?_⟩
  · intro i hnone
    obtain ⟨hold, hdrop, -⟩ := h.hold.drop i
    rw [hdrop] at hnone
    cases hnone
  · intro es e es' t t' _ ht hstep hmore
    exact within_step (wf_run wf_init ht) hstep hmore
  · rw [List.nodup_iff_count_le_one]
    intro i
    have honce := h.once i
    simp only [places] at honce
    omega
  · intro es e es' t t' i sid _ ht hstep hp
    have hclaimed := handed_step (wf_run wf_init ht) hstep hp
    exact (claimed_run ht hclaimed).resolve_left List.not_mem_nil
  · intro i hi hs
    have hpos := h.accounted i hi hs
    by_contra hnone
    rw [not_or, not_or] at hnone
    obtain ⟨hheld, htask, hsent⟩ := hnone
    have htasks : tally (fun t => t.carries.count i) s.tasks = 0 :=
      tally_eq_zero fun j t ht =>
        List.count_eq_zero_of_not_mem fun hmem => htask ⟨t, List.mem_of_getElem? ht, hmem⟩
    have hhanded : (s.handed.map Prod.fst).count i = 0 := by
      refine List.count_eq_zero_of_not_mem fun hmem => ?_
      obtain ⟨⟨j, sid⟩, hp, rfl⟩ := List.mem_map.1 hmem
      exact hsent ⟨sid, hp⟩
    rw [places, List.count_eq_zero_of_not_mem hheld, htasks, hhanded] at hpos
    cases hpos

/-! ## A call that times out between its claim and its send -/

/-- The limit of the examples. -/
def hundredBytes : Config := ⟨100⟩

/-- A call of four bytes is held, the manager connects, and the flush claims the call. Then the
sweep completes it. -/
def timedOutInFlight : List Event :=
  [.bindRpcCall, .submitCall ⟨0, 4⟩, .run (.mark ⟨0, 4⟩), .run (.queue ⟨0, 4⟩), .addSession,
    .run (.addSession 1), .run (.flushPending 1), .run (.flushHeld 1), .run (.flush 1 [⟨0, 4⟩]),
    .takeSlot 0, .run (.finish 0 false)]

/-- **A call can be sent after it has timed out.** The claim and the send are two steps, and the
slot can go between them. -/
theorem hands_after_timeout : ¬ HandsLive hundredBytes init
    (timedOutInFlight ++ Event.run (.flushSend 1 ⟨0, 4⟩ []) :: []) := by
  have hrun : (runFrom (step hundredBytes) init timedOutInFlight).map (fun t =>
      decide (t.calls 0 = none ∧ t.handed = [] ∧
        (step hundredBytes t (.run (.flushSend 1 ⟨0, 4⟩ []))).map (fun t' => t'.handed) =
          some [(0, 1)])) = some true := by
    decide +kernel
  obtain ⟨t, ht, hfacts⟩ := Option.map_eq_some_iff.1 hrun
  obtain ⟨hgone, hnot, hsend⟩ := of_decide_eq_true hfacts
  obtain ⟨t', hstep, hhanded⟩ := Option.map_eq_some_iff.1 hsend
  intro hlive
  refine hlive timedOutInFlight _ [] t t' 0 1 rfl ht hstep ?_ ?_ hgone
  · rw [hnot]
    exact List.not_mem_nil
  · rw [hhanded]
    exact List.mem_singleton_self _

/-- A call is held and sent after the connect. -/
def heldThenSent : List Event :=
  [.bindRpcCall, .submitCall ⟨0, 4⟩, .run (.mark ⟨0, 4⟩), .run (.queue ⟨0, 4⟩), .addSession,
    .run (.addSession 1), .run (.flushPending 1), .run (.flushHeld 1), .run (.flush 1 [⟨0, 4⟩]),
    .run (.flushSend 1 ⟨0, 4⟩ []), .run (.flush 1 [])]

theorem held_once_heldThenSent :
    ∃ s, runFrom (step hundredBytes) init heldThenSent = some s ∧
      HeldOnce hundredBytes heldThenSent s ∧ s.handed = [(0, 1)] ∧ s.tasks = [] := by
  have hrun : (runFrom (step hundredBytes) init heldThenSent).map (fun s =>
      decide (s.handed = [(0, 1)] ∧ s.tasks = [])) = some true := by
    decide +kernel
  obtain ⟨s, hs, hfacts⟩ := Option.map_eq_some_iff.1 hrun
  exact ⟨s, hs, held_once hs, of_decide_eq_true hfacts⟩

end OpenIdea.Rpc.ClientManager
