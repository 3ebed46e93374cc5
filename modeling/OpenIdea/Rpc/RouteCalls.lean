import OpenIdea.Rpc.RouteDial

/-!
# The calls of a routed connection

A submitted call is held, it waits in a loop of `Finish`, or it has been claimed for a session, and
never twice (`places`). A claimed call is sent at most once, by the thread that claimed it
(`sends`). `Calls` adds what becomes of the call's slot: where nobody has the call, the slot is gone
or a thread is about to wake it with an error. Every step keeps `Calls` (`calls_moves`).
-/

set_option autoImplicit false

namespace OpenIdea.Rpc.RouteConnection

open OpenIdea.Lib OpenIdea.Lib.Runs OpenIdea.Lib.Tally

namespace Task

/-- The calls that the loop of `Finish` has still to claim or to wake. -/
def waiting : Task → List ℕ
  | .flush _ v | .flushSend _ _ v => v.map HeldCall.callId
  | _ => []

/-- The call that the task has claimed and not yet sent. -/
def claim : Task → List (ℕ × ℤ)
  | .submit c sid | .flushSend sid c _ => [(c.callId, sid)]
  | _ => []

end Task

/-- How often a call is held, waits with a task, or has been claimed. -/
def places (s : State) (i : ℕ) : ℕ :=
  s.hold.ids.count i + tally (fun t => t.waiting.count i) s.tasks + (s.claimed.map Prod.fst).count i

/-- How often a call is about to be sent to a session, or has been. -/
def sends (s : State) (p : ℕ × ℤ) : ℕ :=
  tally (fun t => t.claim.count p) s.tasks + s.handed.count p

/-- The call's slot says that it waits for a connect, or `FinishRpcSlot` is about to drop it. -/
def AwaitsOrDrops (s : State) (i : ℕ) : Prop :=
  (∃ sid, s.calls i = some ⟨true, sid⟩) ∨ Task.finishSlot i true ∈ s.tasks

/-- **The calls and their slots.** -/
structure Calls (s : State) : Prop where
  hold : s.hold.Wf
  once : ∀ i, places s i ≤ 1
  fresh : ∀ i, i ∉ s.submitted → places s i = 0
  bound : ∀ i, i ∈ s.submitted ∨ s.calls i ≠ none → i < s.bound
  taken : ∀ i b, Task.finishSlot i b ∈ s.tasks → s.calls i = none ∧ i < s.bound
  awaiting : ∀ i ∈ s.hold.ids, AwaitsOrDrops s i
  accounted : ∀ i ∈ s.submitted, s.calls i ≠ none →
    0 < places s i ∨ ∃ iCode, Task.wake i iCode ∈ s.tasks
  sends : ∀ p, sends s p ≤ s.claimed.count p
  codes : ∀ i iCode, Task.wake i iCode ∈ s.tasks → iCode ≠ oiOk
  woken : ∀ p ∈ s.woken, p.2 ≠ oiOk ∧ s.calls p.1 = none ∧ p.1 < s.bound
  wokenOnce : (s.woken.map Prod.fst).Nodup

theorem calls_init : Calls init where
  hold := HoldList.wf_empty
  once := fun _ => Nat.zero_le _
  fresh := fun _ _ => rfl
  bound := fun i h => by
    rcases h with h | h
    · exact absurd h List.not_mem_nil
    · exact absurd rfl h
  taken := fun _ _ ht => absurd ht List.not_mem_nil
  awaiting := fun _ h => absurd h List.not_mem_nil
  accounted := fun _ h => absurd h List.not_mem_nil
  sends := fun _ => Nat.zero_le _
  codes := fun _ _ ht => absurd ht List.not_mem_nil
  woken := fun _ h => absurd h List.not_mem_nil
  wokenOnce := List.nodup_nil

namespace Calls

variable {s s' : State}

theorem perm (h : Calls s) {tasks : List Task} (hperm : tasks.Perm s.tasks) :
    Calls { s with tasks := tasks } := by
  have hplaces : ∀ i, places { s with tasks := tasks } i = places s i := fun i => by
    simp only [places, tally, (hperm.map _).sum_eq]
  have hsends : ∀ p, RouteConnection.sends { s with tasks := tasks } p =
      RouteConnection.sends s p := fun p => by
    simp only [RouteConnection.sends, tally, (hperm.map _).sum_eq]
  refine ⟨h.hold, fun i => (hplaces i).trans_le (h.once i),
    fun i hi => (hplaces i).trans (h.fresh i hi), h.bound,
    fun i b ht => h.taken i b (hperm.subset ht), fun i hi => ?_, fun i hi hs => ?_,
    fun p => (hsends p).trans_le (h.sends p), fun i iCode ht => h.codes i iCode (hperm.subset ht),
    h.woken, h.wokenOnce⟩
  · exact (h.awaiting i hi).imp_right fun ht => hperm.symm.subset ht
  · rw [hplaces]
    exact (h.accounted i hi hs).imp_right fun ht => ht.imp fun _ ht => hperm.symm.subset ht

/-- A step that replaces the tasks `rem` by `add` and submits nothing. -/
theorem next (h : Calls s) (rem add : List Task) {rest : List Task}
    (htasks : s.tasks = rem ++ rest) (htasks' : s'.tasks = add ++ rest)
    (hsubmitted : s'.submitted = s.submitted) (hbound : s'.bound = s.bound)
    (hhold : s'.hold.Wf) (hcalls : ∀ i, s.calls i = none → s'.calls i = none)
    (hplaces : ∀ i, places s' i = places s i ∨ (s'.calls i = none ∧ places s' i ≤ places s i))
    (hwake : ∀ i iCode, Task.wake i iCode ∈ rem → s'.calls i = none)
    (htaken : ∀ i b, Task.finishSlot i b ∈ add → s'.calls i = none ∧ i < s.bound)
    (hawaiting : ∀ i ∈ s'.hold.ids, AwaitsOrDrops s' i)
    (hsends : ∀ p, RouteConnection.sends s' p ≤ s'.claimed.count p)
    (hcodes : ∀ i iCode, Task.wake i iCode ∈ add → iCode ≠ oiOk)
    (hwoken : s'.woken = s.woken ∨ ∃ i iCode, s'.woken = (i, iCode) :: s.woken ∧ iCode ≠ oiOk ∧
      s.calls i ≠ none ∧ s'.calls i = none) : Calls s' where
  hold := hhold
  once := by
    intro i
    rcases hplaces i with hi | ⟨-, hi⟩
    · exact hi.trans_le (h.once i)
    · exact hi.trans (h.once i)
  fresh := by
    intro i hi
    rw [hsubmitted] at hi
    have hzero := h.fresh i hi
    rcases hplaces i with hi | ⟨-, hi⟩
    · exact hi.trans hzero
    · omega
  bound := by
    intro i hi
    rw [hbound]
    rw [hsubmitted] at hi
    exact h.bound i (hi.imp_right fun hs hnone => hs (hcalls i hnone))
  taken := by
    intro i b ht
    rw [hbound]
    rw [htasks'] at ht
    rcases List.mem_append.1 ht with ht | ht
    · exact htaken i b ht
    · obtain ⟨hnone, hlt⟩ := h.taken i b (htasks ▸ List.mem_append_right _ ht)
      exact ⟨hcalls i hnone, hlt⟩
  awaiting := hawaiting
  accounted := by
    intro i hi hs
    rw [hsubmitted] at hi
    rcases hplaces i with hp | ⟨hnone, -⟩
    · rw [hp]
      refine (h.accounted i hi fun hnone => hs (hcalls i hnone)).imp_right fun ⟨iCode, ht⟩ => ?_
      rw [htasks] at ht
      rcases List.mem_append.1 ht with ht | ht
      · exact absurd (hwake i iCode ht) hs
      · exact ⟨iCode, htasks' ▸ List.mem_append_right _ ht⟩
    · exact absurd hnone hs
  sends := hsends
  codes := by
    intro i iCode ht
    rw [htasks'] at ht
    rcases List.mem_append.1 ht with ht | ht
    · exact hcodes i iCode ht
    · exact h.codes i iCode (htasks ▸ List.mem_append_right _ ht)
  woken := by
    intro p hp
    rw [hbound]
    rcases hwoken with heq | ⟨i, iCode, heq, hcode, hslot, hnone⟩
    · obtain ⟨hc, hn, hlt⟩ := h.woken p (heq ▸ hp)
      exact ⟨hc, hcalls _ hn, hlt⟩
    · rw [heq] at hp
      rcases List.mem_cons.1 hp with rfl | hp
      · exact ⟨hcode, hnone, h.bound i (Or.inr hslot)⟩
      · obtain ⟨hc, hn, hlt⟩ := h.woken p hp
        exact ⟨hc, hcalls _ hn, hlt⟩
  wokenOnce := by
    rcases hwoken with heq | ⟨i, iCode, heq, -, hslot, -⟩
    · rw [heq]
      exact h.wokenOnce
    · rw [heq, List.map_cons, List.nodup_cons]
      refine ⟨fun hmem => ?_, h.wokenOnce⟩
      obtain ⟨p, hp, hpi⟩ := List.mem_map.1 hmem
      have hpi' : p.1 = i := hpi
      exact hslot (hpi' ▸ (h.woken p hp).2.1)

/-- A step of a task that leaves the hold and the call table alone. -/
theorem work (h : Calls s) (rem add : List Task) {rest : List Task}
    (htasks : s.tasks = rem ++ rest) (htasks' : s'.tasks = add ++ rest)
    (hsubmitted : s'.submitted = s.submitted) (hbound : s'.bound = s.bound)
    (hhold : s'.hold = s.hold) (hcalls : s'.calls = s.calls)
    (hclaimed : s'.claimed = s.claimed) (hwoken : s'.woken = s.woken)
    (hplaces : ∀ i, places s' i = places s i ∨ (s.calls i = none ∧ places s' i ≤ places s i))
    (hsends : ∀ p, RouteConnection.sends s' p ≤ RouteConnection.sends s p)
    (hrem : ∀ i, Task.finishSlot i true ∉ rem ∧ ∀ iCode, Task.wake i iCode ∉ rem)
    (hadd : ∀ i b, Task.finishSlot i b ∉ add)
    (hcodes : ∀ i iCode, Task.wake i iCode ∈ add → iCode ≠ oiOk) : Calls s' := by
  refine h.next rem add htasks htasks' hsubmitted hbound (by rw [hhold]; exact h.hold)
    (fun i hi => by rw [hcalls]; exact hi) (fun i => by rw [hcalls]; exact hplaces i)
    (fun i iCode ht => absurd ht ((hrem i).2 iCode)) (fun i b ht => absurd ht (hadd i b)) ?_
    (fun p => by rw [hclaimed]; exact (hsends p).trans (h.sends p)) hcodes (Or.inl hwoken)
  intro i hi
  rw [hhold] at hi
  rcases h.awaiting i hi with ⟨sid, hsid⟩ | hdrop
  · exact Or.inl ⟨sid, by rw [hcalls]; exact hsid⟩
  · rw [htasks] at hdrop
    refine Or.inr ?_
    rw [htasks']
    exact List.mem_append_right _ ((List.mem_append.1 hdrop).resolve_left (hrem i).1)

end Calls
/-! ## The call table -/

/-- The fields of a state whose slot of `x` has been taken out. -/
theorem takeSlot_spec (s : State) (x : ℕ) :
    ∃ add, (s.takeSlot x).tasks = add ++ s.tasks ∧ (s.takeSlot x).calls = s.calls.erase x ∧
      (∀ t ∈ add, ∃ stSlot, s.calls x = some stSlot ∧
        t = .finishSlot x stSlot.bAwaitingConnect) ∧
      (∀ stSlot, s.calls x = some stSlot → .finishSlot x stSlot.bAwaitingConnect ∈ add) ∧
      s.takeSlot x = { s with tasks := add ++ s.tasks, calls := s.calls.erase x } := by
  rw [State.takeSlot]
  cases hslot : s.calls x with
  | none =>
    have herase : s.calls.erase x = s.calls := by
      rw [CallTable.erase, ← hslot, Function.update_eq_self]
    refine ⟨[], rfl, herase.symm, by simp, by simp, ?_⟩
    rw [herase]
    rfl
  | some stSlot =>
    refine ⟨[.finishSlot x stSlot.bAwaitingConnect], rfl, rfl, ?_, ?_, rfl⟩
    · intro t ht
      exact ⟨stSlot, rfl, List.mem_singleton.1 ht⟩
    · intro stSlot' heq
      obtain rfl := Option.some.inj heq
      exact List.mem_singleton_self _

theorem wakeRpcCall_eq (s : State) (x : ℕ) (iCode : ℤ) :
    s.wakeRpcCall x iCode = { s.takeSlot x with
      woken := if s.calls x = none then s.woken else (x, iCode) :: s.woken } := by
  rw [State.wakeRpcCall]
  split
  · rename_i hslot
    rw [State.takeSlot, hslot]
  · rfl

variable {i : ℕ} {s : State} {c : HeldCall}

theorem erase_none {calls : CallTable} {x : ℕ} (h : calls i = none) : calls.erase x i = none := by
  by_cases hi : i = x
  · rw [hi, CallTable.erase, Function.update_self]
  · rw [CallTable.erase, Function.update_of_ne hi]
    exact h

namespace Calls

/-- A slot is taken out by a step that may also let go of the call. -/
theorem slotTaken (rem add rest : List Task) {x : ℕ} {woken : List (ℕ × ℤ)}
    (h : Calls { s with tasks := rem ++ rest }) (hrest : s.tasks = add ++ rest)
    (hadd : ∀ i, (∀ b, Task.finishSlot i b ∉ add) ∧ ∀ iCode, Task.wake i iCode ∉ add)
    (hrem : ∀ i, Task.finishSlot i true ∉ rem ∧ ∀ iCode, Task.wake i iCode ∈ rem → i = x)
    (hplaces : ∀ i, places s i = places { s with tasks := rem ++ rest } i ∨
      (i = x ∧ places s i ≤ places { s with tasks := rem ++ rest } i))
    (hsends : ∀ p, RouteConnection.sends s p ≤
      RouteConnection.sends { s with tasks := rem ++ rest } p)
    (hwoken : woken = s.woken ∨ ∃ iCode, woken = (x, iCode) :: s.woken ∧ iCode ≠ oiOk ∧
      s.calls x ≠ none) : Calls { s.takeSlot x with woken := woken } := by
  obtain ⟨more, -, -, hmore, hfinish, heq⟩ := takeSlot_spec s x
  rw [heq]
  have hgone : s.calls.erase x x = none := Function.update_self _ _ _
  have hzero : ∀ t ∈ more, t.waiting = [] ∧ t.claim = [] := by
    intro t ht
    obtain ⟨stSlot, -, rfl⟩ := hmore t ht
    exact ⟨rfl, rfl⟩
  have hplaces' : ∀ i, tally (fun t => t.waiting.count i) more = 0 := fun i =>
    tally_eq_zero fun j t ht => by rw [(hzero t (List.mem_of_getElem? ht)).1]; rfl
  have hsends' : ∀ p, tally (fun t => t.claim.count p) more = 0 := fun p =>
    tally_eq_zero fun j t ht => by rw [(hzero t (List.mem_of_getElem? ht)).2]; rfl
  refine h.next rem (more ++ add) rfl ?_ rfl rfl h.hold (fun i hi => erase_none hi) (fun i => ?_)
    ?_ ?_ ?_ (fun p => ?_) ?_ ?_
  · show more ++ s.tasks = _
    rw [hrest, List.append_assoc]
  · have hsame : places { s with
        tasks := more ++ s.tasks, calls := s.calls.erase x, woken := woken } i = places s i := by
      simp only [places, tally_append, hplaces', Nat.zero_add]
    rw [hsame]
    rcases hplaces i with hi | ⟨rfl, hi⟩
    · exact Or.inl hi
    · exact Or.inr ⟨hgone, hi⟩
  · intro i iCode ht
    rw [(hrem i).2 iCode ht]
    exact hgone
  · intro i b ht
    rcases List.mem_append.1 ht with ht | ht
    · obtain ⟨stSlot, hslot, hfin⟩ := hmore _ ht
      rw [(Task.finishSlot.inj hfin).1]
      refine ⟨hgone, h.bound x (Or.inr ?_)⟩
      show s.calls x ≠ none
      rw [hslot]
      exact Option.some_ne_none _
    · exact absurd ht ((hadd i).1 b)
  · intro i hi
    rcases h.awaiting i hi with ⟨sid, hsid⟩ | hdrop
    · by_cases hx : i = x
      · -- the slot was waiting, so the call is dropped next
        subst hx
        exact Or.inr (List.mem_append_left _ (hfinish ⟨true, sid⟩ hsid))
      · exact Or.inl ⟨sid, (Function.update_of_ne hx _ _).trans hsid⟩
    · refine Or.inr (List.mem_append_right _ ?_)
      rw [hrest]
      exact List.mem_append_right _ ((List.mem_append.1 hdrop).resolve_left (hrem i).1)
  · have hsame : RouteConnection.sends { s with
        tasks := more ++ s.tasks, calls := s.calls.erase x, woken := woken } p =
          RouteConnection.sends s p := by
      simp only [RouteConnection.sends, tally_append, hsends', Nat.zero_add]
    rw [hsame]
    exact (hsends p).trans (h.sends p)
  · intro i iCode ht
    rcases List.mem_append.1 ht with ht | ht
    · obtain ⟨stSlot, -, hfin⟩ := hmore _ ht
      cases hfin
    · exact absurd ht ((hadd i).2 iCode)
  · rcases hwoken with rfl | ⟨iCode, rfl, hcode, hslot⟩
    · exact Or.inl rfl
    · exact Or.inr ⟨x, iCode, rfl, hcode, hslot, hgone⟩

theorem takeSlot (h : Calls s) (x : ℕ) : Calls (s.takeSlot x) := by
  have hsame : s.takeSlot x = { s.takeSlot x with woken := s.woken } := by
    rw [State.takeSlot]
    split <;> rfl
  rw [hsame]
  exact slotTaken [] [] s.tasks h rfl (by simp) (by simp) (fun _ => Or.inl rfl)
    (fun _ => Nat.le_refl _) (Or.inl rfl)

theorem wakeRpcCall (rem add rest : List Task) {x : ℕ} {iCode : ℤ}
    (h : Calls { s with tasks := rem ++ rest }) (hrest : s.tasks = add ++ rest)
    (hadd : ∀ i, (∀ b, Task.finishSlot i b ∉ add) ∧ ∀ iCode, Task.wake i iCode ∉ add)
    (hrem : ∀ i, Task.finishSlot i true ∉ rem ∧ ∀ iCode, Task.wake i iCode ∈ rem → i = x)
    (hplaces : ∀ i, places s i = places { s with tasks := rem ++ rest } i ∨
      (i = x ∧ places s i ≤ places { s with tasks := rem ++ rest } i))
    (hsends : ∀ p, RouteConnection.sends s p ≤
      RouteConnection.sends { s with tasks := rem ++ rest } p) (hcode : iCode ≠ oiOk) :
    Calls (s.wakeRpcCall x iCode) := by
  rw [wakeRpcCall_eq]
  refine slotTaken rem add rest h hrest hadd hrem hplaces hsends ?_
  split
  · exact Or.inl rfl
  · rename_i hslot
    exact Or.inr ⟨iCode, rfl, hcode, hslot⟩

/-- A submission puts a fresh call into one place, or leaves a task to wake it. -/
theorem given {s' : State} (h : Calls s) {i : ℕ} (hbound : i < s.bound) (hnew : i ∉ s.submitted)
    (add : List Task) (htasks : s'.tasks = add ++ s.tasks)
    (hsubmitted : s'.submitted = i :: s.submitted) (hbound' : s'.bound = s.bound)
    (hwoken : s'.woken = s.woken) (hhold : s'.hold.Wf)
    (hcalls : ∀ j, j ≠ i → s'.calls j = s.calls j) (hnone : s.calls i = none → s'.calls i = none)
    (hplaces : ∀ j, j ≠ i → places s' j = places s j) (honce : places s' i ≤ 1)
    (haccounted : s'.calls i ≠ none → 0 < places s' i ∨ ∃ iCode, Task.wake i iCode ∈ add)
    (hadd : ∀ j b, Task.finishSlot j b ∉ add)
    (hawaiting : ∀ j ∈ s'.hold.ids, j ∈ s.hold.ids ∨ (j = i ∧ AwaitsOrDrops s' i))
    (hsends : ∀ p, RouteConnection.sends s' p ≤ s'.claimed.count p)
    (hcodes : ∀ j iCode, Task.wake j iCode ∈ add → iCode ≠ oiOk) : Calls s' := by
  have hkeep : ∀ j, s.calls j = none → s'.calls j = none := by
    intro j hj
    by_cases hji : j = i
    · subst hji
      exact hnone hj
    · exact (hcalls j hji).trans hj
  have hlater : ∀ {t : Task}, t ∈ s.tasks → t ∈ s'.tasks := fun ht =>
    htasks ▸ List.mem_append_right _ ht
  refine ⟨hhold, fun j => ?_, fun j hj => ?_, fun j hj => ?_, fun j b ht => ?_, fun j hj => ?_,
    fun j hj hs => ?_, hsends, fun j iCode ht => ?_, fun p hp => ?_, ?_⟩
  · by_cases hji : j = i
    · exact hji ▸ honce
    · exact hplaces j hji ▸ h.once j
  · rw [hsubmitted, List.mem_cons, not_or] at hj
    exact (hplaces j hj.1).trans (h.fresh j hj.2)
  · rw [hbound']
    rw [hsubmitted] at hj
    rcases hj with hj | hj
    · rcases List.mem_cons.1 hj with rfl | hj
      · exact hbound
      · exact h.bound j (Or.inl hj)
    · exact h.bound j (Or.inr fun hnone' => hj (hkeep j hnone'))
  · rw [hbound']
    rw [htasks] at ht
    obtain ⟨hj, hlt⟩ := h.taken j b ((List.mem_append.1 ht).resolve_left (hadd j b))
    exact ⟨hkeep j hj, hlt⟩
  · rcases hawaiting j hj with hheld | ⟨rfl, hw⟩
    · have hji : j ≠ i := by
        rintro rfl
        have hzero := h.fresh j hnew
        have hpos := List.count_pos_iff.2 hheld
        simp only [places] at hzero
        omega
      refine (h.awaiting j hheld).imp (fun ⟨sid, hsid⟩ => ⟨sid, ?_⟩) hlater
      exact (hcalls j hji).trans hsid
    · exact hw
  · by_cases hji : j = i
    · subst hji
      refine (haccounted hs).imp_right fun ⟨iCode, ht⟩ => ⟨iCode, ?_⟩
      exact htasks ▸ List.mem_append_left _ ht
    · rw [hsubmitted] at hj
      rw [hplaces j hji]
      have hj' := (List.mem_cons.1 hj).resolve_left hji
      refine (h.accounted j hj' fun hnone' => hs (hkeep j hnone')).imp_right fun ⟨iCode, ht⟩ =>
        ⟨iCode, hlater ht⟩
  · rw [htasks] at ht
    rcases List.mem_append.1 ht with ht | ht
    · exact hcodes j iCode ht
    · exact h.codes j iCode ht
  · rw [hbound']
    obtain ⟨hc, hn, hlt⟩ := h.woken p (hwoken ▸ hp)
    exact ⟨hc, hkeep _ hn, hlt⟩
  · rw [hwoken]
    exact h.wokenOnce

end Calls
/-! ## The steps -/

/-- A call in the hands of a task is in no other place. -/
theorem Calls.places_of_spawn {t : Task} (h : Calls (s.spawn t)) (hi : i ∈ t.waiting) :
    places s i = 0 := by
  have honce := h.once i
  have hpos := List.count_pos_iff.2 hi
  simp only [places, State.spawn, tally_cons] at honce ⊢
  omega

theorem places_eq_zero (h : places s i = 0) : i ∉ s.hold.ids ∧ i ∉ s.claimed.map Prod.fst := by
  constructor
  · intro hmem
    have hpos := List.count_pos_iff.2 hmem
    simp only [places] at h
    omega
  · intro hmem
    have hpos := List.count_pos_iff.2 hmem
    simp only [places] at h
    omega

/-- `Finish` claims the next call of its loop. -/
theorem calls_flushClaimed {sid : ℤ} {v : List HeldCall} (h : Calls (s.spawn (.flush sid (c :: v))))
    (hslot : s.calls c.callId ≠ none) :
    Calls ({ s with
      calls := Function.update s.calls c.callId (some ⟨false, sid⟩)
      claimed := (c.callId, sid) :: s.claimed }.spawn (.flushSend sid c v)) := by
  have hzero := places_eq_zero (h.places_of_spawn (i := c.callId) List.mem_cons_self)
  refine h.next [.flush sid (c :: v)] [.flushSend sid c v] rfl rfl rfl rfl h.hold (fun i hi => ?_)
    (fun i => Or.inl ?_) (by simp) (by simp) (fun i hi => ?_) (fun p => ?_) (by simp) (Or.inl rfl)
  · have hne : i ≠ c.callId := by
      rintro rfl
      exact hslot hi
    exact (Function.update_of_ne hne _ _).trans hi
  · simp only [places, State.spawn, tally_cons, Task.waiting, List.map_cons, List.count_cons]
    omega
  · have hne : i ≠ c.callId := by
      rintro rfl
      exact hzero.1 hi
    rcases h.awaiting i hi with ⟨sid', hsid⟩ | hdrop
    · exact Or.inl ⟨sid', (Function.update_of_ne hne _ _).trans hsid⟩
    · exact Or.inr (List.mem_cons_of_mem _ ((List.mem_cons.1 hdrop).resolve_left nofun))
  · have hsends := h.sends p
    simp only [sends, State.spawn, tally_cons, Task.claim, List.count_nil, List.count_cons] at hsends ⊢
    omega

/-- `Submit` claims a call. -/
theorem calls_claimed (h : Calls s) (hbound : c.callId < s.bound) (hnew : c.callId ∉ s.submitted)
    (hslot : s.calls c.callId ≠ none) :
    Calls ({ s.given c.callId with
      calls := Function.update s.calls c.callId (some ⟨false, s.link.iSessionId⟩)
      claimed := (c.callId, s.link.iSessionId) :: s.claimed }.spawn
        (.submit c s.link.iSessionId)) := by
  have hfresh := h.fresh c.callId hnew
  have hself : places ({ s.given c.callId with
      calls := Function.update s.calls c.callId (some ⟨false, s.link.iSessionId⟩)
      claimed := (c.callId, s.link.iSessionId) :: s.claimed }.spawn
        (.submit c s.link.iSessionId)) c.callId = places s c.callId + 1 := by
    simp [places, State.spawn, State.given, Task.waiting]
    omega
  refine h.given hbound hnew [.submit c s.link.iSessionId] rfl rfl rfl rfl h.hold
    (fun j hj => Function.update_of_ne hj _ _) (fun hnone => absurd hnone hslot) (fun j hj => ?_) ?_
    (fun _ => Or.inl ?_) (by simp) (fun j hj => Or.inl hj) (fun p => ?_) (by simp)
  · have hne : ¬ c.callId = j := fun heq => hj heq.symm
    simp [places, State.spawn, State.given, Task.waiting, hne]
  · rw [hself, hfresh]
  · rw [hself]
    exact Nat.succ_pos _
  · have hsends := h.sends p
    simp only [sends, State.spawn, State.given, tally_cons, Task.claim, List.count_cons,
      List.count_nil] at hsends ⊢
    omega

/-- `Submit` holds a call. -/
theorem calls_held {stSlot : CallSlot} (h : Calls s) (hbound : c.callId < s.bound)
    (hnew : c.callId ∉ s.submitted) (hslot : s.calls c.callId = some stSlot) :
    Calls ({ s.given c.callId with
      calls := Function.update s.calls c.callId (some { stSlot with bAwaitingConnect := true })
      hold := s.hold.push c }.spawn .ensure) := by
  have hfresh := h.fresh c.callId hnew
  have hself : places ({ s.given c.callId with
      calls := Function.update s.calls c.callId (some { stSlot with bAwaitingConnect := true })
      hold := s.hold.push c }.spawn .ensure) c.callId = places s c.callId + 1 := by
    simp [places, State.spawn, State.given, Task.waiting, HoldList.ids_push]
    omega
  refine h.given hbound hnew [.ensure] rfl rfl rfl rfl
    (h.hold.push (places_eq_zero hfresh).1) (fun j hj => Function.update_of_ne hj _ _) ?_
    (fun j hj => ?_) ?_ (fun _ => Or.inl ?_) (by simp) (fun j hj => ?_) (fun p => ?_) (by simp)
  · intro hnone
    rw [hslot] at hnone
    cases hnone
  · have hne : ¬ c.callId = j := fun heq => hj heq.symm
    simp [places, State.spawn, State.given, Task.waiting, HoldList.ids_push, hne]
  · rw [hself, hfresh]
  · rw [hself]
    exact Nat.succ_pos _
  · have hids : j ∈ s.hold.ids ++ [c.callId] := HoldList.ids_push s.hold c ▸ hj
    rcases List.mem_append.1 hids with hids | hids
    · exact Or.inl hids
    · exact Or.inr ⟨List.mem_singleton.1 hids, Or.inl ⟨_, Function.update_self _ _ _⟩⟩
  · have hsends := h.sends p
    simp only [sends, State.spawn, State.given, tally_cons, Task.claim, List.count_nil] at hsends ⊢
    omega

/-- A step of a task that has nothing to do with the places of a call. -/
theorem Calls.idle {s' : State} (h : Calls s) (rem add : List Task) {rest : List Task}
    (htasks : s.tasks = rem ++ rest) (htasks' : s'.tasks = add ++ rest)
    (hsubmitted : s'.submitted = s.submitted) (hbound : s'.bound = s.bound)
    (hhold : s'.hold = s.hold) (hcalls : s'.calls = s.calls) (hclaimed : s'.claimed = s.claimed)
    (hwoken : s'.woken = s.woken) (hhanded : s'.handed = s.handed)
    (hidle : ∀ t ∈ rem ++ add, t.waiting = [] ∧ t.claim = [])
    (hrem : ∀ i, Task.finishSlot i true ∉ rem ∧ ∀ iCode, Task.wake i iCode ∉ rem)
    (hadd : ∀ i b, Task.finishSlot i b ∉ add)
    (hcodes : ∀ i iCode, Task.wake i iCode ∈ add → iCode ≠ oiOk) : Calls s' := by
  have hzero : ∀ (f : Task → ℕ) (l : List Task), (∀ t ∈ l, f t = 0) → tally f l = 0 :=
    fun f l hl => tally_eq_zero fun j t ht => hl t (List.mem_of_getElem? ht)
  have hplaces : ∀ (l : List Task) (i : ℕ), (∀ t ∈ l, t ∈ rem ++ add) →
      tally (fun t => t.waiting.count i) l = 0 := fun l i hl =>
    hzero _ l fun t ht => by rw [(hidle t (hl t ht)).1]; rfl
  have hsends : ∀ (l : List Task) (p : ℕ × ℤ), (∀ t ∈ l, t ∈ rem ++ add) →
      tally (fun t => t.claim.count p) l = 0 := fun l p hl =>
    hzero _ l fun t ht => by rw [(hidle t (hl t ht)).2]; rfl
  have hl : ∀ t ∈ rem, t ∈ rem ++ add := fun t ht => List.mem_append_left _ ht
  have hr : ∀ t ∈ add, t ∈ rem ++ add := fun t ht => List.mem_append_right _ ht
  refine h.work rem add htasks htasks' hsubmitted hbound hhold hcalls hclaimed hwoken
    (fun i => Or.inl ?_) (fun p => Nat.le_of_eq ?_) hrem hadd hcodes
  · simp only [places, htasks, htasks', hhold, hclaimed, tally_append, hplaces rem i hl,
      hplaces add i hr]
  · simp only [RouteConnection.sends, htasks, htasks', hhanded, tally_append, hsends rem p hl,
      hsends add p hr]

theorem calls_bind (h : Calls s) :
    Calls { s with
      bound := s.bound + 1
      calls := Function.update s.calls s.bound (some ⟨false, invalidSid⟩) } := by
  -- the new call is bound for the first time
  have hcalls : ∀ i, i < s.bound →
      Function.update s.calls s.bound (some ⟨false, invalidSid⟩) i = s.calls i := fun i hi =>
    Function.update_of_ne (Nat.ne_of_lt hi) _ _
  have hsubmitted : ∀ i, 0 < places s i → i < s.bound := by
    intro i hi
    refine h.bound i (Or.inl ?_)
    by_contra hnew
    rw [h.fresh i hnew] at hi
    exact Nat.lt_irrefl _ hi
  refine ⟨h.hold, h.once, h.fresh, fun i hi => ?_, fun i b ht => ?_, fun i hi => ?_,
    fun i hi hs => ?_, h.sends, h.codes, fun p hp => ?_, h.wokenOnce⟩
  · by_cases heq : i = s.bound
    · rw [heq]
      exact Nat.lt_succ_self _
    · refine Nat.lt_succ_of_lt (h.bound i (hi.imp_right fun hs hnone => hs ?_))
      exact (Function.update_of_ne heq _ _).trans hnone
  · obtain ⟨hnone, hlt⟩ := h.taken i b ht
    exact ⟨(hcalls i hlt).trans hnone, Nat.lt_succ_of_lt hlt⟩
  · have hpos : 0 < s.hold.ids.count i := List.count_pos_iff.2 hi
    have hlt := hsubmitted i (by simp only [places]; omega)
    exact (h.awaiting i hi).imp_left fun ⟨sid, hsid⟩ => ⟨sid, (hcalls i hlt).trans hsid⟩
  · exact h.accounted i hi fun hnone => hs ((hcalls i (h.bound i (Or.inl hi))).trans hnone)
  · obtain ⟨hc, hn, hlt⟩ := h.woken p hp
    exact ⟨hc, (hcalls _ hlt).trans hn, Nat.lt_succ_of_lt hlt⟩

theorem places_finish (s : State) (sid : ℤ) (i : ℕ) : places (s.finish sid) i = places s i := by
  have hheld : (Task.flush sid s.hold.held).waiting = s.hold.ids := by
    rw [HoldList.ids_eq_map_held]
    rfl
  have hnil : (s.finish sid).hold.ids = [] := rfl
  have htasks : (s.finish sid).tasks = .flush sid s.hold.held :: s.tasks := rfl
  simp only [places, hnil, htasks, tally_cons, hheld, List.count_nil]
  show 0 + _ + _ = _
  rw [Nat.zero_add]
  rfl

theorem calls_finish (h : Calls s) (sid : ℤ) : Calls (s.finish sid) := by
  refine h.next [] [.flush sid s.hold.held] rfl rfl rfl rfl (HoldList.wf_swapped _)
    (fun _ hi => hi) (fun i => Or.inl (places_finish s sid i)) (by simp) (by simp) (fun i hi => ?_)
    (fun p => ?_) (by simp) (Or.inl rfl)
  · exact absurd hi List.not_mem_nil
  · have hsends := h.sends p
    simpa only [sends, State.finish, State.spawn, tally_cons, Task.claim, List.count_nil,
      Nat.zero_add] using hsends

/-- `FinishRpcSlot` drops a call. -/
theorem calls_dropped {hold : HoldList} (h : Calls (s.spawn (.finishSlot i true)))
    (hdrop : s.hold.drop i = some hold) : Calls { s with hold := hold } := by
  obtain ⟨hold', hdrop', hwf, hids⟩ := h.hold.drop i
  obtain rfl := Option.some.inj (hdrop.symm.trans hdrop')
  have hnone : s.calls i = none := (h.taken i true List.mem_cons_self).1
  have hcount : ∀ j, j ≠ i → hold.ids.count j = s.hold.ids.count j := by
    intro j hj
    rw [hids]
    exact List.count_filter (by simpa using hj)
  refine h.next [.finishSlot i true] [] rfl rfl rfl rfl hwf (fun _ hi => hi) (fun j => ?_) (by simp)
    (by simp) (fun j hj => ?_) (fun p => ?_) (by simp) (Or.inl rfl)
  · by_cases hj : j = i
    · subst hj
      refine Or.inr ⟨hnone, ?_⟩
      have hzero : hold.ids.count j = 0 := by
        rw [hids]
        exact List.count_eq_zero_of_not_mem (by simp)
      simp only [places, State.spawn, tally_cons]
      omega
    · refine Or.inl ?_
      simp only [places, State.spawn, tally_cons, Task.waiting, List.count_nil, hcount j hj]
      omega
  · rw [show ({ s with hold := hold } : State).hold.ids = _ from hids] at hj
    obtain ⟨hmem, hne⟩ := List.mem_filter.1 hj
    refine (h.awaiting j hmem).imp_right fun ht => (List.mem_cons.1 ht).resolve_left ?_
    intro heq
    exact absurd (Task.finishSlot.inj heq).1 (by simpa using hne)
  · have hsends := h.sends p
    simpa only [sends, State.spawn, tally_cons, Task.claim, List.count_nil, Nat.zero_add] using
      hsends

/-- The loop of `Finish` lets go of one call. -/
theorem places_flush_ne (s : State) (sid : ℤ) (v : List HeldCall) (hi : i ≠ c.callId) :
    places (s.spawn (.flush sid v)) i = places (s.spawn (.flush sid (c :: v))) i := by
  have hne : ¬ c.callId = i := fun heq => hi heq.symm
  simp [places, State.spawn, Task.waiting, hne]

theorem calls_moves {cfg : Config} {e : Event} {s' : State} (h : Calls s)
    (hmoves : Moves cfg e s s') : Calls s' := by
  cases hmoves with
  | bind s => exact calls_bind h
  | refused s c iCode hbound hnew hcode =>
    refine h.given hbound hnew [.wake c.callId iCode] rfl rfl rfl rfl h.hold (fun _ _ => rfl) id
      (fun j _ => ?_) ?_ (fun _ => Or.inr ⟨iCode, List.mem_singleton_self _⟩) (by simp)
      (fun j hj => Or.inl hj) (fun p => ?_) ?_
    · simp [places, State.spawn, State.given, Task.waiting]
    · have hfresh := h.fresh c.callId hnew
      simp only [places, State.spawn, State.given, tally_cons, Task.waiting,
        List.count_nil] at hfresh ⊢
      omega
    · have hsends := h.sends p
      simpa only [sends, State.spawn, State.given, tally_cons, Task.claim, List.count_nil,
        Nat.zero_add] using hsends
    · intro j iCode' ht
      obtain ⟨-, rfl⟩ := Task.wake.inj (List.mem_singleton.1 ht)
      exact hcode
  | missed s c hbound hnew hslot =>
    refine h.given hbound hnew [] rfl rfl rfl rfl h.hold (fun _ _ => rfl) id (fun _ _ => rfl)
      (h.once c.callId) (fun hs => absurd hslot hs) (by simp) (fun j hj => Or.inl hj) h.sends
      (by simp)
  | claimed s c hbound hnew hslot => exact calls_claimed h hbound hnew hslot
  | held s c stSlot hbound hnew hslot => exact calls_held h hbound hnew hslot
  | takeSlot s i => exact h.takeSlot i
  | sessions s | disconnected s sid | poll s =>
    exact h.idle [] [] rfl rfl rfl rfl rfl rfl rfl rfl rfl (by simp) (by simp) (by simp) (by simp)
  | finish s sid => exact calls_finish h sid
  | sent s c sid =>
    refine h.work [.submit c sid] [] rfl rfl rfl rfl rfl rfl rfl rfl (fun i => Or.inl ?_)
      (fun p => ?_) (by simp) (by simp) (by simp)
    · simp [places, State.spawn, Task.waiting]
    · simp only [sends, State.spawn, tally_cons, Task.claim, List.count_append]
      omega
  | sendFailed s c sid iCode hcode =>
    refine h.work [.submit c sid] [.wake c.callId iCode] rfl rfl rfl rfl rfl rfl rfl rfl
      (fun i => Or.inl ?_) (fun p => ?_) (by simp) (by simp) ?_
    · simp [places, State.spawn, Task.waiting]
    · simp only [sends, State.spawn, tally_cons, Task.claim, List.count_nil]
      omega
    · intro j iCode' ht
      obtain ⟨-, rfl⟩ := Task.wake.inj (List.mem_singleton.1 ht)
      exact hcode
  | ensured =>
    exact h.idle [.ensure] [] rfl rfl rfl rfl rfl rfl rfl rfl rfl
      (by simp [Task.waiting, Task.claim]) (by simp) (by simp) (by simp)
  | posted s =>
    exact h.idle [.ensure] [.callOnLoop] rfl rfl rfl rfl rfl rfl rfl rfl rfl
      (by simp [Task.waiting, Task.claim]) (by simp) (by simp) (by simp)
  | called s =>
    exact h.idle [.callOnLoop] [] rfl rfl rfl rfl rfl rfl rfl rfl rfl
      (by simp [Task.waiting, Task.claim]) (by simp) (by simp) (by simp)
  | wake s i iCode =>
    refine Calls.wakeRpcCall [.wake i iCode] [] s.tasks h rfl (by simp) ?_ (fun j => Or.inl ?_)
      (fun p => ?_) (h.codes i iCode List.mem_cons_self)
    · intro j
      refine ⟨by simp, fun iCode' ht => ?_⟩
      exact (Task.wake.inj (List.mem_singleton.1 ht)).1
    · simp [places, Task.waiting]
    · simp [sends, Task.claim]
  | finished _ i =>
    exact h.idle [.finishSlot i false] [] rfl rfl rfl rfl rfl rfl rfl rfl rfl
      (by simp [Task.waiting, Task.claim]) (by simp) (by simp) (by simp)
  | dropped s i hold hdrop => exact calls_dropped h hdrop
  | flushDone _ sid =>
    exact h.idle [.flush sid []] [] rfl rfl rfl rfl rfl rfl rfl rfl rfl
      (by simp [Task.waiting, Task.claim]) (by simp) (by simp) (by simp)
  | flushWoken s sid c v =>
    refine Calls.wakeRpcCall [.flush sid (c :: v)] [.flush sid v] s.tasks h rfl (by simp)
      (by simp) (fun j => ?_) (fun p => ?_) (by decide)
    · by_cases hj : j = c.callId
      · exact Or.inr ⟨hj, by simp [places, State.spawn, Task.waiting, hj]⟩
      · exact Or.inl (places_flush_ne s sid v hj)
    · simp [sends, State.spawn, Task.claim]
  | flushMissed s sid c v hslot =>
    refine h.work [.flush sid (c :: v)] [.flush sid v] rfl rfl rfl rfl rfl rfl rfl rfl (fun i => ?_)
      (fun p => ?_) (by simp) (by simp) (by simp)
    · by_cases hi : i = c.callId
      · exact Or.inr ⟨hi ▸ hslot, by simp [places, State.spawn, Task.waiting, hi]⟩
      · exact Or.inl (places_flush_ne s sid v hi)
    · simp [sends, State.spawn, Task.claim]
  | flushClaimed s sid c v hslot => exact calls_flushClaimed h hslot
  | flushSent s sid c v =>
    refine h.work [.flushSend sid c v] [.flush sid v] rfl rfl rfl rfl rfl rfl rfl rfl
      (fun i => Or.inl ?_) (fun p => ?_) (by simp) (by simp) (by simp)
    · simp [places, State.spawn, Task.waiting]
    · simp only [sends, State.spawn, tally_cons, Task.claim, List.count_append, List.count_nil]
      omega
  | flushFailed s sid iCode c v hcode =>
    refine h.work [.flushSend sid c v] [.flush sid v, .wake c.callId iCode] rfl rfl rfl rfl rfl rfl
      rfl rfl (fun i => Or.inl ?_) (fun p => ?_) (by simp) (by simp) ?_
    · simp [places, State.spawn, Task.waiting]
    · simp only [sends, State.spawn, tally_cons, Task.claim, List.count_nil]
      omega
    · intro j iCode' ht
      rcases List.mem_cons.1 ht with heq | ht
      · cases heq
      · obtain ⟨-, rfl⟩ := Task.wake.inj (List.mem_singleton.1 ht)
        exact hcode

end OpenIdea.Rpc.RouteConnection
