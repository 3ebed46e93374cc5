import OpenIdea.Rpc.RouteSteps

/-!
# Who connects for the calls that are held

A call that `Submit` has put into `vHeld` waits for a session. `Waits` says that somebody sees to
it: the thread that held it is about to call `Ensure`, a `Begin` has been posted, an attempt to
connect is under way, or `Retire` is about to fail what is held. Every step keeps `Waits`
(`waits_moves`).
-/

set_option autoImplicit false

namespace OpenIdea.Rpc.RouteConnection

open OpenIdea.Lib OpenIdea.Lib.Runs

/-- Nothing is held, or a connect has been asked for. -/
def Link.asked (l : Link) : Prop :=
  l.bPosted = true ∨ l.bConnecting = true ∨ l.retiring = true

/-- **Held calls do not wait in vain.** -/
structure Waits (s : State) : Prop where
  link : s.link.Wf (s.tasks.count .callOnLoop)
  session : s.link.iSessionId ≠ invalidSid → s.hold.calls = []
  retired : s.link.bRetired = true → s.link.retiring = false → s.hold.calls = []
  waits : s.hold.calls = [] ∨ s.link.asked ∨ Task.ensure ∈ s.tasks

theorem waits_init : Waits init where
  link := Link.wf_init
  session := fun _ => rfl
  retired := fun _ _ => rfl
  waits := Or.inl rfl

namespace Waits

variable {s s' : State}

theorem perm (h : Waits s) {tasks : List Task} (hperm : tasks.Perm s.tasks) :
    Waits { s with tasks := tasks } where
  link := hperm.count_eq _ ▸ h.link
  session := h.session
  retired := h.retired
  waits := h.waits.imp_right (Or.imp_right fun ht => hperm.symm.subset ht)

/-- A step that leaves the connection alone, and holds no further call. -/
theorem calls (h : Waits s) (rem add : List Task) {rest : List Task}
    (htasks : s.tasks = rem ++ rest) (htasks' : s'.tasks = add ++ rest)
    (hidle : ∀ t ∈ rem ++ add, t ≠ .ensure ∧ t ≠ .callOnLoop) (hlink : s'.link = s.link)
    (hhold : s.hold.calls = [] → s'.hold.calls = []) : Waits s' where
  link := by
    have hzero : ∀ l : List Task, (∀ t ∈ l, t ∈ rem ++ add) → l.count .callOnLoop = 0 :=
      fun l hl => List.count_eq_zero_of_not_mem fun hmem => (hidle _ (hl _ hmem)).2 rfl
    have hcount : s'.tasks.count .callOnLoop = s.tasks.count .callOnLoop := by
      rw [htasks, htasks', List.count_append, List.count_append,
        hzero rem fun t ht => List.mem_append_left _ ht,
        hzero add fun t ht => List.mem_append_right _ ht]
    rw [hlink, hcount]
    exact h.link
  session := by
    rw [hlink]
    exact fun hs => hhold (h.session hs)
  retired := by
    rw [hlink]
    exact fun hr hb => hhold (h.retired hr hb)
  waits := by
    rw [hlink]
    refine h.waits.imp hhold (Or.imp_right fun ht => ?_)
    rw [htasks] at ht
    rw [htasks']
    refine List.mem_append_right _ ((List.mem_append.1 ht).resolve_left fun hrem => ?_)
    exact (hidle _ (List.mem_append_left _ hrem)).1 rfl

theorem takeSlot (h : Waits s) (i : ℕ) : Waits (s.takeSlot i) := by
  rw [State.takeSlot]
  cases s.calls i with
  | none => exact h
  | some stSlot => exact h.calls [] [.finishSlot i stSlot.bAwaitingConnect] rfl rfl (by simp) rfl id

theorem wakeRpcCall (h : Waits s) (i : ℕ) (iCode : ℤ) : Waits (s.wakeRpcCall i iCode) := by
  rw [State.wakeRpcCall]
  split
  · exact h
  · exact (h.takeSlot i).calls [] [] rfl rfl (by simp) rfl id

/-- A step of the connection alone. -/
theorem linked (h : Waits s) {l : Link} (hlink : l.Wf (s.tasks.count .callOnLoop))
    (hsession : l.iSessionId = s.link.iSessionId ∨ l.iSessionId = invalidSid)
    (hretired : l.bRetired = true → l.retiring = false →
      s.link.bRetired = true ∧ s.link.retiring = false)
    (hasked : s.link.asked → l.asked ∨ s.hold.calls = []) : Waits { s with link := l } where
  link := hlink
  session := by
    intro hs
    rcases hsession with heq | heq
    · exact h.session (heq ▸ hs)
    · exact absurd heq hs
  retired := fun hr hb => h.retired (hretired hr hb).1 (hretired hr hb).2
  waits := by
    rcases h.waits with hnil | hw | ht
    · exact Or.inl hnil
    · rcases hasked hw with hw' | hnil
      · exact Or.inr (Or.inl hw')
      · exact Or.inl hnil
    · exact Or.inr (Or.inr ht)

theorem poll (h : Waits s) {l : Link} (hmoves : s.link.Moves l) : Waits { s with link := l } := by
  have hlink := h.link.moves hmoves
  rcases hmoves.frame with ⟨hpoll, rfl⟩ | ⟨hposted, hconnecting, hsession, hretired, hretiring⟩
  · have hbusy : s.link.retiring = false := by
      rw [Link.retiring, hpoll]
      rfl
    have hbegin : s.link.begin.iSessionId = s.link.iSessionId ∧
        s.link.begin.bRetired = s.link.bRetired := by
      rw [Link.begin]
      split <;> exact ⟨rfl, rfl⟩
    refine h.linked hlink (Or.inl hbegin.1) (fun hr _ => ⟨hbegin.2 ▸ hr, hbusy⟩) fun _ => ?_
    -- either an attempt is under way now, or nobody waits for one
    rw [Link.begin]
    split
    · rename_i hnot
      simp only [Bool.or_eq_true, decide_eq_true_eq] at hnot
      rcases hnot with (hr | hc) | hs
      · exact Or.inr (h.retired hr hbusy)
      · exact Or.inl (Or.inr (Or.inl hc))
      · exact Or.inr (h.session hs)
    · exact Or.inl (Or.inr (Or.inl rfl))
  · refine h.linked hlink hsession (fun hr hb => ?_) fun hw => Or.inl ?_
    · have hnot : l.retiring ≠ true := by simp [hb]
      refine ⟨hretired.resolve_right hnot ▸ hr, ?_⟩
      simpa using fun hb' => hnot (hretiring hb')
    · exact hw.imp (fun hp => hposted ▸ hp) (Or.imp (fun hc => hconnecting ▸ hc) hretiring)

end Waits

theorem drop_calls {h h' : HoldList} {i : ℕ} (hdrop : h.drop i = some h') (hnil : h.calls = []) :
    h'.calls = [] := by
  rw [HoldList.drop] at hdrop
  split at hdrop
  · rw [← Option.some.inj hdrop]
    exact hnil
  · rw [hnil] at hdrop
    cases hdrop

variable {cfg : Config} {s s' : State}

theorem waits_moves {e : Event} (h : Waits s) (hmoves : Moves cfg e s s') : Waits s' := by
  cases hmoves with
  | bind => exact h.calls [] [] rfl rfl (by simp) rfl id
  | refused s c => exact h.calls [] [.wake _ _] rfl rfl (by simp) rfl id
  | missed => exact h.calls [] [] rfl rfl (by simp) rfl id
  | claimed s c => exact h.calls [] [.submit c _] rfl rfl (by simp) rfl id
  | held s c stSlot _ _ _ hactive hnone =>
    refine ⟨?_, fun hs => absurd hnone hs, fun hr => ?_, Or.inr (Or.inr List.mem_cons_self)⟩
    · show s.link.Wf ((Task.ensure :: s.tasks).count .callOnLoop)
      rw [List.count_cons_of_ne (by simp)]
      exact h.link
    · exact absurd (hr.symm.trans hactive) (by decide)
  | takeSlot s i => exact h.takeSlot i
  | sessions => exact h.calls [] [] rfl rfl (by simp) rfl id
  | disconnected s sid =>
    have hsame : (s.link.disconnected sid).iSessionId = s.link.iSessionId ∨
        (s.link.disconnected sid).iSessionId = invalidSid := by
      rw [Link.disconnected]
      split
      · exact Or.inr rfl
      · exact Or.inl rfl
    refine h.linked (h.link.disconnected sid) hsame ?_ ?_
    · rw [Link.disconnected]
      split <;> exact fun hr hb => ⟨hr, hb⟩
    · rw [Link.disconnected]
      split <;> exact fun hw => Or.inl hw
  | poll s stStep l inMap iNewId sessions n hpoll =>
    exact (h.poll (Link.pollStep_moves hpoll)).calls [] [] rfl rfl (by simp) rfl id
  | finish s sid hfinishing =>
    refine ⟨?_, fun _ => rfl, fun _ _ => rfl, Or.inl rfl⟩
    show (s.link.finish sid).Wf ((Task.flush sid s.hold.held :: s.tasks).count .callOnLoop)
    rw [List.count_cons_of_ne (by simp)]
    exact h.link.finish hfinishing
  | sent s c sid => exact h.calls [.submit c sid] [] rfl rfl (by simp) rfl id
  | sendFailed s c sid => exact h.calls [.submit c sid] [.wake _ _] rfl rfl (by simp) rfl id
  | ensured _ hbusy =>
    have hcount : (s'.spawn .ensure).tasks.count .callOnLoop = s'.tasks.count .callOnLoop :=
      List.count_cons_of_ne (by simp)
    refine ⟨hcount ▸ h.link, h.session, h.retired, ?_⟩
    -- `Ensure` returns early only where somebody connects or nobody can wait
    rcases hbusy with hr | hc | hp | hs
    · cases hretiring : s'.link.retiring with
      | true => exact Or.inr (Or.inl (Or.inr (Or.inr hretiring)))
      | false => exact Or.inl (h.retired hr hretiring)
    · exact Or.inr (Or.inl (Or.inr (Or.inl hc)))
    · exact Or.inr (Or.inl (Or.inl hp))
    · exact Or.inl (h.session hs)
  | posted s hnot =>
    have hposted := h.link.posted
    have hcount : (s.spawn .ensure).tasks.count .callOnLoop = s.tasks.count .callOnLoop :=
      List.count_cons_of_ne (by simp)
    have hlink := h.link
    refine ⟨⟨hlink.once, hlink.connecting, hlink.working, ?_, hlink.retire, hlink.quiet,
      hlink.cancelled, hlink.done⟩, h.session, h.retired, Or.inr (Or.inl (Or.inl rfl))⟩
    show 1 = (Task.callOnLoop :: s.tasks).count .callOnLoop + s.link.begins
    rw [hcount, show (s.spawn .ensure).link.bPosted = false from hnot] at hposted
    rw [List.count_cons_self]
    have hbegins : (s.spawn .ensure).link.begins = s.link.begins := rfl
    simp only [Bool.toNat_false] at hposted
    omega
  | called s =>
    have hposted := h.link.posted
    have hlink := h.link
    refine ⟨⟨hlink.once, hlink.connecting, hlink.working, ?_, hlink.retire, hlink.quiet,
      hlink.cancelled, hlink.done⟩, h.session, h.retired, ?_⟩
    · show s.link.bPosted.toNat = s.tasks.count .callOnLoop + (s.link.begins + 1)
      have hcount : (s.spawn .callOnLoop).tasks.count .callOnLoop =
          s.tasks.count .callOnLoop + 1 := List.count_cons_self
      have hsame : (s.spawn .callOnLoop).link = s.link := rfl
      rw [hcount, hsame] at hposted
      omega
    · refine h.waits.imp_right (Or.imp_right fun ht => ?_)
      exact (List.mem_cons.1 ht).resolve_left (fun h => by cases h)
  | wake s i iCode =>
    have hrest : Waits s := h.calls [.wake i iCode] [] rfl rfl (by simp) rfl id
    exact hrest.wakeRpcCall i iCode
  | finished s i => exact h.calls [.finishSlot i false] [] rfl rfl (by simp) rfl id
  | dropped s i hold hdrop =>
    exact h.calls [.finishSlot i true] [] rfl rfl (by simp) rfl (drop_calls hdrop)
  | flushDone s sid => exact h.calls [.flush sid []] [] rfl rfl (by simp) rfl id
  | flushWoken s sid c v =>
    have hrest : Waits (s.spawn (.flush sid v)) :=
      h.calls [.flush sid (c :: v)] [.flush sid v] rfl rfl (by simp) rfl id
    exact hrest.wakeRpcCall c.callId oiErrConnect
  | flushMissed s sid c v =>
    exact h.calls [.flush sid (c :: v)] [.flush sid v] rfl rfl (by simp) rfl id
  | flushClaimed s sid c v =>
    exact h.calls [.flush sid (c :: v)] [.flushSend sid c v] rfl rfl (by simp) rfl id
  | flushSent s sid c v =>
    exact h.calls [.flushSend sid c v] [.flush sid v] rfl rfl (by simp) rfl id
  | flushFailed s sid iCode c v =>
    exact h.calls [.flushSend sid c v] [.flush sid v, .wake c.callId iCode] rfl rfl (by simp) rfl id

end OpenIdea.Rpc.RouteConnection
