import OpenIdea.Rpc.RouteCalls

/-!
# Runs of a routed connection

What every run of a routed connection keeps (`Routed`): the held calls and their limits, who
connects for them, how many attempts to connect there are, and what becomes of a call. A connection
that has been retired stays so (`Over`). The main result is `routed`; `unasked_while_retiring` is
what can happen between the lock of `Retire` and its `Finish`.
-/

set_option autoImplicit false

namespace OpenIdea.Rpc.RouteConnection

open OpenIdea.Lib OpenIdea.Lib.Runs OpenIdea.Lib.Tally

/-! ## The limits of the policy -/

/-- A drop takes a call and its bytes away, or nothing. -/
theorem drop_le {h h' : HoldList} (hwf : h.Wf) {i : ℕ} (hdrop : h.drop i = some h') :
    h'.calls.length ≤ h.calls.length ∧ h'.bytes ≤ h.bytes := by
  by_cases hid : i ∈ h.ids
  · obtain ⟨n, hn, rfl⟩ := List.mem_map.1 hid
    obtain rfl := Option.some.inj (hdrop.symm.trans (hwf.drop_mem hn))
    exact ⟨List.length_filter_le _ _, Nat.sub_le _ _⟩
  · obtain rfl := Option.some.inj (hdrop.symm.trans (hwf.drop_not_mem hid))
    exact ⟨Nat.le_refl _, Nat.le_refl _⟩

/-- The hold of a state within the policy. -/
def Within (cfg : Config) (s : State) : Prop :=
  s.hold.calls.length ≤ cfg.iHeldCount ∧ s.hold.bytes ≤ cfg.iHeldBytes

/-- A slot that is taken out leaves all but the table and the tasks alone. -/
theorem takeSlot_fields (s : State) (i : ℕ) :
    ∃ calls tasks, s.takeSlot i = { s with calls := calls, tasks := tasks } := by
  rw [State.takeSlot]
  split
  · exact ⟨s.calls, s.tasks, rfl⟩
  · exact ⟨_, _, rfl⟩

theorem wakeRpcCall_fields (s : State) (i : ℕ) (iCode : ℤ) :
    ∃ calls tasks woken,
      s.wakeRpcCall i iCode = { s with calls := calls, tasks := tasks, woken := woken } := by
  rw [State.wakeRpcCall]
  split
  · exact ⟨s.calls, s.tasks, s.woken, rfl⟩
  · obtain ⟨calls, tasks, heq⟩ := takeSlot_fields s i
    rw [heq]
    exact ⟨calls, tasks, _, rfl⟩

theorem hold_takeSlot (s : State) (i : ℕ) : (s.takeSlot i).hold = s.hold := by
  obtain ⟨calls, tasks, heq⟩ := takeSlot_fields s i
  rw [heq]

theorem hold_wakeRpcCall (s : State) (i : ℕ) (iCode : ℤ) : (s.wakeRpcCall i iCode).hold = s.hold := by
  obtain ⟨calls, tasks, woken, heq⟩ := wakeRpcCall_fields s i iCode
  rw [heq]

variable {cfg : Config} {e : Event} {s s' : State}

/-- What a step does to the hold. -/
theorem hold_moves (hmoves : Moves cfg e s s') :
    s'.hold = s.hold ∨ s'.hold = s.hold.swapped ∨ (∃ i, s.hold.drop i = some s'.hold) ∨
      ∃ c, s'.hold = s.hold.push c ∧ s.link.bRetired = false ∧
        s.hold.full cfg.iHeldCount cfg.iHeldBytes c.size = false := by
  cases hmoves with
  | held s c stSlot _ _ _ hactive _ hroom => exact Or.inr (Or.inr (Or.inr ⟨c, rfl, hactive, hroom⟩))
  | finish => exact Or.inr (Or.inl rfl)
  | dropped s i hold hdrop => exact Or.inr (Or.inr (Or.inl ⟨i, hdrop⟩))
  | takeSlot s i => exact Or.inl (hold_takeSlot s i)
  | wake s i iCode => exact Or.inl (hold_wakeRpcCall s i iCode)
  | flushWoken s sid c v => exact Or.inl (hold_wakeRpcCall _ _ _)
  | _ => exact Or.inl rfl

theorem within_moves (h : Within cfg s) (hwf : s.hold.Wf) (hmoves : Moves cfg e s s') :
    Within cfg s' := by
  rw [Within]
  rcases hold_moves hmoves with heq | heq | ⟨i, hdrop⟩ | ⟨c, heq, -, hroom⟩
  · rw [heq]
    exact h
  · rw [heq]
    exact ⟨Nat.zero_le _, Nat.zero_le _⟩
  · obtain ⟨hlength, hbytes⟩ := drop_le hwf hdrop
    exact ⟨hlength.trans h.1, hbytes.trans h.2⟩
  · rw [heq]
    exact HoldList.within_push hroom

/-! ## All of it -/

/-- The invariants of a run. -/
structure Kept (cfg : Config) (s : State) : Prop where
  waits : Waits s
  calls : Calls s
  within : Within cfg s

theorem kept_init (cfg : Config) : Kept cfg init :=
  ⟨waits_init, calls_init, Nat.zero_le _, Nat.zero_le _⟩

theorem kept_step (h : Kept cfg s) (hstep : step cfg s e = some s') : Kept cfg s' := by
  obtain ⟨tasks, hperm, hmoves⟩ := step_moves hstep
  have hwithin : Within cfg { s with tasks := tasks } := h.within
  exact ⟨waits_moves (h.waits.perm hperm) hmoves, calls_moves (h.calls.perm hperm) hmoves,
    within_moves hwithin h.calls.hold hmoves⟩

theorem kept_run {run : List Event} (h : Kept cfg s) (hrun : runFrom (step cfg) s run = some s') :
    Kept cfg s' :=
  runFrom_invariant (fun _ _ _ h hstep => kept_step h hstep) h hrun

/-! ## A retired connection -/

/-- `Retire` has returned. -/
structure Over (s : State) : Prop where
  retired : s.link.bRetired = true
  held : s.hold.calls = []
  session : s.link.iSessionId = invalidSid
  quiet : ∀ t ∈ s.link.poll, t.quiet = true

theorem over_of_retired (h : Waits s) (hr : s.link.bRetired = true) (hb : s.link.retiring = false) :
    Over s :=
  ⟨hr, h.retired hr hb, (h.link.done hr hb).1, h.link.quiet hr⟩

/-- What a step does to a retired link. -/
theorem link_moves (hmoves : Moves cfg e s s') :
    (s'.link.iSessionId = s.link.iSessionId ∧ s'.link.bRetired = s.link.bRetired ∧
        s'.link.poll = s.link.poll) ∨
      (∃ sid, s'.link = s.link.disconnected sid) ∨ s.link.Moves s'.link ∨
      ∃ sid, s.link.finishing = some sid ∧ s'.link = s.link.finish sid := by
  have htake : ∀ (u : State) (i : ℕ), (u.takeSlot i).link = u.link := by
    intro u i
    obtain ⟨calls, tasks, heq⟩ := takeSlot_fields u i
    rw [heq]
  have hwake : ∀ (u : State) (i : ℕ) (iCode : ℤ), (u.wakeRpcCall i iCode).link = u.link := by
    intro u i iCode
    obtain ⟨calls, tasks, woken, heq⟩ := wakeRpcCall_fields u i iCode
    rw [heq]
  cases hmoves with
  | disconnected s sid => exact Or.inr (Or.inl ⟨sid, rfl⟩)
  | poll s stStep l inMap iNewId sessions n hpoll =>
    exact Or.inr (Or.inr (Or.inl (Link.pollStep_moves hpoll)))
  | finish s sid hfinishing => exact Or.inr (Or.inr (Or.inr ⟨sid, hfinishing, rfl⟩))
  | takeSlot s i => exact Or.inl (by rw [htake]; exact ⟨rfl, rfl, rfl⟩)
  | wake s i iCode => exact Or.inl (by rw [hwake]; exact ⟨rfl, rfl, rfl⟩)
  | flushWoken s sid c v => exact Or.inl (by rw [hwake]; exact ⟨rfl, rfl, rfl⟩)
  | _ => exact Or.inl ⟨rfl, rfl, rfl⟩

theorem over_moves (h : Over s) (hwaits' : Waits s') (hmoves : Moves cfg e s s') : Over s' := by
  have hheld : s'.hold.calls = [] := by
    rcases hold_moves hmoves with heq | heq | ⟨i, hdrop⟩ | ⟨c, -, hactive, -⟩
    · rw [heq]
      exact h.held
    · rw [heq]
      rfl
    · exact drop_calls hdrop h.held
    · rw [h.retired] at hactive
      cases hactive
  have hlink : s'.link.bRetired = true ∧ s'.link.iSessionId = invalidSid := by
    rcases link_moves hmoves with ⟨hs, hr, -⟩ | ⟨sid, heq⟩ | hpoll | ⟨sid, hfinishing, heq⟩
    · exact ⟨hr.trans h.retired, hs.trans h.session⟩
    · rw [heq, Link.disconnected]
      split
      · exact ⟨h.retired, rfl⟩
      · exact ⟨h.retired, h.session⟩
    · rcases hpoll.frame with ⟨-, heq⟩ | ⟨-, -, hs, hr, -⟩
      · rw [heq, Link.begin]
        split <;> exact ⟨h.retired, h.session⟩
      · refine ⟨?_, ?_⟩
        · rcases hr with hr | hr
          · exact hr.trans h.retired
          · exact hwaits'.link.retire hr
        · rcases hs with hs | hs
          · exact hs.trans h.session
          · exact hs
    · rw [heq]
      refine ⟨h.retired, ?_⟩
      show sid = invalidSid
      rw [Link.finishing] at hfinishing
      split at hfinishing
      · rename_i hpoll
        obtain rfl := Option.some.inj hfinishing
        simpa [PollTask.quiet] using h.quiet _ hpoll
      · exact (Option.some.inj hfinishing).symm
      · cases hfinishing
  exact ⟨hlink.1, hheld, hlink.2, hwaits'.link.quiet hlink.1⟩

theorem over_run {run : List Event} (hkept : Kept cfg s) (h : Over s)
    (hrun : runFrom (step cfg) s run = some s') : Over s' := by
  refine (runFrom_invariant (I := fun s => Kept cfg s ∧ Over s) ?_ ⟨hkept, h⟩ hrun).2
  intro s e s' hI hstep
  have hkept' := kept_step hI.1 hstep
  obtain ⟨tasks, hperm, hmoves⟩ := step_moves hstep
  have hover : Over { s with tasks := tasks } :=
    ⟨hI.2.retired, hI.2.held, hI.2.session, hI.2.quiet⟩
  exact ⟨hkept', over_moves hover hkept'.waits hmoves⟩

/-! ## What becomes of a call -/

/-- A call is claimed only while its slot is in the call table. -/
def ClaimsLive (cfg : Config) (run : List Event) : Prop :=
  ∀ es e es' t t' p, run = es ++ e :: es' → runFrom (step cfg) init es = some t →
    step cfg t e = some t' → p ∈ t'.claimed → p ∉ t.claimed → t.calls p.1 ≠ none

/-- A session accepts the bytes of a call only after the call has been claimed for it. -/
def HandsClaimed (cfg : Config) (run : List Event) : Prop :=
  ∀ es e es' t t' p, run = es ++ e :: es' → runFrom (step cfg) init es = some t →
    step cfg t e = some t' → p ∈ t'.handed → p ∈ t.claimed

/-- A session accepts the bytes of a call only while its slot is in the call table. -/
def HandsLive (cfg : Config) (run : List Event) : Prop :=
  ∀ es e es' t t' p, run = es ++ e :: es' → runFrom (step cfg) init es = some t →
    step cfg t e = some t' → p ∈ t'.handed → p ∉ t.handed → t.calls p.1 ≠ none

/-- What a step does to the calls that are claimed and sent. -/
theorem claims_moves (hmoves : Moves cfg e s s') :
    (s'.claimed = s.claimed ∨ ∃ p, s'.claimed = p :: s.claimed ∧ s.calls p.1 ≠ none) ∧
      (s'.handed = s.handed ∨ ∃ t ∈ s.tasks, ∃ p ∈ t.claim, s'.handed = s.handed ++ [p]) := by
  have htake : ∀ (u : State) (i : ℕ), (u.takeSlot i).claimed = u.claimed ∧
      (u.takeSlot i).handed = u.handed := by
    intro u i
    obtain ⟨calls, tasks, heq⟩ := takeSlot_fields u i
    rw [heq]
    exact ⟨rfl, rfl⟩
  have hwake : ∀ (u : State) (i : ℕ) (iCode : ℤ), (u.wakeRpcCall i iCode).claimed = u.claimed ∧
      (u.wakeRpcCall i iCode).handed = u.handed := by
    intro u i iCode
    obtain ⟨calls, tasks, woken, heq⟩ := wakeRpcCall_fields u i iCode
    rw [heq]
    exact ⟨rfl, rfl⟩
  cases hmoves with
  | claimed s c _ _ hslot => exact ⟨Or.inr ⟨(c.callId, _), rfl, hslot⟩, Or.inl rfl⟩
  | flushClaimed s sid c v hslot => exact ⟨Or.inr ⟨(c.callId, sid), rfl, hslot⟩, Or.inl rfl⟩
  | sent s c sid sessions =>
    exact ⟨Or.inl rfl, Or.inr ⟨.submit c sid, List.mem_cons_self, (c.callId, sid),
      List.mem_singleton_self _, rfl⟩⟩
  | flushSent s sid c v sessions =>
    exact ⟨Or.inl rfl, Or.inr ⟨.flushSend sid c v, List.mem_cons_self, (c.callId, sid),
      List.mem_singleton_self _, rfl⟩⟩
  | takeSlot s i => exact ⟨Or.inl (htake s i).1, Or.inl (htake s i).2⟩
  | wake s i iCode => exact ⟨Or.inl (hwake s i iCode).1, Or.inl (hwake s i iCode).2⟩
  | flushWoken s sid c v => exact ⟨Or.inl (hwake _ _ _).1, Or.inl (hwake _ _ _).2⟩
  | _ => exact ⟨Or.inl rfl, Or.inl rfl⟩

variable {p : ℕ × ℤ}

theorem claimsLive_step (hstep : step cfg s e = some s') (hp : p ∈ s'.claimed)
    (hnot : p ∉ s.claimed) : s.calls p.1 ≠ none := by
  obtain ⟨tasks, -, hmoves⟩ := step_moves hstep
  rcases (claims_moves hmoves).1 with heq | ⟨q, heq, hslot⟩
  · exact absurd (heq ▸ hp) hnot
  · rw [heq] at hp
    rw [(List.mem_cons.1 hp).resolve_right hnot]
    exact hslot

/-- A call that a task is about to send, or that has been sent, has been claimed. -/
theorem claimed_of_sends (h : Calls s) (hp : 0 < sends s p) : p ∈ s.claimed :=
  List.count_pos_iff.1 (hp.trans_le (h.sends p))

theorem handsClaimed_step (h : Calls s) (hstep : step cfg s e = some s') (hp : p ∈ s'.handed) :
    p ∈ s.claimed := by
  have hold : p ∈ s.handed → p ∈ s.claimed := by
    intro hmem
    have hpos := List.count_pos_iff.2 hmem
    exact claimed_of_sends h (by simp only [sends]; omega)
  obtain ⟨tasks, hperm, hmoves⟩ := step_moves hstep
  rcases (claims_moves hmoves).2 with heq | ⟨t, ht, q, hq, heq⟩
  · exact hold (heq ▸ hp)
  · rw [heq] at hp
    rcases List.mem_append.1 hp with hp | hp
    · exact hold hp
    · rw [List.mem_singleton.1 hp]
      have hpos := List.count_pos_iff.2 hq
      obtain ⟨l₁, l₂, hl⟩ := List.append_of_mem (hperm.subset ht)
      refine claimed_of_sends h ?_
      simp only [sends, hl, tally_append, tally_cons]
      omega

/-- The calls that were sent are among those that were claimed, each as often at most. -/
theorem handed_nodup (h : Calls s) (hnodup : (s.claimed.map Prod.fst).Nodup) :
    (s.handed.map Prod.fst).Nodup := by
  have hsub : s.handed.Subperm s.claimed := by
    rw [List.subperm_ext_iff]
    intro p _
    have hle := h.sends p
    simp only [sends] at hle
    omega
  rw [List.nodup_iff_count_le_one] at hnodup ⊢
  intro i
  have hle := hnodup i
  rw [List.count, List.countP_map] at hle ⊢
  exact (hsub.countP_le _).trans hle

theorem places_cases {i : ℕ} (hpos : 0 < places s i) :
    i ∈ s.hold.ids ∨ (∃ t ∈ s.tasks, i ∈ t.waiting) ∨ ∃ sid, (i, sid) ∈ s.claimed := by
  by_contra hnone
  rw [not_or, not_or] at hnone
  obtain ⟨hheld, htask, hclaimed⟩ := hnone
  have htasks : tally (fun t => t.waiting.count i) s.tasks = 0 :=
    tally_eq_zero fun j t ht =>
      List.count_eq_zero_of_not_mem fun hmem => htask ⟨t, List.mem_of_getElem? ht, hmem⟩
  have hcount : (s.claimed.map Prod.fst).count i = 0 := by
    refine List.count_eq_zero_of_not_mem fun hmem => ?_
    obtain ⟨⟨j, sid⟩, hp, rfl⟩ := List.mem_map.1 hmem
    exact hclaimed ⟨sid, hp⟩
  rw [places, List.count_eq_zero_of_not_mem hheld, htasks, hcount] at hpos
  cases hpos

/-! ## The runs -/

/-- A run, and the state that it reaches. -/
structure Routed (cfg : Config) (run : List Event) (s : State) : Prop where
  /-- `vHeld` and `mHeld` describe the same calls, and `iHeldBytes` is the sum of their sizes. -/
  hold : s.hold.Wf
  drop : (∀ i, s.hold.drop i ≠ none) ∧ ∀ n ∈ s.hold.calls, n.val.size ≤ s.hold.bytes
  within : s.hold.calls.length ≤ cfg.iHeldCount ∧ s.hold.bytes ≤ cfg.iHeldBytes
  /-- Somebody connects for the calls that are held, or `Retire` is about to fail them. -/
  waits : s.hold.calls ≠ [] → Task.ensure ∉ s.tasks →
    s.link.bPosted = true ∨ s.link.bConnecting = true ∨ s.link.retiring = true
  /-- `bPosted` says that one `Begin` is on its way to the poll thread. -/
  posted : s.link.bPosted.toNat = s.tasks.count .callOnLoop + s.link.begins
  /-- There is one attempt to connect at most, and `bConnecting` says that there is one, unless
  `Retire` has ended it. -/
  dials : s.link.attempts ≤ 1
  connecting : s.link.bConnecting = true → s.link.attempts = 1 ∨ s.link.retiring = true
  /-- A call is claimed once, while its slot is there, and sent once, after that. -/
  claimedOnce : (s.claimed.map Prod.fst).Nodup
  claimsLive : ClaimsLive cfg run
  handedOnce : (s.handed.map Prod.fst).Nodup
  handsClaimed : HandsClaimed cfg run
  /-- A call is woken once, with an error. -/
  wokenOnce : (s.woken.map Prod.fst).Nodup
  wokenCodes : ∀ p ∈ s.woken, p.2 ≠ oiOk
  /-- A submitted call whose slot is there is held, waits in a `Finish`, is about to be woken, or
  has been claimed. -/
  accounted : ∀ i ∈ s.submitted, s.calls i ≠ none →
    i ∈ s.hold.ids ∨ (∃ t ∈ s.tasks, i ∈ t.waiting) ∨
      (∃ iCode, Task.wake i iCode ∈ s.tasks) ∨ ∃ sid, (i, sid) ∈ s.claimed
  /-- After `Retire` no call is held, and no session is adopted. -/
  retired : ∀ es es' t, run = es ++ es' → runFrom (step cfg) init es = some t →
    t.link.bRetired = true → t.link.retiring = false →
      s.hold.calls = [] ∧ s.link.iSessionId = invalidSid ∧ s.link.poll ≠ some .adopt

/-- **A routed connection strands no call and dials once.** In every run the held calls are
consistent and within the policy, somebody connects for them, there is one attempt to connect at
most, a call is claimed for one session or woken with an error, and a retired connection holds and
adopts nothing. -/
theorem routed {cfg : Config} {run : List Event} {s : State}
    (hrun : runFrom (step cfg) init run = some s) : Routed cfg run s := by
  have h := kept_run (kept_init cfg) hrun
  have hcalls := h.calls
  have hclaimed : ∀ i, (s.claimed.map Prod.fst).count i ≤ 1 := by
    intro i
    have honce := hcalls.once i
    simp only [places] at honce
    omega
  refine ⟨hcalls.hold, ⟨?_, fun n hn => hcalls.hold.size_le hn⟩, h.within, ?_, h.waits.link.posted,
    h.waits.link.once, h.waits.link.connecting, List.nodup_iff_count_le_one.2 hclaimed, ?_, ?_, ?_,
    hcalls.wokenOnce, fun p hp => (hcalls.woken p hp).1, ?_, ?_⟩
  · intro i hnone
    obtain ⟨hold, hdrop, -⟩ := hcalls.hold.drop i
    rw [hdrop] at hnone
    cases hnone
  · intro hheld hensure
    exact (h.waits.waits.resolve_left hheld).resolve_right hensure
  · intro es e es' t t' p _ _ hstep hp hnot
    exact claimsLive_step hstep hp hnot
  · exact handed_nodup hcalls (List.nodup_iff_count_le_one.2 hclaimed)
  · intro es e es' t t' p _ ht hstep hp
    exact handsClaimed_step (kept_run (kept_init cfg) ht).calls hstep hp
  · intro i hi hs
    rcases hcalls.accounted i hi hs with hpos | hwake
    · rcases places_cases hpos with hheld | hwaiting | hclaimed
      · exact Or.inl hheld
      · exact Or.inr (Or.inl hwaiting)
      · exact Or.inr (Or.inr (Or.inr hclaimed))
    · exact Or.inr (Or.inr (Or.inl hwake))
  · intro es es' t hsplit ht hr hb
    obtain ⟨t', ht', hrest⟩ := runFrom_append.1 (hsplit ▸ hrun)
    obtain rfl := Option.some.inj (ht.symm.trans ht')
    have hkept := kept_run (kept_init cfg) ht
    have hover := over_run hkept (over_of_retired hkept.waits hr hb) hrest
    refine ⟨hover.held, hover.session, fun hpoll => ?_⟩
    cases hover.quiet _ hpoll
/-! ## A connection that is retired, and a call that times out -/

/-- The policy of the examples. -/
def hundredBytes : Config := ⟨100, 10, 100, true⟩

/-- `Submit` holds a call of four bytes. Before its `Ensure` the pool retires the connection. -/
def retiredFirst : List Event :=
  [.bindRpcCall, .submit ⟨0, 4⟩, .poll .retire, .run .ensure]

/-- A connect is under way when the pool retires the connection, and `Retire` takes the connector
back. -/
def cancelledDial : List Event :=
  [.bindRpcCall, .submit ⟨0, 4⟩, .run .ensure, .run .callOnLoop, .poll .begin, .poll (.resolve .ok),
    .poll .checkRetired, .poll (.connect .pending), .poll .retire, .poll .cancel]

/-- The connect succeeds and `Finish` claims the call. Then the sweep completes it. -/
def timedOutInFlight : List Event :=
  [.bindRpcCall, .submit ⟨0, 4⟩, .run .ensure, .run .callOnLoop, .poll .begin, .poll (.resolve .ok),
    .poll .checkRetired, .poll (.connect .ok), .poll (.adopt true), .finish,
    .run (.flush 1 [⟨0, 4⟩]), .takeSlot 0, .run (.finishSlot 0 false)]

/-- **While `Retire` is between its lock and its `Finish`**, a call can be held that nobody connects
for, and `bConnecting` can be true with no attempt under way; **and a claimed call can be sent after
it has timed out.** -/
theorem unasked_while_retiring :
    (∃ s, runFrom (step hundredBytes) init retiredFirst = some s ∧ s.hold.calls ≠ [] ∧
      Task.ensure ∉ s.tasks ∧ s.link.bPosted = false ∧ s.link.bConnecting = false) ∧
    (∃ s, runFrom (step hundredBytes) init cancelledDial = some s ∧ s.link.bConnecting = true ∧
      s.link.attempts = 0) ∧
    ¬ HandsLive hundredBytes (timedOutInFlight ++ Event.run (.flushSend 1 ⟨0, 4⟩ []) :: []) := by
  refine ⟨?_, ?_, ?_⟩
  · have hrun : (runFrom (step hundredBytes) init retiredFirst).map (fun s =>
        decide (s.hold.ids = [0] ∧ Task.ensure ∉ s.tasks ∧ s.link.bPosted = false ∧
          s.link.bConnecting = false)) = some true := by
      decide +kernel
    obtain ⟨s, hs, hfacts⟩ := Option.map_eq_some_iff.1 hrun
    obtain ⟨hheld, hrest⟩ := of_decide_eq_true hfacts
    refine ⟨s, hs, fun hnil => ?_, hrest⟩
    rw [HoldList.ids, hnil] at hheld
    cases hheld
  · have hrun : (runFrom (step hundredBytes) init cancelledDial).map (fun s =>
        decide (s.link.bConnecting = true ∧ s.link.attempts = 0)) = some true := by
      decide +kernel
    obtain ⟨s, hs, hfacts⟩ := Option.map_eq_some_iff.1 hrun
    exact ⟨s, hs, of_decide_eq_true hfacts⟩
  · have hrun : (runFrom (step hundredBytes) init timedOutInFlight).map (fun t =>
        decide (t.calls 0 = none ∧ t.handed = [] ∧
          (step hundredBytes t (.run (.flushSend 1 ⟨0, 4⟩ []))).map (fun t' => t'.handed) =
            some [(0, 1)])) = some true := by
      decide +kernel
    obtain ⟨t, ht, hfacts⟩ := Option.map_eq_some_iff.1 hrun
    obtain ⟨hgone, hnot, hsend⟩ := of_decide_eq_true hfacts
    obtain ⟨t', hstep, hhanded⟩ := Option.map_eq_some_iff.1 hsend
    intro hlive
    refine hlive timedOutInFlight _ [] t t' (0, 1) rfl ht hstep ?_ ?_ hgone
    · rw [hhanded]
      exact List.mem_singleton_self _
    · rw [hnot]
      exact List.not_mem_nil

/-- Two calls are held, one of them while the connect is under way, and both are sent. A third comes
after the connection has been retired. -/
def dialledOnce : List Event :=
  [.bindRpcCall, .bindRpcCall, .bindRpcCall, .submit ⟨0, 4⟩, .run .ensure, .run .callOnLoop,
    .poll .begin, .poll (.resolve .pending), .submit ⟨1, 5⟩, .run .ensure, .poll (.onResolved true),
    .poll .checkRetired, .poll (.connect .pending), .poll (.dataOut true), .poll (.adopt true),
    .finish, .run (.flush 1 [⟨0, 4⟩, ⟨1, 5⟩]), .run (.flushSend 1 ⟨0, 4⟩ [⟨1, 5⟩]),
    .run (.flush 1 [⟨1, 5⟩]), .run (.flushSend 1 ⟨1, 5⟩ []), .run (.flush 1 []), .poll .retire,
    .poll .cancel, .poll .closeSession, .poll .activeClose, .finish, .run (.flush (-1) []),
    .submit ⟨2, 6⟩, .run (.wake 2 oiErrConnect), .run (.finishSlot 2 false)]

theorem routed_dialledOnce :
    ∃ s, runFrom (step hundredBytes) init dialledOnce = some s ∧ Routed hundredBytes dialledOnce s ∧
      s.handed = [(0, 1), (1, 1)] ∧ s.woken = [(2, oiErrConnect)] ∧ s.tasks = [] := by
  have hrun : (runFrom (step hundredBytes) init dialledOnce).map (fun s =>
      decide (s.handed = [(0, 1), (1, 1)] ∧ s.woken = [(2, oiErrConnect)] ∧ s.tasks = [])) =
        some true := by
    decide +kernel
  obtain ⟨s, hs, hfacts⟩ := Option.map_eq_some_iff.1 hrun
  exact ⟨s, hs, routed hs, of_decide_eq_true hfacts⟩

end OpenIdea.Rpc.RouteConnection
