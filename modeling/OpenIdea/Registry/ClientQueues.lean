import OpenIdea.Registry.Client
import Mathlib.Data.List.Count
import Mathlib.Data.List.Perm.Basic

/-!
# No pull of the registry client is lost or called back twice

Every `PullAsync` is in one place at a time: in one of the two queues, in the local list of an
operation that is about to finish it, or called back.  `Balanced` counts these places; its first
argument are the pulls that the section under way has in hand, so that each part of an operation can
be accounted for by itself.

Main result: `pulls_conserved`.
-/

set_option autoImplicit false

namespace OpenIdea.Registry.Client

open OpenIdea.Lib OpenIdea.Lib.Runs

/-! ## Counting the places of a pull -/

/-- The calls that are somewhere, each as often as it is there. -/
def State.places (s : State) : List (Option Nat) :=
  s.pendingPulls.map (·.state) ++ s.deferredPulls.map (·.state) ++ s.finishing.map (·.state) ++
    s.called.map fun c => some c.pull

/-- Every call is in hand or in one place, as often as it was made. -/
def Balanced (hand : List (Option Nat)) (s : State) : Prop :=
  ∀ n, hand.count (some n) + s.places.count (some n) = (s.asyncs.map Prod.fst).count n

@[simp] theorem map_state_taken (ps : List PendingPull) (v : PendingPull → Verdict) :
    (ps.map fun p => p.taken (v p)).map (·.state) = ps.map (·.state) := by
  rw [List.map_map]
  rfl

variable {hand : List (Option Nat)} {s : State} {cfg : Config}

variable {p : PendingPull} {n : Nat} {s' : State}

theorem Balanced.enqueueSentPull (h : Balanced (p.state :: hand) s) (now : Nat) (o : SendOutcome) :
    (∃ s', Client.enqueueSentPull p now o s = (s', .accepted) ∧ Balanced hand s') ∨
    ∃ s' r, r ≠ .accepted ∧ Client.enqueueSentPull p now o s = (s', r) ∧
      Balanced (p.state :: hand) s' := by
  obtain ⟨sid, -, heq⟩ | ⟨r, hr, heq⟩ := enqueueSentPull_cases p now o s
  · refine Or.inl ⟨_, heq, ?_⟩
    intro n
    have hn := h n
    simp only [State.places, armPullTimeout, List.map_append, List.count_append, List.map_cons,
      List.map_nil, List.count_cons, List.count_nil, PendingPull.stamped_state] at hn ⊢
    omega
  · exact Or.inr ⟨_, r, hr, heq, h⟩

/-- What is in hand goes to the local list of the operation. -/
theorem Balanced.finishLater {ts : List Taken} {hand : List (Option Nat)} {s : State}
    (h : Balanced (ts.map (·.state) ++ hand) s) :
    Balanced hand { s with finishing := s.finishing ++ ts } := by
  intro n
  have hn := h n
  simp only [State.places, List.map_append, List.count_append] at hn ⊢
  omega

theorem Balanced.giveUp (h : Balanced [some n] s) (deadline : Nat) (code : Int) :
    Balanced [] (Client.giveUp n deadline code s) :=
  @Balanced.finishLater [⟨some n, deadline, .fixed code⟩] _ _ h

/-- The sent pulls are taken out of the queue. -/
theorem Balanced.takePending (h : Balanced hand s) :
    Balanced (s.pendingPulls.map (·.state) ++ hand) { s with pendingPulls := [] } := by
  intro n
  have hn := h n
  simp only [State.places, List.count_append, List.map_nil, List.count_nil] at hn ⊢
  omega

/-- The deferred pulls are taken out of the queue. -/
theorem Balanced.takeDeferred (h : Balanced hand s) :
    Balanced (s.deferredPulls.map (·.state) ++ hand) { s with deferredPulls := [] } := by
  intro n
  have hn := h n
  simp only [State.places, List.count_append, List.map_nil, List.count_nil] at hn ⊢
  omega

theorem Balanced.expireDeferred (h : Balanced hand s) (now : Nat) :
    Balanced hand (Client.expireDeferred now s) := by
  intro n
  have hn := h n
  have hsplit : ((s.deferredPulls.filter fun p => decide (p.deadline ≤ now)).map (·.state)).count
      (some n) + ((s.deferredPulls.filter fun p => !decide (p.deadline ≤ now)).map (·.state)).count
      (some n) = (s.deferredPulls.map (·.state)).count (some n) := by
    rw [← List.count_append, ← List.map_append]
    apply List.Perm.count_eq
    exact (List.filter_append_perm _ _).map _
  simp only [State.places, Client.expireDeferred, List.map_append, List.count_append,
    map_state_taken] at hn ⊢
  omega

theorem Balanced.invalidate (h : Balanced hand s) (now : Nat) :
    Balanced hand (Client.invalidate now s) := by
  -- publishing the result of a synchronous pull touches no place
  have hreset : Balanced hand (resetSession now s) := by
    apply Balanced.finishLater (s := { s with pendingPulls := [] })
    rw [map_state_taken]
    exact h.takePending
  obtain heq | ⟨p, -, -, heq⟩ := invalidate_cases now s
  · rw [heq]
    exact hreset
  · rw [heq]
    exact hreset

theorem Balanced.expirePulls (h : Balanced hand s) (now : Nat) :
    Balanced hand (Client.expirePulls now s) := by
  unfold Client.expirePulls
  dsimp only
  split
  · exact (h.expireDeferred now).invalidate now
  · exact h.expireDeferred now

/-- The pulls of `vSend` end in the queue or stay in `vSend`. -/
theorem Balanced.resend {hand : List (Option Nat)} :
    ∀ {ps : List PendingPull} {as : List Attempt} {s : State},
      Balanced (ps.map (·.state) ++ hand) s →
      Balanced ((Client.resend ps as s).2.map (·.state) ++ hand) (Client.resend ps as s).1
  | [], _, _, h => h
  | p :: ps, as, s, h => by
      -- the head is in hand while the tail is gone through
      have hswap : ∀ {x : Option Nat} {s : State},
          Balanced (x :: (ps.map (·.state) ++ hand)) s ↔
            Balanced (ps.map (·.state) ++ x :: hand) s := by
        intro x s
        refine forall_congr' fun n => ?_
        simp only [List.count_append, List.count_cons]
        omega
      have hback : ∀ {x : Taken} {ts : List Taken} {s : State},
          Balanced (ts.map (·.state) ++ x.state :: hand) s →
            Balanced ((x :: ts).map (·.state) ++ hand) s := by
        intro x ts s hx n
        have := hx n
        simp only [List.map_cons, List.cons_append, List.count_append, List.count_cons] at this ⊢
        omega
      unfold Client.resend
      dsimp only
      split
      · exact hback (Balanced.resend (hswap.1 h))
      · obtain ⟨s', heq, hb⟩ | ⟨s', r, hr, heq, hb⟩ :=
          Balanced.enqueueSentPull (p := p) h (as.headD {}).now (as.headD {}).send
        · rw [heq]
          apply hback
          apply Balanced.resend
          apply hswap.1
          intro n
          simpa using hb n
        · rw [heq]
          cases r with
          | accepted => exact absurd rfl hr
          | refused => exact hback (Balanced.resend (hswap.1 hb))
          | threw => exact hback (Balanced.resend (hswap.1 hb))

theorem Balanced.onAddSession (h : Balanced hand s) (attempts : List Attempt) :
    Balanced hand (Client.onAddSession attempts s) := by
  -- `vFailed` and `vSend` are in hand, then the loop runs over `vSend`
  have htaken : Balanced (s.deferredPulls.map (·.state) ++ (s.pendingPulls.map (·.state) ++ hand))
      { s with
        pendingPulls := []
        deferredPulls := []
        sessionId := some s.sessions.length
        failed := false
        connected := true
        connecting := false
        sessions := s.sessions ++ [{}] } := h.takePending.takeDeferred
  have hloop := @Balanced.resend _ _ attempts _ htaken
  unfold Client.onAddSession
  dsimp only
  intro n
  have hn := hloop n
  simp only [State.places, List.map_append, List.count_append, map_state_taken] at hn ⊢
  omega

theorem Balanced.onDelSession (h : Balanced hand s) (sid : Nat) :
    Balanced hand (Client.onDelSession sid s) := by
  unfold Client.onDelSession
  split
  · intro n
    have hn := h n
    simp only [State.places, List.map_append, List.count_append, map_state_taken, List.map_nil,
      List.count_nil] at hn ⊢
    omega
  · exact h

theorem Balanced.onConnectFailed (h : Balanced hand s) :
    Balanced hand (Client.onConnectFailed s) := by
  apply Balanced.finishLater (s := { s with connecting := false, failed := true, deferredPulls := [] })
  rw [map_state_taken]
  exact h.takeDeferred

theorem Balanced.connect (h : Balanced hand s) (cfg : Config) (o : Start) :
    Balanced hand (Client.connect cfg o s).1 := by
  unfold Client.connect
  dsimp only
  split
  · exact h
  split
  · exact h
  split
  · exact h
  split
  · exact h
  split
  · exact h
  · exact Balanced.onConnectFailed
      (s := { s with addressReady := true, connecting := true, failed := false }) h
  · exact Balanced.onAddSession
      (s := { s with addressReady := true, connecting := true, failed := false }) h _
  · exact h

/-! ## What the queues hold -/

/-- The entries of both queues, as far as callbacks and deadlines go. -/
def State.entries (s : State) : List (Option Nat × Nat) :=
  (s.pendingPulls ++ s.deferredPulls).map fun p => (p.state, p.deadline)

/-- Entries may leave the queues and the rest of the record stays. -/
structure Shrinks (s s' : State) : Prop where
  entries : s'.entries.Sublist s.entries
  asyncs : s'.asyncs = s.asyncs
  issued : s'.issued = s.issued
  once : s'.once = s.once
  called : s'.called = s.called

theorem Shrinks.refl (s : State) : Shrinks s s := ⟨List.Sublist.refl _, rfl, rfl, rfl, rfl⟩

theorem Shrinks.trans {t u : State} (h : Shrinks s t) (h' : Shrinks t u) : Shrinks s u :=
  ⟨h'.entries.trans h.entries, h'.asyncs.trans h.asyncs, h'.issued.trans h.issued,
    h'.once.trans h.once, h'.called.trans h.called⟩

theorem shrinks_expireDeferred (now : Nat) (s : State) : Shrinks s (expireDeferred now s) := by
  refine ⟨?_, rfl, rfl, rfl, rfl⟩
  apply List.Sublist.map
  apply List.Sublist.append_left
  exact List.filter_sublist

theorem shrinks_invalidate (now : Nat) (s : State) : Shrinks s (invalidate now s) := by
  obtain heq | ⟨p, -, -, heq⟩ := invalidate_cases now s
  · rw [heq]
    refine ⟨?_, rfl, rfl, rfl, rfl⟩
    exact (List.sublist_append_right _ _).map _
  · rw [heq]
    refine ⟨?_, rfl, rfl, rfl, rfl⟩
    exact (List.sublist_append_right _ _).map _

theorem shrinks_expirePulls (now : Nat) (s : State) : Shrinks s (expirePulls now s) := by
  unfold expirePulls
  dsimp only
  split
  · exact (shrinks_expireDeferred now s).trans (shrinks_invalidate now _)
  · exact shrinks_expireDeferred now s

/-- The loop of `OnAddSession` appends some of its pulls to the queue, with their deadlines. -/
theorem resend_pendingPulls : ∀ (ps : List PendingPull) (as : List Attempt) (s : State),
    ∃ qs, qs.Sublist ps ∧ (resend ps as s).1.pendingPulls = s.pendingPulls ++ qs ∧
      (resend ps as s).1.deferredPulls = s.deferredPulls ∧ (resend ps as s).1.asyncs = s.asyncs ∧
      (resend ps as s).1.issued = s.issued ∧ (resend ps as s).1.once = s.once ∧
      (resend ps as s).1.called = s.called
  | [], _, s => ⟨[], List.Sublist.refl _, by simp [resend]⟩
  | p :: ps, as, s => by
      unfold resend
      dsimp only
      split
      · obtain ⟨qs, hqs, h⟩ := resend_pendingPulls ps as.tail s
        exact ⟨qs, hqs.cons _, h⟩
      · rename_i hlive
        -- past the check the deadline is positive, so the entry is pushed as it is
        have hpos : 0 < p.deadline := by omega
        obtain ⟨sid, -, heq⟩ | ⟨r, hr, heq⟩ :=
          enqueueSentPull_cases p (as.headD {}).now (as.headD {}).send s
        · rw [heq]
          obtain ⟨qs, hqs, h, h'⟩ := resend_pendingPulls ps as.tail
            { armPullTimeout s with
              pendingPulls := s.pendingPulls ++ [p.stamped (as.headD {}).now]
              sessions := s.sessions.modify sid (·.send p.serial) }
          refine ⟨p :: qs, hqs.cons_cons _, ?_, h'⟩
          rw [h, PendingPull.stamped_of_pos hpos, List.append_assoc]
          rfl
        · rw [heq]
          obtain ⟨qs, hqs, h⟩ := resend_pendingPulls ps as.tail (armPullTimeout s)
          cases r with
          | accepted => exact absurd rfl hr
          | refused => exact ⟨qs, hqs.cons _, h⟩
          | threw => exact ⟨qs, hqs.cons _, h⟩

theorem shrinks_onAddSession (attempts : List Attempt) (s : State) :
    Shrinks s (onAddSession attempts s) := by
  obtain ⟨qs, hqs, hp, hd, ha, hi, ho, hc⟩ := resend_pendingPulls s.deferredPulls attempts
    { s with
      pendingPulls := []
      deferredPulls := []
      sessionId := some s.sessions.length
      failed := false
      connected := true
      connecting := false
      sessions := s.sessions ++ [{}] }
  refine ⟨?_, ha, hi, ho, hc⟩
  unfold State.entries onAddSession
  dsimp only
  rw [hp, hd, List.nil_append, List.append_nil]
  apply List.Sublist.map
  exact hqs.trans (List.sublist_append_right _ _)

theorem shrinks_onDelSession (sid : Nat) (s : State) : Shrinks s (onDelSession sid s) := by
  unfold onDelSession
  split
  · exact ⟨List.nil_sublist _, rfl, rfl, rfl, rfl⟩
  · exact Shrinks.refl s

theorem shrinks_onConnectFailed (s : State) : Shrinks s (onConnectFailed s) := by
  refine ⟨?_, rfl, rfl, rfl, rfl⟩
  apply List.Sublist.map
  exact (List.nil_sublist _).append_left _

theorem shrinks_connect (cfg : Config) (o : Start) (s : State) :
    Shrinks s (connect cfg o s).1 := by
  have hflags : Shrinks s { s with addressReady := true, connecting := true, failed := false } :=
    ⟨List.Sublist.refl _, rfl, rfl, rfl, rfl⟩
  unfold connect
  dsimp only
  split
  · exact Shrinks.refl s
  split
  · exact Shrinks.refl s
  split
  · exact ⟨List.Sublist.refl _, rfl, rfl, rfl, rfl⟩
  split
  · exact ⟨List.Sublist.refl _, rfl, rfl, rfl, rfl⟩
  split
  · exact hflags
  · exact hflags.trans (shrinks_onConnectFailed _)
  · exact hflags.trans (shrinks_onAddSession _ _)
  · exact hflags

/-! ## The invariant -/

/-- What every reachable state satisfies, and what holds within an operation that has the pulls
`hand` in hand. -/
structure Conserved (cfg : Config) (hand : List (Option Nat)) (s : State) : Prop where
  balanced : Balanced hand s
  /-- The calls have distinct numbers, below the next one. -/
  fresh : ∀ a ∈ s.asyncs, a.1 < s.issued
  nodup : (s.asyncs.map Prod.fst).Nodup
  /-- `iOnce` is set by the callback's run only. -/
  once : ∀ n ∈ s.once, n ∈ s.called.map (·.pull)
  deadlines : ∀ e ∈ s.entries, ∀ n, e.1 = some n → (n, e.2) ∈ s.asyncs
  size : s.entries.length ≤ cfg.readMaxPendingPulls.getD 0

theorem conserved_init (cfg : Config) : Conserved cfg [] {} where
  balanced := fun _ => rfl
  fresh := by simp
  nodup := List.nodup_nil
  once := by simp
  deadlines := by simp [State.entries]
  size := Nat.zero_le _

theorem Conserved.shrink {hand' : List (Option Nat)} (h : Conserved cfg hand s) (hs : Shrinks s s')
    (hb : Balanced hand' s') :
    Conserved cfg hand' s' where
  balanced := hb
  fresh := by
    rw [hs.asyncs, hs.issued]
    exact h.fresh
  nodup := by
    rw [hs.asyncs]
    exact h.nodup
  once := by
    rw [hs.once, hs.called]
    exact h.once
  deadlines := by
    rw [hs.asyncs]
    intro e he
    exact h.deadlines e (hs.entries.subset he)
  size := Nat.le_trans hs.entries.length_le h.size

/-- The queues have room for one more. -/
def Roomy (cfg : Config) (s : State) : Prop :=
  s.entries.length < cfg.readMaxPendingPulls.getD 0

theorem roomy_of_canEnqueuePull (h : canEnqueuePull cfg s = some true) : Roomy cfg s := by
  obtain ⟨m, hm, hlt⟩ := Option.map_eq_some_iff.1 h
  simp only [Roomy, State.entries, List.length_map, List.length_append, hm, Option.getD_some]
  exact of_decide_eq_true hlt

theorem Roomy.shrink (h : Roomy cfg s) (hs : Shrinks s s') : Roomy cfg s' :=
  Nat.lt_of_le_of_lt hs.entries.length_le h

/-- The pull in hand enters one of the queues, with the deadline it was given. -/
theorem Conserved.push {cfg : Config} {hand hand' : List (Option Nat)} {s s' : State}
    {e : Option Nat × Nat} (h : Conserved cfg hand s) (hroom : Roomy cfg s)
    (hperm : s'.entries.Perm (e :: s.entries)) (he : ∀ n, e.1 = some n → (n, e.2) ∈ s.asyncs)
    (hasyncs : s'.asyncs = s.asyncs) (hissued : s'.issued = s.issued) (honce : s'.once = s.once)
    (hcalled : s'.called = s.called) (hb : Balanced hand' s') : Conserved cfg hand' s' where
  balanced := hb
  fresh := by
    rw [hasyncs, hissued]
    exact h.fresh
  nodup := by
    rw [hasyncs]
    exact h.nodup
  once := by
    rw [honce, hcalled]
    exact h.once
  deadlines := by
    intro x hx n hn
    rw [hasyncs]
    rcases List.mem_cons.1 (hperm.mem_iff.1 hx) with rfl | hx
    · exact he n hn
    · exact h.deadlines x hx n hn
  size := by
    rw [hperm.length_eq, List.length_cons]
    exact hroom

/-- The entry at the end of the sent pulls. -/
theorem entries_pending_concat (s : State) (p : PendingPull) :
    ({ s with pendingPulls := s.pendingPulls ++ [p] } : State).entries.Perm
      ((p.state, p.deadline) :: s.entries) := by
  simp only [State.entries, List.append_assoc, List.singleton_append, List.map_append,
    List.map_cons]
  exact List.perm_middle

/-- The entry at the end of the deferred pulls. -/
theorem entries_deferred_concat (s : State) (p : PendingPull) :
    ({ s with deferredPulls := s.deferredPulls ++ [p] } : State).entries.Perm
      ((p.state, p.deadline) :: s.entries) := by
  simp only [State.entries, ← List.append_assoc, List.map_append, List.map_cons, List.map_nil]
  exact List.perm_append_singleton _ _

/-- The pull in hand is sent, or stays in hand. -/
theorem Conserved.enqueueSentPull (h : Conserved cfg [p.state] s) (hroom : Roomy cfg s) (now : Nat)
    (hp : ∀ n, p.state = some n → (n, (p.stamped now).deadline) ∈ s.asyncs) (o : SendOutcome) :
    (∃ s', Client.enqueueSentPull p now o s = (s', .accepted) ∧ Conserved cfg [] s') ∨
    ∃ s' r, r ≠ .accepted ∧ Client.enqueueSentPull p now o s = (s', r) ∧
      Conserved cfg [p.state] s' := by
  obtain ⟨s', heq, hb⟩ | ⟨s', r, hr, heq, hb⟩ := h.balanced.enqueueSentPull now o
  · refine Or.inl ⟨s', heq, ?_⟩
    obtain ⟨sid, -, heq'⟩ | ⟨r, hr, heq'⟩ := enqueueSentPull_cases p now o s
    · obtain rfl := (Prod.mk.inj (heq.symm.trans heq')).1
      refine h.push hroom (entries_pending_concat s (p.stamped now)) ?_ rfl rfl rfl rfl hb
      intro n hn
      rw [PendingPull.stamped_state] at hn
      exact hp n hn
    · exact absurd (Prod.mk.inj (heq.symm.trans heq')).2.symm hr
  · refine Or.inr ⟨s', r, hr, heq, ?_⟩
    obtain ⟨sid, -, heq'⟩ | ⟨r', hr', heq'⟩ := enqueueSentPull_cases p now o s
    · exact absurd (Prod.mk.inj (heq.symm.trans heq')).2 hr
    · obtain rfl := (Prod.mk.inj (heq.symm.trans heq')).1
      exact h.shrink ⟨List.Sublist.refl _, rfl, rfl, rfl, rfl⟩ hb

/-! ## The operations -/

/-- `FinishPull` on a pull that is in hand runs its callback. -/
theorem Conserved.finishPull {state : Option Nat} (h : Conserved cfg [state] s) (code : Int)
    (list : List Instance) : Conserved cfg [] (Client.finishPull state code list s) := by
  cases state with
  | none =>
    refine h.shrink (Shrinks.refl s) ?_
    intro n
    have hn := h.balanced n
    simpa [Client.finishPull] using hn
  | some m =>
    -- in hand once and made once, so it is nowhere else
    have hnot : m ∉ s.once := by
      intro hm
      have hcalled : some m ∈ s.called.map fun c => some c.pull := by
        obtain ⟨c, hc, rfl⟩ := List.mem_map.1 (h.once m hm)
        exact List.mem_map.2 ⟨c, hc, rfl⟩
      have hpos := List.count_pos_iff.2 hcalled
      have hle := List.nodup_iff_count_le_one.1 h.nodup m
      have hm := h.balanced m
      simp only [List.count_cons_self, List.count_nil, State.places, List.count_append] at hm
      omega
    unfold Client.finishPull
    dsimp only
    rw [if_neg hnot]
    refine ⟨?_, h.fresh, h.nodup, ?_, h.deadlines, h.size⟩
    · intro n
      have hn := h.balanced n
      simp only [State.places, List.map_append, List.count_append, List.map_cons, List.map_nil,
        List.count_cons, List.count_nil] at hn ⊢
      omega
    · intro n hn
      rw [List.map_append]
      rcases List.mem_cons.1 hn with rfl | hn
      · exact List.mem_append_right _ (by simp)
      · exact List.mem_append_left _ (h.once n hn)

theorem Conserved.finish (h : Conserved cfg [] s) {i : Nat} {t : Taken}
    (ht : s.finishing[i]? = some t) (now : Nat) :
    Conserved cfg [] (Client.finishPull t.state (t.code now) []
      { s with finishing := s.finishing.eraseIdx i }) := by
  apply Conserved.finishPull
  refine h.shrink ⟨List.Sublist.refl _, rfl, rfl, rfl, rfl⟩ ?_
  obtain ⟨hi, rfl⟩ := List.getElem?_eq_some_iff.1 ht
  have hperm := (List.getElem_cons_eraseIdx_perm hi).map (·.state)
  intro n
  have hn := h.balanced n
  have hcount := hperm.count_eq (some n)
  simp only [State.places, List.count_append, List.map_cons, List.count_cons, List.count_nil]
    at hn hcount ⊢
  omega

/-- The reply's pull leaves the queue and is called back, or has no callback. -/
theorem Conserved.deliver {cfg : Config} {s : State} {p : PendingPull} {rest : List PendingPull}
    (h : Conserved cfg [] s) (hp : s.pendingPulls = p :: rest) (c : Consumption) :
    Conserved cfg [] (Client.deliver p c { s with pendingPulls := rest }) := by
  have hpop : Conserved cfg [p.state] { s with pendingPulls := rest } := by
    refine h.shrink ⟨?_, rfl, rfl, rfl, rfl⟩ ?_
    · unfold State.entries
      rw [hp]
      exact List.sublist_cons_self _ _
    · intro n
      have hn := h.balanced n
      simp only [State.places, hp, List.map_cons, List.cons_append, List.count_append,
        List.count_cons, List.count_nil] at hn ⊢
      omega
  unfold Client.deliver
  dsimp only
  split
  · rename_i n hstate
    rw [hstate] at hpop
    apply Conserved.finishPull
    exact hpop.shrink ⟨List.Sublist.refl _, rfl, rfl, rfl, rfl⟩ hpop.balanced
  · rename_i hstate
    have hnone : Conserved cfg [] { s with pendingPulls := rest } := by
      refine hpop.shrink (Shrinks.refl _) ?_
      intro n
      have hn := hpop.balanced n
      simpa [hstate] using hn
    split
    · exact hnone.shrink ⟨List.Sublist.refl _, rfl, rfl, rfl, rfl⟩ hnone.balanced
    split
    · exact hnone.shrink ⟨List.Sublist.refl _, rfl, rfl, rfl, rfl⟩ hnone.balanced
    · exact hnone.shrink ⟨List.Sublist.refl _, rfl, rfl, rfl, rfl⟩ hnone.balanced

theorem Conserved.onFrame (h : Conserved cfg [] s) (sid k : Nat) (f : Frame) (now : Nat) :
    Conserved cfg [] (Client.onFrame sid k f now s) := by
  -- only a pull's reply touches the queues
  have hflags : ∀ {s' : State}, s'.entries = s.entries → s'.asyncs = s.asyncs →
      s'.issued = s.issued → s'.once = s.once → s'.called = s.called → s'.places = s.places →
      Conserved cfg [] s' := by
    intro s' he ha hi ho hc hp
    refine h.shrink ⟨by rw [he], ha, hi, ho, hc⟩ ?_
    intro n
    rw [hp, ha]
    exact h.balanced n
  unfold Client.onFrame
  split
  · exact h
  cases f with
  | registerRes code =>
    dsimp only
    split <;> split
    · exact hflags rfl rfl rfl rfl rfl rfl
    · exact hflags rfl rfl rfl rfl rfl rfl
    · split <;> exact hflags rfl rfl rfl rfl rfl rfl
    · split <;> exact hflags rfl rfl rfl rfl rfl rfl
  | heartbeatRes code =>
    dsimp only
    split
    · exact hflags rfl rfl rfl rfl rfl rfl
    split
    · exact hflags rfl rfl rfl rfl rfl rfl
    · exact h
  | pullRes code list =>
    dsimp only
    split
    · exact h
    · rename_i p rest hp
      exact h.deliver hp _

theorem Conserved.giveUp (h : Conserved cfg [some n] s) (deadline : Nat) (code : Int) :
    Conserved cfg [] (Client.giveUp n deadline code s) :=
  h.shrink ⟨List.Sublist.refl _, rfl, rfl, rfl, rfl⟩ (h.balanced.giveUp deadline code)

/-- A new call is in hand until it is queued or finished. -/
theorem Conserved.newCall (h : Conserved cfg [] s) (deadline : Nat) :
    Conserved cfg [some s.issued]
      { s with issued := s.issued + 1, asyncs := s.asyncs ++ [(s.issued, deadline)] } where
  balanced := by
    intro n
    have hn := h.balanced n
    simp only [State.places, List.map_append, List.count_append, List.map_cons, List.map_nil,
      List.count_cons, List.count_nil, beq_iff_eq, Option.some.injEq] at hn ⊢
    omega
  fresh := by
    intro a ha
    rcases List.mem_append.1 ha with ha | ha
    · exact Nat.lt_succ_of_lt (h.fresh a ha)
    · rw [List.mem_singleton.1 ha]
      exact Nat.lt_succ_self _
  nodup := by
    rw [List.map_append, List.map_singleton, List.nodup_append]
    refine ⟨h.nodup, List.nodup_singleton _, ?_⟩
    intro x hx y hy
    obtain ⟨a, ha, rfl⟩ := List.mem_map.1 hx
    rw [List.mem_singleton.1 hy]
    exact Nat.ne_of_lt (h.fresh a ha)
  once := h.once
  deadlines := by
    intro e he n hn
    exact List.mem_append_left _ (h.deadlines e he n hn)
  size := h.size

theorem Conserved.pullAsyncLocked (h : Conserved cfg [some p.serial] s)
    (hp : p.state = some p.serial) (hin : (p.serial, p.deadline) ∈ s.asyncs) (env : AsyncEnv) :
    Conserved cfg [] (Client.pullAsyncLocked cfg env p s) := by
  unfold Client.pullAsyncLocked
  dsimp only
  split
  · exact h.giveUp _ _
  · exact h.giveUp _ _
  rename_i hcan
  have hsh := shrinks_connect cfg env.start s
  have hroom := (roomy_of_canEnqueuePull hcan).shrink hsh
  have h₁ := h.shrink hsh (h.balanced.connect cfg env.start)
  have hin₁ : (p.serial, p.deadline) ∈ (connect cfg env.start s).1.asyncs := by
    rw [hsh.asyncs]
    exact hin
  generalize hconn : connect cfg env.start s = res at h₁ hroom hin₁
  obtain ⟨s₁, r⟩ := res
  dsimp only at h₁ hroom hin₁
  cases r with
  | none => exact h₁.giveUp _ _
  | some b =>
    cases b with
    | false => exact h₁.giveUp _ _
    | true =>
      dsimp only
      have h₂ : Conserved cfg [some p.serial] (armPullTimeout s₁) :=
        h₁.shrink ⟨List.Sublist.refl _, rfl, rfl, rfl, rfl⟩ h₁.balanced
      split
      · exact h₁.giveUp _ _
      split
      · exact h₂.giveUp _ _
      rename_i hlive
      split
      · -- sent, or given up with the queue as it was
        have hstamp : (p.stamped env.now) = p := PendingPull.stamped_of_pos (by omega) _
        have h₃ : Conserved cfg [p.state] (armPullTimeout s₁) := by
          rw [hp]
          exact h₂
        have hsend := h₃.enqueueSentPull hroom env.now (by
          intro n hn
          rw [hstamp]
          obtain rfl := Option.some.inj (hp.symm.trans hn)
          exact hin₁) env.send
        obtain ⟨s', heq, h₄⟩ | ⟨s', r, hr, heq, h₄⟩ := hsend
        · rw [heq]
          exact h₄
        · rw [heq]
          rw [hp] at h₄
          cases r with
          | accepted => exact absurd rfl hr
          | refused => exact h₄.giveUp _ _
          | threw => exact h₄.giveUp _ _
      split
      · split
        · refine h₂.push hroom (entries_deferred_concat _ p) ?_ rfl rfl rfl rfl ?_
          · intro n hn
            obtain rfl := Option.some.inj (hp.symm.trans hn)
            exact hin₁
          · intro n
            have hn := h₂.balanced n
            simp only [State.places, List.map_append, List.count_append, List.map_cons,
              List.map_nil, List.count_cons, List.count_nil, hp] at hn ⊢
            omega
        · exact h₂.giveUp _ _
      · exact h₂.giveUp _ _

theorem Conserved.pullAsync (h : Conserved cfg [] s) (name : Text) (timeout : Int) (env : AsyncEnv)
    : Conserved cfg [] (Client.pullAsync cfg name timeout env s) := by
  have hnew := h.newCall (asyncDeadline env.started timeout)
  unfold Client.pullAsync
  dsimp only
  split
  · refine ⟨?_, hnew.fresh, hnew.nodup, ?_, hnew.deadlines, hnew.size⟩
    · intro n
      have hn := hnew.balanced n
      simp only [State.places, List.map_append, List.count_append, List.map_cons, List.map_nil,
        List.count_cons, List.count_nil] at hn ⊢
      omega
    · intro n hn
      rw [List.map_append]
      exact List.mem_append_left _ (h.once n hn)
  split
  · exact hnew.giveUp _ _
  split
  · exact hnew.giveUp _ _
  · apply Conserved.pullAsyncLocked hnew rfl
    exact List.mem_append_right _ (List.mem_singleton_self _)

/-- A pull without a callback is sent, or not. -/
theorem Conserved.enqueueUnheld {cfg : Config} {s : State} {p : PendingPull} (h : Conserved cfg [] s)
    (hroom : Roomy cfg s) (hp : p.state = none) (now : Nat) (o : SendOutcome) :
    Conserved cfg [] (Client.enqueueSentPull p now o s).1 := by
  have hnone : ∀ {s : State}, Balanced [p.state] s ↔ Balanced [] s := by
    intro s
    refine forall_congr' fun n => ?_
    rw [hp]
    simp
  have h' : Conserved cfg [p.state] s := h.shrink (Shrinks.refl s) (hnone.2 h.balanced)
  have hsend := h'.enqueueSentPull hroom now (fun n hn => by simp [hp] at hn) o
  obtain ⟨s', heq, hs⟩ | ⟨s', r, -, heq, hs⟩ := hsend
  · rw [heq]
    exact hs
  · rw [heq]
    exact hs.shrink (Shrinks.refl s') (hnone.1 hs.balanced)

theorem Conserved.nextSerial (h : Conserved cfg [] s) :
    Conserved cfg [] { s with issued := s.issued + 1 } :=
  ⟨h.balanced, fun a ha => Nat.lt_succ_of_lt (h.fresh a ha), h.nodup, h.once, h.deadlines, h.size⟩

theorem Conserved.connect (h : Conserved cfg [] s) (o : Start) :
    Conserved cfg [] (Client.connect cfg o s).1 :=
  h.shrink (shrinks_connect cfg o s) (h.balanced.connect cfg o)

theorem Conserved.pull (h : Conserved cfg [] s) (names : List Text) (sawConnected : Bool)
    (start : Start) (now : Nat) (o : SendOutcome) :
    Conserved cfg [] (Client.pull cfg names sawConnected start now o s) := by
  unfold Client.pull
  split
  · exact h
  split
  · exact h.connect start
  split
  · exact h
  split
  · rename_i hcan
    exact h.nextSerial.enqueueUnheld (roomy_of_canEnqueuePull hcan) rfl now o
  · exact h

/-! ## `PullSync` -/

/-- What concerns the synchronous caller alone. -/
theorem Conserved.syncOnly (h : Conserved cfg [] s) (phase : SyncPhase) (returned : List SyncReturn)
    : Conserved cfg [] { s with sync := phase, returned := returned } :=
  ⟨h.balanced, h.fresh, h.nodup, h.once, h.deadlines, h.size⟩

theorem Conserved.syncEnter (h : Conserved cfg [] s) (name : Text) (inPoll sawConnected : Bool)
    (start : Start) : Conserved cfg [] (Client.syncEnter cfg name inPoll sawConnected start s) := by
  have h₁ := h.nextSerial
  have h₂ := h₁.connect start
  unfold Client.syncEnter
  dsimp only
  split
  · exact h₁.syncOnly _ _
  split
  · exact h₁
  split
  · exact h₁.syncOnly _ _
  generalize Client.connect cfg start { s with issued := s.issued + 1 } = res at h₂ ⊢
  obtain ⟨s₁, r⟩ := res
  dsimp only at h₂ ⊢
  split
  · rename_i heq
    obtain ⟨rfl, rfl⟩ := Prod.mk.inj heq
    exact h₂.syncOnly _ _
  · rename_i heq
    obtain ⟨rfl, rfl⟩ := Prod.mk.inj heq
    exact h₂.syncOnly _ _
  · rename_i heq
    obtain ⟨rfl, rfl⟩ := Prod.mk.inj heq
    exact h₂

theorem Conserved.syncSend (h : Conserved cfg [] s) (n : Nat) (name : Text) (now : Nat)
    (o : SendOutcome) : Conserved cfg [] (Client.syncSend cfg n name now o s) := by
  unfold Client.syncSend
  split
  · exact h.syncOnly _ _
  · exact h.syncOnly _ _
  · rename_i hcan
    have h₁ : Conserved cfg [] { s with got := false, code := errFail, writer := .caller } :=
      ⟨h.balanced, h.fresh, h.nodup, h.once, h.deadlines, h.size⟩
    have h₂ := @Conserved.enqueueUnheld _ _ ⟨n, true, 0, [name], none⟩ h₁
      (roomy_of_canEnqueuePull hcan) rfl now o
    dsimp only
    generalize Client.enqueueSentPull ⟨n, true, 0, [name], none⟩ now o
      { s with got := false, code := errFail, writer := .caller } = res at h₂ ⊢
    obtain ⟨s₁, r⟩ := res
    cases r with
    | accepted => exact h₂.syncOnly _ _
    | refused => exact h₂.syncOnly _ _
    | threw => exact h₂.syncOnly _ _

theorem Conserved.syncCancel (h : Conserved cfg [] s) (n : Nat) (sent : Bool) :
    Conserved cfg [] (Client.syncCancel n sent s) := by
  refine h.shrink ⟨?_, rfl, rfl, rfl, rfl⟩ ?_
  · unfold State.entries Client.syncCancel
    rw [List.map_append, List.map_append, clearSynchronous_map (fun _ => rfl)]
  · intro m
    have hm := h.balanced m
    simp only [State.places, Client.syncCancel, clearSynchronous_map (f := fun p => p.state)
      (fun _ => rfl)] at hm ⊢
    exact hm

theorem Conserved.expirePulls (h : Conserved cfg [] s) (now : Nat) :
    Conserved cfg [] (Client.expirePulls now s) :=
  h.shrink (shrinks_expirePulls now s) (h.balanced.expirePulls now)

/-! ## Runs -/

theorem Conserved.step {e : Event} (h : Conserved cfg [] s) (hs : Client.step cfg s e = some s') :
    Conserved cfg [] s' := by
  cases stepped hs with
  | pullAsync name timeout env => exact h.pullAsync name timeout env
  | pull names sawConnected start now o => exact h.pull names sawConnected start now o
  | syncEnter name inPoll sawConnected start _ => exact h.syncEnter name inPoll sawConnected start
  | syncEnsured n name _ =>
    unfold Client.syncEnsured
    split
    · exact h.syncOnly _ _
    · exact h.syncOnly _ _
  | syncSend n name now o _ => exact h.syncSend n name now o
  | syncWaitEnds n _ => exact h.syncOnly _ _
  | syncCancel n sent _ => exact h.syncCancel n sent
  | syncExpire n sent now _ => exact (h.expirePulls now).syncOnly _ _
  | syncRead n _ => exact h.syncOnly _ _
  | expirePulls now => exact h.expirePulls now
  | onAddSession attempts =>
    exact h.shrink (shrinks_onAddSession attempts s) (h.balanced.onAddSession attempts)
  | onDelSession sid => exact h.shrink (shrinks_onDelSession sid s) (h.balanced.onDelSession sid)
  | onConnectFailed => exact h.shrink (shrinks_onConnectFailed s) h.balanced.onConnectFailed
  | registerRes sid code now => exact h.onFrame sid 0 _ now
  | heartbeatRes sid code now => exact h.onFrame sid 0 _ now
  | pullRes sid code list now _ =>
    apply Conserved.onFrame
    exact ⟨h.balanced, h.fresh, h.nodup, h.once, h.deadlines, h.size⟩
  | finish i t now ht => exact h.finish ht now

theorem count_called (cs : List Callback) (n : Nat) :
    (cs.map fun c => some c.pull).count (some n) = (cs.map (·.pull)).count n := by
  rw [← List.count_map_of_injective (cs.map (·.pull)) some (Option.some_injective _), List.map_map]
  rfl

theorem length_filter_state (ps : List PendingPull) (n : Nat) :
    (ps.filter fun p => p.state = some n).length = (ps.map (·.state)).count (some n) := by
  rw [List.count, List.countP_map, List.countP_eq_length_filter]
  congr 1
  apply List.filter_congr
  intro p _
  rw [Bool.eq_iff_iff]
  simp

theorem Conserved.count_places_le (h : Conserved cfg [] s) (n : Nat) :
    s.places.count (some n) ≤ 1 := by
  have hn := h.balanced n
  have hle := List.nodup_iff_count_le_one.1 h.nodup n
  simp only [List.count_nil] at hn
  omega

/-- Two records of one call are the same. -/
theorem Conserved.deadline_eq (h : Conserved cfg [] s) {d d' : Nat} (hd : (n, d) ∈ s.asyncs)
    (hd' : (n, d') ∈ s.asyncs) : d = d' :=
  (Prod.mk.inj (List.inj_on_of_nodup_map h.nodup hd hd' rfl)).2

/-- A call that no operation holds and that was not called back is in one entry. -/
theorem Conserved.queued {cfg : Config} {s : State} (h : Conserved cfg [] s) (hq : s.finishing = [])
    {n deadline : Nat} (hn : (n, deadline) ∈ s.asyncs) (hnot : n ∉ s.called.map (·.pull)) :
    ((s.pendingPulls ++ s.deferredPulls).filter fun p => p.state = some n).map (·.deadline) =
      [deadline] := by
  have hmade : 0 < (s.asyncs.map Prod.fst).count n :=
    List.count_pos_iff.2 (List.mem_map.2 ⟨_, hn, rfl⟩)
  have hnotcalled : (s.called.map fun c => some c.pull).count (some n) = 0 := by
    rw [count_called]
    exact List.count_eq_zero.2 hnot
  have hlen : ((s.pendingPulls ++ s.deferredPulls).filter fun p => p.state = some n).length = 1 := by
    have hle := h.count_places_le n
    have hb := h.balanced n
    rw [length_filter_state, List.map_append, List.count_append]
    simp only [State.places, List.count_append, hq, List.map_nil, List.count_nil] at hb hle
    omega
  obtain ⟨p, hp⟩ := List.length_eq_one_iff.1 hlen
  have hmem : p ∈ (s.pendingPulls ++ s.deferredPulls).filter fun p => p.state = some n := by
    rw [hp]
    exact List.mem_singleton_self p
  obtain ⟨hmem, hstate⟩ := List.mem_filter.1 hmem
  have hdead : (n, p.deadline) ∈ s.asyncs :=
    h.deadlines _ (List.mem_map.2 ⟨p, hmem, rfl⟩) n (of_decide_eq_true hstate)
  rw [hp, List.map_singleton, h.deadline_eq hdead hn]

/-- No operation holds pulls that it took out of the queues.  This is so whenever no operation is in
progress. -/
def Quiescent (s : State) : Prop := s.finishing = []

instance (s : State) : Decidable (Quiescent s) := inferInstanceAs (Decidable (_ = _))

/-- **No pull is lost or called back twice.**  After any run, the callback of a `PullAsync` has run
at most once; in a quiescent state each call whose callback has not run is in exactly one entry of
the two queues, with the deadline it was given; and the queues never hold more than
`max_pending_pulls` entries. -/
theorem pulls_conserved (cfg : Config) {es : List Event} {s : State}
    (hrun : runFrom (step cfg) {} es = some s) :
    (s.called.map (·.pull)).Nodup ∧
    (Quiescent s → ∀ n deadline, (n, deadline) ∈ s.asyncs → n ∉ s.called.map (·.pull) →
      ((s.pendingPulls ++ s.deferredPulls).filter fun p => p.state = some n).map (·.deadline) =
        [deadline]) ∧
    s.pendingPulls.length + s.deferredPulls.length ≤ cfg.readMaxPendingPulls.getD 0 := by
  have h : Conserved cfg [] s :=
    runFrom_invariant (fun _ _ _ hI hs => hI.step hs) (conserved_init cfg) hrun
  refine ⟨?_, ?_, ?_⟩
  · rw [List.nodup_iff_count_le_one]
    intro n
    have hle := h.count_places_le n
    simp only [State.places, List.count_append, count_called] at hle
    omega
  · intro hq n deadline hn hnot
    exact h.queued hq hn hnot
  · have hsize := h.size
    simpa [State.entries] using hsize

/-- Two pulls wait for a connection and are sent on it; the first is answered, and a third is sent
after it. -/
def sentWhenConnected : List Event :=
  [.pullAsync ['a'] 500 {}, .pullAsync ['b'] 900 {},
    .onAddSession [⟨20, .accepted⟩, ⟨21, .accepted⟩], .finish 0 22, .finish 0 22,
    .onFrame 0 (.pullRes 0 []) 30,
    .pullAsync ['c'] 100 ⟨40, 41, true, {}, true, .accepted, true⟩, .expirePulls 139]

/-- The second and the third call are still queued, each with its own deadline. -/
theorem pulls_conserved_sentWhenConnected :
    ∃ s, runFrom (step {}) {} sentWhenConnected = some s ∧ s.called = [⟨0, 0, []⟩] ∧
      ((s.pendingPulls ++ s.deferredPulls).filter fun p => p.state = some 2).map (·.deadline) =
        [140] := by
  have hend : (runFrom (step {}) {} sentWhenConnected).map
      (fun s => (s.called, s.finishing, s.asyncs)) =
      some ([⟨0, 0, []⟩], [], [(0, 500), (1, 900), (2, 140)]) := by
    decide +kernel
  obtain ⟨s, hs, heq⟩ := Option.map_eq_some_iff.1 hend
  simp only [Prod.mk.injEq] at heq
  obtain ⟨hcalled, hfin, hasyncs⟩ := heq
  refine ⟨s, hs, hcalled, ?_⟩
  apply (pulls_conserved {} hs).2.1 hfin 2 140
  · rw [hasyncs]
    decide
  · rw [hcalled]
    decide

end OpenIdea.Registry.Client
