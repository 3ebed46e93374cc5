import OpenIdea.Registry.Ownership

/-!
# Cleaning up after a session

When a session is gone its registrations are withdrawn, while other sessions go on.  A withdrawal
compares addresses only, so it also takes away the registration of another session with the same
address; and `OnDelSession` drops the snapshot entry whoever has registered since.  `Alone` says
when neither happens, and a run in which it always holds spares every live registration.  The main
result is `live_registration_spared`; `reconnected_registration_lost` is a run in which it does not
hold.
-/

set_option autoImplicit false

namespace OpenIdea.Registry

open OpenIdea.Lib OpenIdea.Lib.Runs

/-! ## The property and the condition -/

/-- Nothing of another session's live registration is lost: neither its key nor its entry in the
snapshot. -/
def Spares (sid : Nat) (s s' : State) : Prop :=
  ∀ other b, other ≠ sid → other ∈ s.alive → (other, b) ∈ s.bindings →
    s.redis.get b.key = some b.value →
    s'.redis.get b.key = some b.value ∧
      ((∃ x ∈ s.snapshot, x.key = b.key) → ∃ x ∈ s'.snapshot, x.key = b.key)

/-- The event cleans up after a session: its close, a register that comes back after it, a refresh
that finds its binding gone or changed, and a withdrawal in Redis and after its reply. -/
inductive CleansUp (s : State) : Event → Nat → Prop
  | close (sid : Nat) : CleansUp s (.close sid) sid
  | script {i : Nat} {sid : Nat} {b : Binding} {settled : Bool}
      (h : s.calls[i]? = some ⟨.withdraw sid b, none, settled⟩) : CleansUp s (.exec i) sid
  | withdrawn {i : Nat} {sid : Nat} {b : Binding} {r : Option Reply} {settled : Bool} {e : Event}
      (he : e = .deliver i ∨ e = .fail i)
      (h : s.calls[i]? = some ⟨.withdraw sid b, r, settled⟩) : CleansUp s e sid
  | register {i : Nat} {sid : Nat} {b : Binding} {r : Option Reply} {settled : Bool} {e : Event}
      (he : e = .deliver i ∨ e = .fail i)
      (h : s.calls[i]? = some ⟨.register sid b, r, settled⟩) (hdead : sid ∉ s.alive) :
      CleansUp s e sid
  | refresh {i : Nat} {sid : Nat} {b : Binding} {r : Option Reply} {settled : Bool} {e : Event}
      (he : e = .deliver i ∨ e = .fail i)
      (h : s.calls[i]? = some ⟨.refresh sid b, r, settled⟩) (hnot : ¬ Bound s sid b) :
      CleansUp s e sid

/-- Two registrations of one id from one address. -/
def Twin (a b : Binding) : Prop := a.key = b.key ∧ a.value = b.value

instance (a b : Binding) : Decidable (Twin a b) := inferInstanceAs (Decidable (_ ∧ _))

/-- Everything that is under way, in the order in which it reaches Redis. -/
def queue (s : State) : List Call := s.calls ++ s.tasks.map fun t => { task := t }

/-- A register of another live session, under way for a twin of `b`. -/
def registersTwin (alive : List Nat) (sid : Nat) (b : Binding) (x : Call) : Bool :=
  match x.task with
  | .register other b' => !x.settled && other ≠ sid && other ∈ alive && Twin b' b
  | _ => false

/-- No other session holds a twin of `b` or has a register for one under way. -/
def NoTwin (s : State) (ahead : List Call) (sid : Nat) (b : Binding) : Prop :=
  (∀ e ∈ s.bindings, e.1 ≠ sid → ¬ Twin e.2 b) ∧
    ∀ x ∈ ahead, registersTwin s.alive sid b x = false

/-- A reply that starts a withdrawal: of a register whose session is gone, or of a refresh whose
binding is. -/
def AloneOnReply (s : State) : Option Call → Prop
  | some ⟨.register sid b, some r, _⟩ =>
      sid ∉ s.alive → r.replyInt = .ok → NoTwin s s.calls sid b
  | some ⟨.refresh sid b, some r, _⟩ =>
      ¬ (∃ e ∈ s.bindings, e.1 = sid ∧ Twin e.2 b) →
        r.replyInt = .ok ∨ r.replyInt = .renewed → NoTwin s s.calls sid b
  | _ => True

/-- **When cleaning up is harmless.**  Where a withdrawal is started no other session holds or
registers the same id with the same address; and where a session is closed none holds a live
registration of one of its ids. -/
def Alone (s : State) : Event → Prop
  | .close sid => ∀ e ∈ s.bindings, e.1 = sid → NoTwin s (queue s) sid e.2 ∧
      ∀ e' ∈ s.bindings, e'.1 ≠ sid → e'.2.key = e.2.key → s.redis.get e'.2.key ≠ some e'.2.value
  | .deliver i => AloneOnReply s s.calls[i]?
  | _ => True

/-! ## The invariant

No withdrawal that is under way meets the address of another session when Redis executes it: not in
a binding, and not in a register ahead of it. -/

/-- A register ahead of a withdrawal is not for its twin. -/
def NoClash (alive : List Nat) (y x : Call) : Prop :=
  ∀ sid b, x.task = .withdraw sid b → x.reply = none → registersTwin alive sid b y = false

/-- No withdrawal under way meets a twin when Redis executes it. -/
structure Clear (s : State) : Prop where
  /-- Redis has executed the scripts in order -/
  order : s.calls.Pairwise fun x y => y.reply.isSome → x.reply.isSome
  /-- an executed call still has its coroutine -/
  live : ∀ x ∈ s.calls, x.reply.isSome → x.settled = false
  ahead : (queue s).Pairwise (NoClash s.alive)
  bound : ∀ x ∈ queue s, ∀ sid b, x.task = .withdraw sid b → x.reply = none →
    ∀ e ∈ s.bindings, e.1 ≠ sid → ¬ Twin e.2 b
  alive : ∀ sid ∈ s.alive, sid ≤ s.lastSid
  sids : ∀ x ∈ queue s, ∀ sid b, x.task = .register sid b → sid ≤ s.lastSid

section Invariant

variable {c : Config} {s s' : State}

variable {b : Binding} {sid : Nat}

variable {x : Call} {t : Task}

theorem registersTwin_iff {alive : List Nat} :
    registersTwin alive sid b x = true ↔ ∃ other b', x.task = .register other b' ∧
      x.settled = false ∧ other ≠ sid ∧ other ∈ alive ∧ Twin b' b := by
  cases ht : x.task with
  | register other b' => simp [registersTwin, ht, and_assoc]
  | refresh sid' b' => simp [registersTwin, ht]
  | withdraw sid' b' => simp [registersTwin, ht]
  | reload => simp [registersTwin, ht]

theorem registersTwin_mono {alive alive' : List Nat}
    (hsub : ∀ n ∈ alive', (∃ b', x.task = .register n b') → n ∈ alive)
    (h : registersTwin alive sid b x = false) : registersTwin alive' sid b x = false := by
  rw [← Bool.not_eq_true, registersTwin_iff] at h ⊢
  rintro ⟨other, b', ht, hset, hne, hmem, htwin⟩
  exact h ⟨other, b', ht, hset, hne, hsub other hmem ⟨b', ht⟩, htwin⟩

/-- The queue loses calls: what it says about the rest stays. -/
theorem Clear.sublist {calls : List Call} (h : Clear s) (hsub : calls.Sublist s.calls) :
    Clear { s with calls := calls } := by
  have hq : (queue { s with calls := calls }).Sublist (queue s) := hsub.append_right _
  exact {
    order := h.order.sublist hsub
    live := fun x hx => h.live x (hsub.subset hx)
    ahead := h.ahead.sublist hq
    bound := fun x hx => h.bound x (hq.subset hx)
    alive := h.alive
    sids := fun x hx => h.sids x (hq.subset hx) }

/-- Something that is not a withdrawal is added at the end of the run queue. -/
theorem Clear.startTask (h : Clear s) (hw : ∀ sid b, t ≠ .withdraw sid b)
    (hsid : ∀ sid b, t = .register sid b → sid ≤ s.lastSid) : Clear (s.startTask t) := by
  have hq : queue (s.startTask t) = queue s ++ [{ task := t }] := by
    simp [queue, State.startTask]
  refine ⟨h.order, h.live, ?_, ?_, h.alive, ?_⟩
  · rw [hq, List.pairwise_append]
    refine ⟨h.ahead, List.pairwise_singleton _ _, ?_⟩
    intro y _ x hx sid b ht
    rw [List.mem_singleton.1 hx] at ht
    exact absurd ht (hw sid b)
  · rw [hq]
    intro x hx sid b ht
    obtain hx | hx := List.mem_append.1 hx
    · exact h.bound x hx sid b ht
    · rw [List.mem_singleton.1 hx] at ht
      exact absurd ht (hw sid b)
  · rw [hq]
    intro x hx sid b ht
    obtain hx | hx := List.mem_append.1 hx
    · exact h.sids x hx sid b ht
    · rw [List.mem_singleton.1 hx] at ht
      exact hsid sid b ht

/-- A withdrawal that nobody minds is sent. -/
theorem Clear.issueWithdraw (h : Clear s) (hno : NoTwin s s.calls sid b) :
    Clear (s.issue (.withdraw sid b)) := by
  have hq : queue (s.issue (.withdraw sid b)) =
      s.calls ++ ({ task := .withdraw sid b } :: s.tasks.map fun t => { task := t }) := by
    simp [queue, State.issue]
  have hmem : ∀ x ∈ queue (s.issue (.withdraw sid b)), x ∈ queue s ∨
      x = { task := .withdraw sid b } := by
    intro x hx
    rw [hq, List.mem_append, List.mem_cons] at hx
    rw [queue, List.mem_append]
    obtain hx | rfl | hx := hx
    · exact .inl (.inl hx)
    · exact .inr rfl
    · exact .inl (.inr hx)
  have hahead := h.ahead
  rw [queue, List.pairwise_append] at hahead
  obtain ⟨h1, h2, h3⟩ := hahead
  refine ⟨?_, ?_, ?_, ?_, h.alive, ?_⟩
  · rw [State.issue, List.pairwise_append]
    refine ⟨h.order, List.pairwise_singleton _ _, ?_⟩
    intro x _ y hy hsome
    rw [List.mem_singleton.1 hy] at hsome
    cases hsome
  · intro x hx hsome
    obtain hx | hx := List.mem_append.1 hx
    · exact h.live x hx hsome
    · rw [List.mem_singleton.1 hx] at hsome
      cases hsome
  · rw [hq, List.pairwise_append, List.pairwise_cons]
    refine ⟨h1, ⟨?_, h2⟩, ?_⟩
    · -- a withdrawal is no register
      intro x _ sid' b' _ _
      rfl
    · intro y hy x hx
      obtain rfl | hx := List.mem_cons.1 hx
      · intro sid' b' ht _
        obtain ⟨rfl, rfl⟩ := Task.withdraw.inj ht
        exact hno.2 y hy
      · exact h3 y hy x hx
  · intro x hx sid' b' ht hnone e he hne
    obtain hx | rfl := hmem x hx
    · exact h.bound x hx sid' b' ht hnone e he hne
    · obtain ⟨rfl, rfl⟩ := Task.withdraw.inj ht
      exact hno.1 e he hne
  · intro x hx sid' b' ht
    obtain hx | rfl := hmem x hx
    · exact h.sids x hx sid' b' ht
    · cases ht

theorem Clear.accept (h : Clear s) : Clear s.onAddSession := by
  have hold : ∀ {x : Call} {n : Nat}, x ∈ queue s → n ∈ s.alive ++ [s.lastSid + 1] →
      (∃ b, x.task = .register n b) → n ∈ s.alive := by
    rintro x n hx hn ⟨b, ht⟩
    obtain hn | hn := List.mem_append.1 hn
    · exact hn
    · -- the new session has nothing under way
      have := h.sids x hx n b ht
      rw [List.mem_singleton.1 hn] at this
      omega
  refine ⟨h.order, h.live, ?_, h.bound, ?_, ?_⟩
  · refine h.ahead.imp_of_mem ?_
    intro y x hy hx hyx sid b ht hnone
    exact registersTwin_mono (fun n hn hreg => hold hy hn hreg) (hyx sid b ht hnone)
  · intro sid hsid
    show sid ≤ s.lastSid + 1
    obtain hsid | hsid := List.mem_append.1 hsid
    · have := h.alive sid hsid
      omega
    · exact Nat.le_of_eq (List.mem_singleton.1 hsid)
  · intro x hx sid b ht
    show sid ≤ s.lastSid + 1
    have := h.sids x hx sid b ht
    omega

theorem Clear.close (h : Clear s) {sid : Nat} (halone : Alone s (.close sid)) :
    Clear (s.onDelSession sid) := by
  have hq : queue (s.onDelSession sid) = queue s ++
      ((s.bindings.filter (·.1 = sid)).map Prod.snd).map fun b => { task := .withdraw sid b } := by
    simp [queue, State.onDelSession]
  -- the calls that are new withdraw a binding of the session
  have hnew : ∀ x ∈ ((s.bindings.filter (·.1 = sid)).map Prod.snd).map
      fun b => ({ task := .withdraw sid b } : Call), ∃ e ∈ s.bindings, e.1 = sid ∧
        x = { task := .withdraw sid e.2 } := by
    intro x hx
    simp only [List.map_map, List.mem_map, List.mem_filter, decide_eq_true_eq] at hx
    obtain ⟨e, ⟨he, hsid⟩, rfl⟩ := hx
    exact ⟨e, he, hsid, rfl⟩
  have hsub : ∀ n ∈ (s.onDelSession sid).alive, n ∈ s.alive := fun n hn => List.mem_of_mem_filter hn
  refine ⟨h.order, h.live, ?_, ?_, ?_, ?_⟩
  · rw [hq, List.pairwise_append]
    refine ⟨?_, ?_, ?_⟩
    · refine h.ahead.imp ?_
      intro y x hyx sid' b ht hnone
      exact registersTwin_mono (fun n hn _ => hsub n hn) (hyx sid' b ht hnone)
    · refine List.pairwise_of_forall_mem_list ?_
      intro y hy x hx sid' b ht _
      obtain ⟨e, -, -, rfl⟩ := hnew y hy
      rfl
    · intro y hy x hx sid' b ht _
      obtain ⟨e, he, hsid, rfl⟩ := hnew x hx
      obtain ⟨rfl, rfl⟩ := Task.withdraw.inj ht
      exact registersTwin_mono (fun n hn _ => hsub n hn) ((halone e he hsid).1.2 y hy)
  · rw [hq]
    intro x hx sid' b ht hnone e he hne
    have he' : e ∈ s.bindings := List.mem_of_mem_filter he
    obtain hx | hx := List.mem_append.1 hx
    · exact h.bound x hx sid' b ht hnone e he' hne
    · obtain ⟨e₀, he₀, hsid, rfl⟩ := hnew x hx
      obtain ⟨rfl, rfl⟩ := Task.withdraw.inj ht
      exact (halone e₀ he₀ hsid).1.1 e he' hne
  · intro n hn
    exact h.alive n (hsub n hn)
  · rw [hq]
    intro x hx sid' b ht
    obtain hx | hx := List.mem_append.1 hx
    · exact h.sids x hx sid' b ht
    · obtain ⟨e, -, -, rfl⟩ := hnew x hx
      cases ht

theorem Clear.start (h : Clear s) {t : Task} {ts : List Task} (ht : s.tasks = t :: ts) :
    Clear ({ s with tasks := ts }.issue t) := by
  have hq : queue ({ s with tasks := ts }.issue t) = queue s := by
    simp [queue, State.issue, ht]
  refine ⟨?_, ?_, by rw [hq]; exact h.ahead, by rw [hq]; exact h.bound, h.alive,
    by rw [hq]; exact h.sids⟩
  · rw [State.issue, List.pairwise_append]
    refine ⟨h.order, List.pairwise_singleton _ _, ?_⟩
    intro x _ y hy hsome
    rw [List.mem_singleton.1 hy] at hsome
    cases hsome
  · intro x hx hsome
    obtain hx | hx := List.mem_append.1 hx
    · exact h.live x hx hsome
    · rw [List.mem_singleton.1 hx] at hsome
      cases hsome

/-- A call changes its state: it is executed when those before it were, or is left behind. -/
theorem Clear.replace (h : Clear s) {x' : Call} {pre post : List Call} {redis : Redis}
    (hcalls : s.calls = pre ++ x :: post) (htask : x'.task = x.task)
    (hreply : x.reply.isSome → x'.reply.isSome) (hset : x'.settled = false → x.settled = false)
    (hpre : x'.reply.isSome → ∀ y ∈ pre, y.reply.isSome)
    (hlive : x'.reply.isSome → x'.settled = false) :
    Clear { s with redis := redis, calls := pre ++ [x'] ++ post } := by
  have hq : queue s = pre ++ x :: (post ++ s.tasks.map fun t => { task := t }) := by
    simp [queue, hcalls]
  have hq' : queue { s with redis := redis, calls := pre ++ [x'] ++ post } =
      pre ++ x' :: (post ++ s.tasks.map fun t => { task := t }) := by
    simp [queue]
  have hmem : ∀ y ∈ queue { s with redis := redis, calls := pre ++ [x'] ++ post },
      y = x' ∨ y ∈ queue s := by
    intro y hy
    rw [hq', List.mem_append, List.mem_cons] at hy
    rw [hq, List.mem_append, List.mem_cons]
    tauto
  have hnone : x'.reply = none → x.reply = none := by
    intro h'
    cases hx : x.reply with
    | none => rfl
    | some r =>
      have := hreply (by rw [hx]; rfl)
      rw [h'] at this
      cases this
  have hself : x ∈ queue s := by rw [hq]; simp
  refine ⟨?_, ?_, ?_, ?_, h.alive, ?_⟩
  · have hord := h.order
    rw [hcalls, List.pairwise_append, List.pairwise_cons] at hord
    obtain ⟨h1, ⟨h2, h3⟩, h4⟩ := hord
    show (pre ++ [x'] ++ post).Pairwise _
    rw [List.append_assoc, List.singleton_append, List.pairwise_append, List.pairwise_cons]
    refine ⟨h1, ⟨fun y hy hsome => hreply (h2 y hy hsome), h3⟩, ?_⟩
    intro y hy z hz hsome
    obtain rfl | hz := List.mem_cons.1 hz
    · exact hpre hsome y hy
    · exact h4 y hy z (List.mem_cons_of_mem _ hz) hsome
  · intro y hy hsome
    simp only [List.mem_append, List.mem_singleton] at hy
    obtain (hy | rfl) | hy := hy
    · exact h.live y (by rw [hcalls]; simp [hy]) hsome
    · exact hlive hsome
    · exact h.live y (by rw [hcalls]; simp [hy]) hsome
  · have hahead := h.ahead
    rw [hq, List.pairwise_append, List.pairwise_cons] at hahead
    obtain ⟨h1, ⟨h2, h3⟩, h4⟩ := hahead
    rw [hq', List.pairwise_append, List.pairwise_cons]
    refine ⟨h1, ⟨?_, h3⟩, ?_⟩
    · intro y hy sid b ht hno
      have := h2 y hy sid b ht hno
      rw [← Bool.not_eq_true, registersTwin_iff] at this ⊢
      rintro ⟨other, b', ht', hset', hrest⟩
      exact this ⟨other, b', htask ▸ ht', hset hset', hrest⟩
    · intro y hy z hz
      obtain rfl | hz := List.mem_cons.1 hz
      · intro sid b ht hno
        exact h4 y hy x List.mem_cons_self sid b (htask ▸ ht) (hnone hno)
      · exact h4 y hy z (List.mem_cons_of_mem _ hz)
  · intro y hy sid b ht hno
    obtain rfl | hy := hmem y hy
    · exact h.bound x hself sid b (htask ▸ ht) (hnone hno)
    · exact h.bound y hy sid b ht hno
  · intro y hy sid b ht
    obtain rfl | hy := hmem y hy
    · exact h.sids x hself sid b (htask ▸ ht)
    · exact h.sids y hy sid b ht

/-- A coroutine goes on. -/
theorem Clear.goesOn {r : Reply} (h : Clear s) (hres : Resumed s t r s')
    (hwithdraw : ∀ sid b, t = .register sid b ∧ sid ∉ s.alive ∧ r.replyInt = .ok ∨
      t = .refresh sid b ∧ ¬ Bound s sid b ∧ (r.replyInt = .ok ∨ r.replyInt = .renewed) →
      NoTwin s s.calls sid b)
    (hregister : ∀ sid b, t = .register sid b → sid ∈ s.alive → r.replyInt = .ok →
      ∀ x ∈ queue s, ∀ sid' b', x.task = .withdraw sid' b' → x.reply = none → sid ≠ sid' →
        ¬ Twin b b') : Clear s' := by
  cases hres with
  | rests => exact ⟨h.order, h.live, h.ahead, h.bound, h.alive, h.sids⟩
  | late hdead hr => exact h.issueWithdraw (hwithdraw _ _ (.inl ⟨rfl, hdead, hr⟩))
  | stray hnot hr => exact h.issueWithdraw (hwithdraw _ _ (.inr ⟨rfl, hnot, hr⟩))
  | @registered sid b _ hlive hr =>
    refine ⟨h.order, h.live, h.ahead, ?_, h.alive, h.sids⟩
    intro x hx sid' b' ht hnone e he hne
    obtain rfl | he := mem_of_mem_rebind he
    · exact hregister sid b rfl hlive hr x hx sid' b' ht hnone hne
    · exact h.bound x hx sid' b' ht hnone e he hne
  | renewed => exact ⟨h.order, h.live, h.ahead, h.bound, h.alive, h.sids⟩
  | refused =>
    refine ⟨h.order, h.live, h.ahead, ?_, h.alive, h.sids⟩
    intro x hx sid' b' ht hnone e he
    exact h.bound x hx sid' b' ht hnone e (List.mem_of_mem_eraseP he)
  | withdrawn => exact ⟨h.order, h.live, h.ahead, h.bound, h.alive, h.sids⟩
  | reloaded => exact ⟨h.order, h.live, h.ahead, h.bound, h.alive, h.sids⟩

theorem clear_init (r : Redis) : Clear (State.init r) where
  order := List.Pairwise.nil
  live := fun x hx => by cases hx
  ahead := List.Pairwise.nil
  bound := fun x hx => by cases hx
  alive := fun x hx => by cases hx
  sids := fun x hx => by cases hx

/-- **The condition keeps the invariant.** -/
theorem Clear.step (hwf : Wf s) (h : Clear s) {e : Event} (horder : InIssueOrder s e)
    (halone : Alone s e) (hs : step c s e = some s') : Clear s' := by
  have htables : ∀ calls, TablesOk { s with calls := calls } :=
    fun _ => ⟨hwf.tables.bound, hwf.tables.once, hwf.tables.snapshot⟩
  -- a register under way and a withdrawal behind it
  have hbehind : ∀ {pre post : List Call} {sid : Nat} {b : Binding} {r : Option Reply}
      {settled : Bool} {x : Call} {sid' : Nat} {b' : Binding},
      s.calls = pre ++ ⟨.register sid b, r, settled⟩ :: post → settled = false → sid ∈ s.alive →
      Twin b b' → sid ≠ sid' → x ∈ post ++ s.tasks.map (fun t => { task := t }) →
      x.task = .withdraw sid' b' → x.reply = none → False := by
    intro pre post sid b r settled x sid' b' hcalls hset hlive htwin hne hx ht hnone
    have hahead := h.ahead
    rw [queue, hcalls, List.append_assoc, List.cons_append, List.pairwise_append,
      List.pairwise_cons] at hahead
    have hno := hahead.2.1.1 x hx sid' b' ht hnone
    rw [← Bool.not_eq_true, registersTwin_iff] at hno
    exact hno ⟨sid, b, rfl, hset, hne, hlive, htwin⟩
  have hgone : ∀ {pre post : List Call} {x : Call}, (pre ++ post).Sublist (pre ++ x :: post) :=
    (List.Sublist.refl _).append (List.sublist_cons_self _ _)
  cases stepped hs with
  | accept => exact h.accept
  | @register sid b hlive =>
    rw [State.handleRegister]
    split
    · refine h.startTask (fun _ _ ht => by cases ht) ?_
      intro sid' b' ht
      obtain ⟨rfl, -⟩ := Task.register.inj ht
      exact h.alive _ hlive
    · exact ⟨h.order, h.live, h.ahead, h.bound, h.alive, h.sids⟩
  | heartbeat hlive =>
    rw [State.handleHeartbeat]
    split
    · exact ⟨h.order, h.live, h.ahead, h.bound, h.alive, h.sids⟩
    · exact h.startTask (fun _ _ ht => by cases ht) (fun _ _ ht => by cases ht)
  | close hlive => exact h.close halone
  | reloadTimer =>
    rw [State.startReload]
    split
    · exact h
    · have hflag : Clear { s with reloading := true } :=
        ⟨h.order, h.live, h.ahead, h.bound, h.alive, h.sids⟩
      exact hflag.startTask (fun _ _ ht => by cases ht) (fun _ _ ht => by cases ht)
  | start ht => exact h.start ht
  | @exec t settled pre post hcalls =>
    have hpre : ∀ x ∈ pre, x.reply.isSome := by
      have hord : ∀ x ∈ s.calls.take pre.length, x.reply.isSome := horder
      rwa [hcalls, List.take_left' rfl] at hord
    cases settled with
    | true =>
      have hsub : (pre ++ [] ++ post).Sublist s.calls := by
        rw [hcalls, List.append_nil]
        exact hgone
      have := h.sublist hsub
      exact ⟨this.order, this.live, this.ahead, this.bound, this.alive, this.sids⟩
    | false =>
      exact h.replace hcalls rfl (fun _ => rfl) (fun _ => rfl) (fun _ => hpre) (fun _ => rfl)
  | @deliver t r settled pre post hcalls =>
    have hsub : (pre ++ post).Sublist s.calls := hcalls ▸ hgone
    have hi : s.calls[pre.length]? = some ⟨t, some r, settled⟩ := by
      rw [hcalls]
      simp
    simp only [Alone, hi, AloneOnReply] at halone
    refine (h.sublist hsub).goesOn (resumed (htables _) t r) ?_ ?_
    · -- a withdrawal is started: the condition speaks of it
      have hno : ∀ {sid : Nat} {b : Binding}, NoTwin s s.calls sid b →
          NoTwin { s with calls := pre ++ post } (pre ++ post) sid b :=
        fun hno => ⟨hno.1, fun x hx => hno.2 x (hsub.subset hx)⟩
      rintro sid b (⟨rfl, hdead, hr⟩ | ⟨rfl, hnot, hr⟩)
      · exact hno (halone hdead hr)
      · refine hno (halone ?_ hr)
        rintro ⟨e, he, rfl, htwin⟩
        exact hnot ⟨e.2, he, htwin⟩
    · -- a withdrawal that is not executed is behind the register
      rintro sid b rfl hlive hr x hx sid' b' ht hnone hne htwin
      have hset : settled = false := h.live _ (List.mem_of_getElem? hi) rfl
      obtain hx | hx := List.mem_append.1 hx
      · obtain hx | hx := List.mem_append.1 hx
        · have hord := h.order
          rw [hcalls, List.pairwise_append] at hord
          have := hord.2.2 x hx _ List.mem_cons_self rfl
          rw [hnone] at this
          cases this
        · exact hbehind hcalls hset hlive htwin hne (List.mem_append_left _ hx) ht hnone
      · exact hbehind hcalls hset hlive htwin hne (List.mem_append_right _ hx) ht hnone
  | @fail t r settled pre rest post hcalls hrest =>
    have hbase : Clear { s with calls := pre ++ rest ++ post } := by
      obtain rfl | ⟨rfl, rfl⟩ := hrest
      · refine h.sublist ?_
        rw [hcalls, List.append_nil]
        exact hgone
      · exact h.replace hcalls rfl (fun hsome => by cases hsome) (fun hno => by cases hno)
          (fun hsome => by cases hsome) (fun hsome => by cases hsome)
    refine hbase.goesOn (resumed (htables _) t .failed) ?_ ?_
    · rintro sid b (⟨-, -, hr⟩ | ⟨-, -, hr | hr⟩) <;> cases hr
    · intro sid b _ _ hr
      cases hr
  | @lose t pre post hcalls => exact h.sublist (hcalls ▸ hgone)
  | tick => exact ⟨h.order, h.live, h.ahead, h.bound, h.alive, h.sids⟩

/-! ## Live registrations are spared -/

theorem Spares.refl_of (hredis : s'.redis = s.redis) (hsnap : s'.snapshot = s.snapshot) :
    Spares sid s s' := by
  intro other b _ _ _ hget
  rw [hredis, hsnap]
  exact ⟨hget, id⟩

/-- The close of a session drops no entry of another live registration. -/
theorem spares_close (hwf : Wf s) (halone : Alone s (.close sid)) :
    Spares sid s (s.onDelSession sid) := by
  intro other b hne _ hb hget
  refine ⟨hget, ?_⟩
  rintro ⟨x, hx, hkey⟩
  refine ⟨x, (mem_drops hwf.tables.snapshot).2 ⟨hx, ?_⟩, hkey⟩
  intro b₀ hb₀ hk
  simp only [List.mem_map, List.mem_filter, decide_eq_true_eq] at hb₀
  obtain ⟨e, ⟨he, hsid⟩, rfl⟩ := hb₀
  exact (halone e he hsid).2 (other, b) hb hne (hkey.symm.trans hk) hget

/-- A withdrawal in Redis meets no twin. -/
theorem spares_script (h : Clear s) {settled : Bool} {pre post calls : List Call}
    (hcalls : s.calls = pre ++ ⟨t, none, settled⟩ :: post) (ht : t = .withdraw sid b) :
    Spares sid s { s with redis := (execute c s.redis t).1, calls := calls } := by
  subst ht
  intro other b' hne _ hb' hget
  refine ⟨?_, id⟩
  have hmem : (⟨.withdraw sid b, none, settled⟩ : Call) ∈ queue s := by
    rw [queue, hcalls]
    simp
  have hno := h.bound _ hmem sid b rfl rfl (other, b') hb' hne
  show (s.redis.withdraw b).get b'.key = some b'.value
  rw [Redis.withdraw_get, if_neg]
  · exact hget
  · rintro ⟨hk, hv⟩
    exact hno ⟨hk, Option.some.inj (hget.symm.trans hv)⟩

/-- A coroutine that cleans up and goes on drops no entry that has a binding. -/
theorem spares_resumed (hsnap : (s.snapshot.map Instance.key).Nodup) {t : Task} {r : Reply}
    (h : Resumed s t r s') {sid : Nat}
    (hclean : (∃ b, t = .withdraw sid b) ∨ (∃ b, t = .register sid b ∧ sid ∉ s.alive) ∨
      ∃ b, t = .refresh sid b ∧ ¬ Bound s sid b) : Spares sid s s' := by
  cases h with
  | rests => exact Spares.refl_of rfl rfl
  | late => exact Spares.refl_of rfl rfl
  | stray => exact Spares.refl_of rfl rfl
  | registered hlive =>
    obtain ⟨b, ht⟩ | ⟨b, ht, hdead⟩ | ⟨b, ht, -⟩ := hclean
    · cases ht
    · obtain ⟨rfl, -⟩ := Task.register.inj ht
      exact absurd hlive hdead
    · cases ht
  | renewed hbound | refused hbound =>
    obtain ⟨b, ht⟩ | ⟨b, ht, -⟩ | ⟨b, ht, hnot⟩ := hclean
    · cases ht
    · cases ht
    · obtain ⟨rfl, rfl⟩ := Task.refresh.inj ht
      exact absurd hbound hnot
  | withdrawn hnone =>
    intro other b _ _ hb hget
    refine ⟨hget, ?_⟩
    rintro ⟨x, hx, hkey⟩
    refine ⟨x, (mem_dropSnapshot hsnap).2 ⟨hx, ?_⟩, hkey⟩
    rw [hkey]
    exact hnone _ hb
  | reloaded =>
    obtain ⟨b, ht⟩ | ⟨b, ht, -⟩ | ⟨b, ht, -⟩ := hclean <;> cases ht

/-- Every step that cleans up. -/
theorem spares_step (hwf : Wf s) (h : Clear s) {e : Event} (halone : Alone s e)
    (hs : step c s e = some s') (hclean : CleansUp s e sid) : Spares sid s s' := by
  have htables : ∀ calls, TablesOk { s with calls := calls } :=
    fun _ => ⟨hwf.tables.bound, hwf.tables.once, hwf.tables.snapshot⟩
  -- the call that a reply or a failure is about
  have hcall : ∀ {x : Call} {pre post : List Call}, s.calls = pre ++ x :: post →
      (e = .deliver pre.length ∨ e = .fail pre.length) →
      (∃ b, x.task = .withdraw sid b) ∨ (∃ b, x.task = .register sid b ∧ sid ∉ s.alive) ∨
        ∃ b, x.task = .refresh sid b ∧ ¬ Bound s sid b := by
    intro x pre post hcalls he
    have hx : s.calls[pre.length]? = some x := by
      rw [hcalls]
      simp
    have hsame : ∀ {i : Nat}, e = .deliver i ∨ e = .fail i → i = pre.length := by
      intro i hi
      obtain rfl | rfl := he <;> obtain hi | hi := hi <;> cases hi <;> rfl
    cases hclean with
    | close => obtain he | he := he <;> cases he
    | script => obtain he | he := he <;> cases he
    | withdrawn he' hi =>
      rw [hsame he', hx] at hi
      obtain rfl := Option.some.inj hi
      exact .inl ⟨_, rfl⟩
    | register he' hi hdead =>
      rw [hsame he', hx] at hi
      obtain rfl := Option.some.inj hi
      exact .inr (.inl ⟨_, rfl, hdead⟩)
    | refresh he' hi hnot =>
      rw [hsame he', hx] at hi
      obtain rfl := Option.some.inj hi
      exact .inr (.inr ⟨_, rfl, hnot⟩)
  cases stepped hs with
  | @close sid' hlive =>
    cases hclean with
    | close => exact spares_close hwf halone
    | withdrawn he => obtain he | he := he <;> cases he
    | register he => obtain he | he := he <;> cases he
    | refresh he => obtain he | he := he <;> cases he
  | @exec t settled pre post hcalls =>
    cases hclean with
    | script hi =>
      rw [hcalls] at hi
      obtain ⟨rfl, -⟩ : t = _ ∧ _ := by simpa using hi
      exact spares_script h hcalls rfl
    | withdrawn he => obtain he | he := he <;> cases he
    | register he => obtain he | he := he <;> cases he
    | refresh he => obtain he | he := he <;> cases he
  | @deliver t r settled pre post hcalls =>
    exact @spares_resumed { s with calls := pre ++ post } _ hwf.tables.snapshot t r
      (resumed (htables _) t r) sid (hcall hcalls (.inl rfl))
  | @fail t r settled pre rest post hcalls hrest =>
    exact @spares_resumed { s with calls := pre ++ rest ++ post } _ hwf.tables.snapshot t .failed
      (resumed (htables _) t .failed) sid (hcall hcalls (.inr rfl))
  | accept => exact Spares.refl_of rfl rfl
  | register =>
    rw [State.handleRegister]
    split <;> exact Spares.refl_of rfl rfl
  | heartbeat =>
    rw [State.handleHeartbeat]
    split <;> exact Spares.refl_of rfl rfl
  | reloadTimer =>
    rw [State.startReload]
    split <;> exact Spares.refl_of rfl rfl
  | start => exact Spares.refl_of rfl rfl
  | lose => exact Spares.refl_of rfl rfl
  | tick =>
    cases hclean with
    | withdrawn he => obtain he | he := he <;> cases he
    | register he => obtain he | he := he <;> cases he
    | refresh he => obtain he | he := he <;> cases he

/-- **Live registrations outlive other sessions.**  In a run in which Redis executes the scripts in
the order of sending and cleaning up is always harmless in the sense of `Alone`, no step that cleans
up after a session takes the key or the snapshot entry of another session's live registration. -/
theorem live_registration_spared {r : Redis} (hr : r.SetsOk) {es : List Event}
    (hcond : Along (step c) (fun s e => InIssueOrder s e ∧ Alone s e) (State.init r) es)
    (hrun : runFrom (step c) (State.init r) es = some s) {e : Event} (halone : Alone s e)
    (hs : step c s e = some s') {sid : Nat} (hclean : CleansUp s e sid) : Spares sid s s' := by
  have hinv : Wf s ∧ Clear s :=
    runFrom_invariant_along (I := fun s => Wf s ∧ Clear s)
      (fun _ _ _ hI hP hs => ⟨hI.1.step hs, Clear.step hI.1 hI.2 hP.1 hP.2 hs⟩)
      ⟨wf_init hr, clear_init r⟩ hcond hrun
  exact spares_step hinv.1 hinv.2 halone hs hclean

/-! ## A process that comes back -/

/-- Two ids of one process. -/
def sibling : Binding := { plain with id := 2 }

/-- Two sessions register `plain` and `b`, and both are told so. -/
def twoSessions (b : Binding) : List Event :=
  [.accept, .accept, .register 1 plain, .start, .exec 0, .deliver 0,
    .register 2 b, .start, .exec 0, .deliver 0]

instance (s : State) (ahead : List Call) (sid : Nat) (b : Binding) :
    Decidable (NoTwin s ahead sid b) :=
  inferInstanceAs (Decidable (_ ∧ _))

instance decidableAloneOnReply (s : State) : (x : Option Call) → Decidable (AloneOnReply s x)
  | some ⟨.register _ _, some _, _⟩ => inferInstanceAs (Decidable (_ → _ → _))
  | some ⟨.refresh _ _, some _, _⟩ => inferInstanceAs (Decidable (_ → _ → _))
  | some ⟨.register _ _, none, _⟩ | some ⟨.refresh _ _, none, _⟩ | some ⟨.withdraw _ _, _, _⟩
  | some ⟨.reload, _, _⟩ | none => .isTrue trivial

instance decidableAlone (s : State) : (e : Event) → Decidable (Alone s e)
  | .close sid => inferInstanceAs (Decidable (∀ e ∈ s.bindings, e.1 = sid → _ ∧ _))
  | .deliver i => decidableAloneOnReply s s.calls[i]?
  | .accept | .register .. | .heartbeat .. | .reloadTimer | .start | .exec _ | .fail _ | .lose _
  | .tick _ => .isTrue trivial

/-- A session with another id is spared. -/
theorem live_registration_spared_sibling :
    ∃ s s', runFrom (step (Config.ofRaw 0)) (State.init {})
        (twoSessions sibling ++ [.close 1, .start]) = some s ∧
      step (Config.ofRaw 0) s (.exec 0) = some s' ∧ s.redis.get plain.key = some plain.value ∧
      s'.redis.get plain.key = none ∧ Spares 1 s s' := by
  have hview : (runFrom (step (Config.ofRaw 0)) (State.init {})
      (twoSessions sibling ++ [.close 1, .start])).bind (fun s =>
        (step (Config.ofRaw 0) s (.exec 0)).map fun s' =>
          (s.redis.get plain.key, s'.redis.get plain.key, s.calls)) =
      some (some plain.value, none, [{ task := .withdraw 1 plain }]) := by
    decide +kernel
  obtain ⟨s, hs, hview⟩ := Option.bind_eq_some_iff.1 hview
  obtain ⟨s', hs', hview⟩ := Option.map_eq_some_iff.1 hview
  simp only [Prod.mk.injEq] at hview
  refine ⟨s, s', hs, hs', hview.1, hview.2.1, ?_⟩
  have halone : Alone s (.exec 0) := trivial
  refine live_registration_spared ⟨List.nodup_nil, fun _ => List.nodup_nil⟩ ?_ hs halone hs' ?_
  · decide +kernel
  · exact CleansUp.script (b := plain) (by rw [hview.2.2]; rfl)

/-- A process reconnects before its old connection is found broken: the close of the old session
drops the entry of the new one, and then its key. -/
theorem reconnected_registration_lost :
    ∃ s s' s'', runFrom (step (Config.ofRaw 0)) (State.init {}) (twoSessions plain) = some s ∧
      Along (step (Config.ofRaw 0)) InIssueOrder (State.init {}) (twoSessions plain) ∧
      (2, .register plain.key, .ok) ∈ s.sent ∧ (2, plain) ∈ s.bindings ∧
      step (Config.ofRaw 0) s (.close 1) = some s' ∧ ¬ Spares 1 s s' ∧
      runFrom (step (Config.ofRaw 0)) s' [.start, .exec 0] = some s'' ∧ (2, plain) ∈ s''.bindings ∧
      s''.redis.get plain.key = none := by
  have hbefore : (runFrom (step (Config.ofRaw 0)) (State.init {}) (twoSessions plain)).map (fun s =>
      (s.bindings, s.snapshot, s.redis.get plain.key)) =
      some ([(1, plain), (2, plain)], [plain.toInstance], some plain.value) := by
    decide +kernel
  have hacked : (runFrom (step (Config.ofRaw 0)) (State.init {}) (twoSessions plain)).map (fun s =>
      (s.alive, s.sent)) =
      some ([1, 2], [(1, .register plain.key, .ok), (2, .register plain.key, .ok)]) := by
    decide +kernel
  have hafter : (runFrom (step (Config.ofRaw 0)) (State.init {}) (twoSessions plain)).bind (fun s =>
      (step (Config.ofRaw 0) s (.close 1)).bind fun s' =>
        (runFrom (step (Config.ofRaw 0)) s' [.start, .exec 0]).map fun s'' =>
          (s'.snapshot, s''.bindings, s''.redis.get plain.key)) = some ([], [(2, plain)], none) := by
    decide +kernel
  obtain ⟨s, hs, hbefore⟩ := Option.map_eq_some_iff.1 hbefore
  rw [hs, Option.bind_some] at hafter
  rw [hs, Option.map_some, Option.some.injEq, Prod.mk.injEq] at hacked
  obtain ⟨s', hs', hafter⟩ := Option.bind_eq_some_iff.1 hafter
  obtain ⟨s'', hs'', hafter⟩ := Option.map_eq_some_iff.1 hafter
  simp only [Prod.mk.injEq] at hbefore hafter
  obtain ⟨hbind, hsnap, hget⟩ := hbefore
  obtain ⟨hsnap', hbind'', hget''⟩ := hafter
  refine ⟨s, s', s'', hs, by decide +kernel, by rw [hacked.2]; simp, by rw [hbind]; simp, hs', ?_, hs'',
    by rw [hbind'']; simp, hget''⟩
  intro hspares
  obtain ⟨x, hx, -⟩ := (hspares 2 plain (by decide) (by rw [hacked.1]; simp) (by rw [hbind]; simp)
    hget).2 ⟨plain.toInstance, by rw [hsnap]; simp, rfl⟩
  rw [hsnap'] at hx
  cases hx

end Invariant

end OpenIdea.Registry
