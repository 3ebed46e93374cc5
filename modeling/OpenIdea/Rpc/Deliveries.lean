import OpenIdea.Rpc.Admission

/-!
# The leases of `DeliverRpc`

A request's lease is made in `AcquireRpc`, returned in an optional, captured by a lambda and moved
into the callable that the task keeps alive. An exception may come at each of these points, and the
task may be over before `DeliverRpc` returns. A request whose lease objects are gone has given its
credit back (`Held.returned`); the main result is `admission_exact`.
-/

set_option autoImplicit false

namespace OpenIdea.Rpc.Admission

open OpenIdea.Lib OpenIdea.Lib.Runs OpenIdea.Lib.Tally

variable {K : Type} [LinearOrder K] {L : Limits}

/-- How far `DeliverRpc` is with a request: the optional is there, the lambda is there, the callable
is there, the task keeps the callable; or an exception leaves the scopes. -/
inductive Stage where
  | acquired
  | captured
  | shared
  | started
  | unwinding
  deriving DecidableEq

/-- The lease objects of an admitted request: the automatic ones, the innermost first, and the one
inside the callable. -/
structure Delivery where
  stack : List Nat
  callable : Option Nat
  stage : Stage

def Delivery.objects (d : Delivery) : List Nat := d.callable.toList ++ d.stack

/-- The admitted requests stand in the order of their tickets. -/
structure Tasks (K : Type) [LinearOrder K] where
  leases : State K
  deliveries : List Delivery

def Tasks.init : Tasks K := ⟨State.init, []⟩

/-- What happens to an admitted request. `fail` is an exception of `HoldSessionTask`, of
`make_shared` or of the coroutine's creation; `leave` is the end of the innermost automatic object;
`finish` is the end of the task's frame, however the handler ended. -/
inductive Action where
  | capture
  | share
  | fail
  | start
  | leave
  | finish

inductive TaskEvent (K : Type) where
  | deliver (key : K) (bytes : Nat)
  | act (j : Nat) (action : Action)

/-- A lease event, and what becomes of the request at `j`. -/
def Tasks.change (L : Limits) (s : Tasks K) (e : Event K) (j : Nat) (d : Delivery) :
    Option (Tasks K) :=
  (Admission.step L s.leases e).map fun leases => ⟨leases, s.deliveries.set j d⟩

def Tasks.keep (s : Tasks K) (j : Nat) (d : Delivery) : Tasks K :=
  { s with deliveries := s.deliveries.set j d }

/-- What `DeliverRpc` and its task do with the lease objects of the request at `j`. -/
def Tasks.advance (L : Limits) (s : Tasks K) (j : Nat) (d : Delivery) : Action → Option (Tasks K)
  | .capture =>
      match d.stage, d.stack with
      | .acquired, i :: _ =>
          s.change L (.move i) j
            { d with stack := s.leases.objects.length :: d.stack, stage := .captured }
      | _, _ => none
  | .share =>
      match d.stage, d.stack, d.callable with
      | .captured, i :: _, none =>
          s.change L (.move i) j { d with callable := some s.leases.objects.length, stage := .shared }
      | _, _, _ => none
  | .fail =>
      match d.stage, d.callable with
      | .acquired, none => some (s.keep j { d with stage := .unwinding })
      | .captured, none => some (s.keep j { d with stage := .unwinding })
      | .shared, some i => s.change L (.destroy i) j { d with callable := none, stage := .unwinding }
      | _, _ => none
  | .start =>
      match d.stage with
      | .shared => some (s.keep j { d with stage := .started })
      | _ => none
  | .leave =>
      match d.stage, d.stack with
      | .started, i :: rest => s.change L (.destroy i) j { d with stack := rest }
      | .unwinding, i :: rest => s.change L (.destroy i) j { d with stack := rest }
      | _, _ => none
  | .finish =>
      match d.stage, d.callable with
      | .started, some i => s.change L (.destroy i) j { d with callable := none }
      | _, _ => none

/-- `AcquireRpc` makes a lease, moves it into the optional and leaves its scope. -/
def Tasks.deliver (L : Limits) (s : Tasks K) (key : K) (bytes : Nat) : Option (Tasks K) :=
  let n := s.leases.objects.length
  if Refuses L s.leases.admission key bytes then some s
  else
    (runFrom (Admission.step L) s.leases [.acquire key bytes, .move n, .destroy n]).map fun leases =>
      ⟨leases, s.deliveries ++ [⟨[n + 1], none, .acquired⟩]⟩

def Tasks.step (L : Limits) (s : Tasks K) : TaskEvent K → Option (Tasks K)
  | .deliver key bytes => s.deliver L key bytes
  | .act j action =>
      match s.deliveries[j]? with
      | some d => s.advance L j d action
      | none => none

/-! ### What an action does to the objects -/

variable {d d' : Delivery} {i j : Nat} {s s' : Tasks K}

theorem advance_cases {action : Action} (h : s.advance L j d action = some s') :
    (∃ i d', i ∈ d.objects ∧ d'.objects.Perm (s.leases.objects.length :: d.objects) ∧
      s.change L (.move i) j d' = some s') ∨
    (∃ i d', d.objects.Perm (i :: d'.objects) ∧ s.change L (.destroy i) j d' = some s') ∨
      ∃ d', d'.objects = d.objects ∧ s' = s.keep j d' := by
  obtain ⟨stack, callable, stage⟩ := d
  cases action with
  | capture =>
    rw [Tasks.advance] at h
    split at h
    · rename_i i rest hstage hstack
      dsimp only at hstage hstack
      subst hstack
      refine Or.inl ⟨i, _, ?_, ?_, h⟩
      · exact List.mem_append_right _ List.mem_cons_self
      · exact List.perm_middle
    · cases h
  | share =>
    rw [Tasks.advance] at h
    split at h
    · rename_i i rest hstage hstack hcallable
      dsimp only at hstack hcallable
      subst hstack hcallable
      exact Or.inl ⟨i, _, List.mem_append_right _ List.mem_cons_self, List.Perm.refl _, h⟩
    · cases h
  | fail =>
    rw [Tasks.advance] at h
    split at h
    · exact Or.inr (Or.inr ⟨⟨stack, callable, .unwinding⟩, rfl, (Option.some.inj h).symm⟩)
    · exact Or.inr (Or.inr ⟨⟨stack, callable, .unwinding⟩, rfl, (Option.some.inj h).symm⟩)
    · rename_i i hstage hcallable
      dsimp only at hcallable
      subst hcallable
      exact Or.inr (Or.inl ⟨i, _, List.Perm.refl _, h⟩)
    · cases h
  | start =>
    rw [Tasks.advance] at h
    split at h
    · exact Or.inr (Or.inr ⟨⟨stack, callable, .started⟩, rfl, (Option.some.inj h).symm⟩)
    · cases h
  | leave =>
    rw [Tasks.advance] at h
    split at h
    · rename_i i rest hstage hstack
      dsimp only at hstack
      subst hstack
      exact Or.inr (Or.inl ⟨i, _, List.perm_middle, h⟩)
    · rename_i i rest hstage hstack
      dsimp only at hstack
      subst hstack
      exact Or.inr (Or.inl ⟨i, _, List.perm_middle, h⟩)
    · cases h
  | finish =>
    rw [Tasks.advance] at h
    split at h
    · rename_i i hstage hcallable
      dsimp only at hcallable
      subst hcallable
      exact Or.inr (Or.inl ⟨i, _, List.Perm.refl _, h⟩)
    · cases h

/-- Every lease object belongs to the request of its ticket, and no credit is held elsewhere. -/
structure Held (s : Tasks K) : Prop where
  granted : s.leases.granted = s.deliveries.length
  owned : ∀ (j : Nat) (d : Delivery), s.deliveries[j]? = some d → ∀ i ∈ d.objects,
    ∃ o, s.leases.objects[i]? = some (some o) ∧ o.ticket = j
  nodup : ∀ (j : Nat) (d : Delivery), s.deliveries[j]? = some d → d.objects.Nodup
  held : ∀ (i : Nat) (o : Object K), s.leases.objects[i]? = some (some o) →
    o.lease.acquired = true → ∃ d, s.deliveries[o.ticket]? = some d ∧ i ∈ d.objects

theorem held_init : Held (Tasks.init : Tasks K) where
  granted := rfl
  owned := fun j d hd => by cases hd
  nodup := fun j d hd => by cases hd
  held := fun i o ho => by cases ho

theorem mem_set {l : List Delivery} {t : Nat} (hd : l[j]? = some d)
    (hmem : ∃ d₀, l[t]? = some d₀ ∧ i ∈ d₀.objects) (hkeep : t = j → i ∈ d.objects → i ∈ d'.objects)
    : ∃ d₀, (l.set j d')[t]? = some d₀ ∧ i ∈ d₀.objects := by
  obtain ⟨d₀, hd₀, hi⟩ := hmem
  by_cases ht : t = j
  · subst ht
    obtain rfl := Option.some.inj (hd₀.symm.trans hd)
    exact ⟨d', (getElem?_set_iff hd).2 (Or.inl ⟨rfl, rfl⟩), hkeep rfl hi⟩
  · exact ⟨d₀, (getElem?_set_iff hd).2 (Or.inr ⟨ht, hd₀⟩), hi⟩

/-- The objects of a request stand as they stood. -/
theorem Held.keep (h : Held s) (hd : s.deliveries[j]? = some d) (hobjects : d'.objects = d.objects)
    :
    Held (s.keep j d') where
  granted := h.granted.trans List.length_set.symm
  owned := fun t d₀ hd₀ i hi => by
    rcases getElem?_set_cases hd₀ with ⟨rfl, rfl⟩ | ⟨-, hd₀⟩
    · exact h.owned t d hd i (hobjects ▸ hi)
    · exact h.owned t d₀ hd₀ i hi
  nodup := fun t d₀ hd₀ => by
    rcases getElem?_set_cases hd₀ with ⟨rfl, rfl⟩ | ⟨-, hd₀⟩
    · exact hobjects ▸ h.nodup t d hd
    · exact h.nodup t d₀ hd₀
  held := fun i o ho hacq => mem_set hd (h.held i o ho hacq) fun _ hi => hobjects ▸ hi

theorem step_move {s s' : State K} {o : Object K} (ho : s.objects[i]? = some (some o))
    (h : step L s (.move i) = some s') :
    s'.objects = s.objects.set i (some o.movedFrom) ++ [some o] ∧ s'.granted = s.granted := by
  rw [step, ho] at h
  obtain rfl := Option.some.inj h
  exact ⟨rfl, rfl⟩

theorem step_destroy {s s' : State K} (hacc : Accounted L s) {o : Object K}
    (ho : s.objects[i]? = some (some o)) (h : step L s (.destroy i) = some s') :
    s'.objects = s.objects.set i none ∧ s'.granted = s.granted := by
  rw [step, ho] at h
  cases hacq : o.lease.acquired with
  | true =>
    obtain ⟨a, ha, -⟩ := hacc.destroy ho hacq
    dsimp only at h
    rw [ha] at h
    obtain rfl := Option.some.inj h
    exact ⟨rfl, rfl⟩
  | false =>
    dsimp only at h
    rw [release, if_pos hacq] at h
    obtain rfl := Option.some.inj h
    exact ⟨rfl, rfl⟩

/-- A move puts the new object beside the old ones. -/
theorem Held.move (h : Held s) (hd : s.deliveries[j]? = some d) (hi : i ∈ d.objects)
    (hobjects : d'.objects.Perm (s.leases.objects.length :: d.objects))
    (hs : s.change L (.move i) j d' = some s') : Held s' := by
  obtain ⟨o, ho, hticket⟩ := h.owned j d hd i hi
  obtain ⟨leases, hstep, rfl⟩ := Option.map_eq_some_iff.1 hs
  obtain ⟨hlist, hgranted⟩ := step_move ho hstep
  -- an object that was there still is, with its ticket
  have hstay : ∀ (k : Nat) (p : Object K), s.leases.objects[k]? = some (some p) →
      ∃ p' : Object K, leases.objects[k]? = some (some p') ∧ p'.ticket = p.ticket := by
    intro k p hp
    rw [hlist]
    by_cases hk : k = i
    · subst hk
      obtain rfl := Option.some.inj (Option.some.inj (ho.symm.trans hp))
      refine ⟨o.movedFrom, getElem?_concat_iff.2 (Or.inl ?_), rfl⟩
      exact (getElem?_set_iff ho).2 (Or.inl ⟨rfl, rfl⟩)
    · refine ⟨p, getElem?_concat_iff.2 (Or.inl ?_), rfl⟩
      exact (getElem?_set_iff ho).2 (Or.inr ⟨hk, hp⟩)
  have hnew : leases.objects[s.leases.objects.length]? = some (some o) := by
    rw [hlist]
    exact getElem?_concat_iff.2 (Or.inr ⟨List.length_set.symm, rfl⟩)
  refine ⟨?_, fun t d₀ hd₀ k hk => ?_, fun t d₀ hd₀ => ?_, fun k p hp hacq => ?_⟩
  · rw [hgranted, h.granted]
    exact List.length_set.symm
  · rcases getElem?_set_cases hd₀ with ⟨rfl, rfl⟩ | ⟨-, hd₀⟩
    · rcases List.mem_cons.1 (hobjects.subset hk) with rfl | hk
      · exact ⟨o, hnew, hticket⟩
      · obtain ⟨p, hp, hpt⟩ := h.owned t d hd k hk
        obtain ⟨p', hp', hsame⟩ := hstay k p hp
        exact ⟨p', hp', hsame.trans hpt⟩
    · obtain ⟨p, hp, hpt⟩ := h.owned t d₀ hd₀ k hk
      obtain ⟨p', hp', hsame⟩ := hstay k p hp
      exact ⟨p', hp', hsame.trans hpt⟩
  · rcases getElem?_set_cases hd₀ with ⟨rfl, rfl⟩ | ⟨-, hd₀⟩
    · refine hobjects.nodup_iff.2 (List.nodup_cons.2 ⟨fun hk => ?_, h.nodup t d hd⟩)
      obtain ⟨p, hp, -⟩ := h.owned t d hd _ hk
      exact absurd (List.getElem?_eq_some_iff.1 hp).1 (Nat.lt_irrefl _)
    · exact h.nodup t d₀ hd₀
  · rw [hlist] at hp
    rcases getElem?_concat_iff.1 hp with hp | ⟨hk, hp⟩
    · rcases getElem?_set_cases hp with ⟨-, hmoved⟩ | ⟨-, hp⟩
      · obtain rfl := Option.some.inj hmoved
        cases hacq
      · exact mem_set hd (h.held k p hp hacq) fun _ hk =>
          hobjects.symm.subset (List.mem_cons_of_mem _ hk)
    · obtain rfl := Option.some.inj hp
      refine ⟨d', (getElem?_set_iff hd).2 (Or.inl ⟨hticket, rfl⟩), hobjects.symm.subset ?_⟩
      rw [hk, List.length_set]
      exact List.mem_cons_self

/-- A destroyed object leaves its request. -/
theorem Held.destroy (h : Held s) (hacc : Accounted L s.leases) (hd : s.deliveries[j]? = some d)
    (hobjects : d.objects.Perm (i :: d'.objects)) (hs : s.change L (.destroy i) j d' = some s') :
    Held s' := by
  obtain ⟨o, ho, hticket⟩ := h.owned j d hd i (hobjects.symm.subset List.mem_cons_self)
  obtain ⟨leases, hstep, rfl⟩ := Option.map_eq_some_iff.1 hs
  obtain ⟨hlist, hgranted⟩ := step_destroy hacc ho hstep
  obtain ⟨hgone, hnodup⟩ := List.nodup_cons.1 (hobjects.nodup_iff.1 (h.nodup j d hd))
  have hstay : ∀ (k : Nat) (p : Object K), k ≠ i → s.leases.objects[k]? = some (some p) →
      leases.objects[k]? = some (some p) := by
    intro k p hk hp
    rw [hlist]
    exact (getElem?_set_iff ho).2 (Or.inr ⟨hk, hp⟩)
  refine ⟨?_, fun t d₀ hd₀ k hk => ?_, fun t d₀ hd₀ => ?_, fun k p hp hacq => ?_⟩
  · rw [hgranted, h.granted]
    exact List.length_set.symm
  · rcases getElem?_set_cases hd₀ with ⟨rfl, rfl⟩ | ⟨hne, hd₀⟩
    · obtain ⟨p, hp, hpt⟩ := h.owned t d hd k (hobjects.symm.subset (List.mem_cons_of_mem _ hk))
      exact ⟨p, hstay k p (fun he => hgone (he ▸ hk)) hp, hpt⟩
    · obtain ⟨p, hp, hpt⟩ := h.owned t d₀ hd₀ k hk
      refine ⟨p, hstay k p ?_ hp, hpt⟩
      rintro rfl
      obtain rfl := Option.some.inj (Option.some.inj (ho.symm.trans hp))
      exact hne (hpt.symm.trans hticket)
  · rcases getElem?_set_cases hd₀ with ⟨rfl, rfl⟩ | ⟨-, hd₀⟩
    · exact hnodup
    · exact h.nodup t d₀ hd₀
  · rw [hlist] at hp
    rcases getElem?_set_cases hp with ⟨-, hnone⟩ | ⟨hk, hp⟩
    · cases hnone
    · refine mem_set hd (h.held k p hp hacq) fun _ hmem => ?_
      exact (List.mem_cons.1 (hobjects.subset hmem)).resolve_left hk

theorem acquireRpc_admits {a : RpcAdmission K} {key : K} {bytes : Nat}
    (h : ¬ Refuses L a key bytes) :
    ∃ a', acquireRpc L a key bytes = (a', some ⟨key, bytes, true⟩) := by
  rw [acquireRpc, if_neg h]
  exact ⟨_, rfl⟩

/-- The objects of an admission: the one of `AcquireRpc` is gone, the one in the optional holds the
credit. -/
theorem deliver_objects {s s' : State K} {key : K} {bytes : Nat}
    (haccept : ¬ Refuses L s.admission key bytes)
    (h : runFrom (step L) s
      [.acquire key bytes, .move s.objects.length, .destroy s.objects.length] = some s') :
    s'.objects = s.objects ++ [none] ++ [some ⟨⟨key, bytes, true⟩, s.granted⟩] ∧
      s'.granted = s.granted + 1 := by
  obtain ⟨a, ha⟩ := acquireRpc_admits haccept
  obtain ⟨s₁, h₁, h⟩ := runFrom_cons.1 h
  rw [step, ha] at h₁
  obtain rfl := Option.some.inj h₁
  obtain ⟨s₂, h₂, h⟩ := runFrom_cons.1 h
  obtain ⟨hobjects, hgranted⟩ := step_move (getElem?_concat_iff.2 (Or.inr ⟨rfl, rfl⟩)) h₂
  obtain ⟨s₃, h₃, h⟩ := runFrom_cons.1 h
  obtain rfl := Option.some.inj h
  have hmoved : s₂.objects[s.objects.length]? =
      some (some (⟨⟨key, bytes, false⟩, s.granted⟩ : Object K)) := by
    rw [hobjects]
    refine getElem?_concat_iff.2 (Or.inl ?_)
    rw [List.set_append_right _ _ (Nat.le_refl _), Nat.sub_self]
    exact getElem?_concat_iff.2 (Or.inr ⟨rfl, rfl⟩)
  rw [step, hmoved] at h₃
  obtain rfl := Option.some.inj h₃
  refine ⟨?_, hgranted⟩
  show s₂.objects.set s.objects.length none = _
  rw [hobjects, List.set_append_right _ _ (Nat.le_refl _), Nat.sub_self, List.set_append_left _ _
    (by rw [List.length_append]; exact Nat.lt_succ_self _), List.set_append_right _ _ (Nat.le_refl _),
    Nat.sub_self]
  rfl

theorem Held.deliver {s s' : Tasks K} (h : Held s) {key : K} {bytes : Nat}
    (hs : s.deliver L key bytes = some s') : Held s' := by
  rw [Tasks.deliver] at hs
  by_cases hrefused : Refuses L s.leases.admission key bytes
  · rw [if_pos hrefused] at hs
    obtain rfl := Option.some.inj hs
    exact h
  · rw [if_neg hrefused] at hs
    obtain ⟨leases, hrun, rfl⟩ := Option.map_eq_some_iff.1 hs
    obtain ⟨hlist, hgranted⟩ := deliver_objects hrefused hrun
    have hstay : ∀ (k : Nat) (b : Option (Object K)), s.leases.objects[k]? = some b →
        leases.objects[k]? = some b := by
      intro k b hb
      rw [hlist]
      exact getElem?_concat_iff.2 (Or.inl (getElem?_concat_iff.2 (Or.inl hb)))
    refine ⟨?_, fun t d hd k hk => ?_, fun t d hd => ?_, fun k p hp hacq => ?_⟩
    · rw [hgranted, h.granted, List.length_append]
      rfl
    · rcases getElem?_concat_iff.1 hd with hd | ⟨rfl, rfl⟩
      · obtain ⟨p, hp, hpt⟩ := h.owned t d hd k hk
        exact ⟨p, hstay k _ hp, hpt⟩
      · obtain rfl := List.mem_singleton.1 hk
        refine ⟨⟨⟨key, bytes, true⟩, s.leases.granted⟩, ?_, h.granted⟩
        rw [hlist]
        refine getElem?_concat_iff.2 (Or.inr ⟨?_, rfl⟩)
        rw [List.length_append]
        rfl
    · rcases getElem?_concat_iff.1 hd with hd | ⟨-, rfl⟩
      · exact h.nodup t d hd
      · exact List.pairwise_singleton _ _
    · rw [hlist] at hp
      rcases getElem?_concat_iff.1 hp with hp | ⟨hk, hp⟩
      · rcases getElem?_concat_iff.1 hp with hp | ⟨-, hnone⟩
        · obtain ⟨d, hd, hk⟩ := h.held k p hp hacq
          exact ⟨d, getElem?_concat_iff.2 (Or.inl hd), hk⟩
        · cases hnone
      · obtain rfl := Option.some.inj hp
        refine ⟨_, getElem?_concat_iff.2 (Or.inr ⟨h.granted, rfl⟩), ?_⟩
        rw [hk, List.length_append]
        exact List.mem_singleton_self _

/-! ### Runs -/

theorem accounted_change (h : Accounted L s.leases) {e : Event K} (hs : s.change L e j d = some s')
    : Accounted L s'.leases := by
  obtain ⟨leases, hstep, rfl⟩ := Option.map_eq_some_iff.1 hs
  exact accounted_step h hstep

theorem tasks_step {e : TaskEvent K} (h : Held s ∧ Accounted L s.leases) (hs : s.step L e = some s')
    : Held s' ∧ Accounted L s'.leases := by
  obtain ⟨hheld, hacc⟩ := h
  cases e with
  | deliver key bytes =>
    refine ⟨hheld.deliver hs, ?_⟩
    rw [Tasks.step, Tasks.deliver] at hs
    split at hs
    · obtain rfl := Option.some.inj hs
      exact hacc
    · obtain ⟨leases, hrun, rfl⟩ := Option.map_eq_some_iff.1 hs
      exact runFrom_invariant (I := Accounted L)
        (fun _ _ _ hs hstep => accounted_step hs hstep) hacc hrun
  | act j action =>
    rw [Tasks.step] at hs
    split at hs
    · rename_i d hd
      rcases advance_cases hs with ⟨i, d', hi, hobjects, hs⟩ | ⟨i, d', hobjects, hs⟩ |
        ⟨d', hobjects, rfl⟩
      · exact ⟨hheld.move hd hi hobjects hs, accounted_change hacc hs⟩
      · exact ⟨hheld.destroy hacc hd hobjects hs, accounted_change hacc hs⟩
      · exact ⟨hheld.keep hd hobjects, hacc⟩
    · cases hs

/-- A request whose lease objects are gone has given its credit back. -/
theorem Held.returned (h : Held s) (hacc : Accounted L s.leases) (hd : s.deliveries[j]? = some d)
    (hover : d.objects = []) : s.leases.returned.count j = 1 := by
  have hnone : s.leases.live (ticketOf j) = 0 := by
    refine tally_eq_zero fun i b hb => ?_
    cases b with
    | none => rfl
    | some o =>
      rw [share, ticketOf]
      split
      · rename_i hacq
        refine if_neg fun hticket => ?_
        obtain ⟨d₀, hd₀, hi⟩ := h.held i o hb hacq
        rw [hticket, hd] at hd₀
        obtain rfl := Option.some.inj hd₀
        rw [hover] at hi
        cases hi
      · rfl
  have honce := hacc.once j
  have hlt : j < s.leases.granted := h.granted ▸ (List.getElem?_eq_some_iff.1 hd).1
  rw [hnone, if_pos hlt] at honce
  omega

/-- **Admission is exact.** In every run of lease events the accounts are those of the live leases,
within the limits; a request is refused exactly if it would break a limit, and then nothing changes;
one that is not refused gets a lease. In every run of requests, however their tasks fail, a request whose lease objects are gone has given
its credit back once. -/
theorem admission_exact (L : Limits) :
    (∀ (es : List (Event K)) (s : State K), runFrom (step L) State.init es = some s →
      Exact L s ∧ ∀ key bytes,
        (Refuses L s.admission key bytes ↔
          L.maxCount < s.admission.total.count + 1 ∨ L.maxBytes < s.admission.total.bytes + bytes ∨
            L.sessionMaxCount < (s.admission.sessions.usage key).count + 1 ∨
            L.sessionMaxBytes < (s.admission.sessions.usage key).bytes + bytes) ∧
        (Refuses L s.admission key bytes → step L s (.acquire key bytes) = some s) ∧
        (¬Refuses L s.admission key bytes → ∃ s', step L s (.acquire key bytes) = some s' ∧
          s'.objects = s.objects ++ [some ⟨⟨key, bytes, true⟩, s.granted⟩] ∧
          s'.granted = s.granted + 1)) ∧
    ∀ (es : List (TaskEvent K)) (s : Tasks K), runFrom (Tasks.step L) Tasks.init es = some s →
      Exact L s.leases ∧
        ∀ (j : Nat) (d : Delivery), s.deliveries[j]? = some d → d.objects = [] →
          s.leases.returned.count j = 1 := by
  constructor
  · intro es s hrun
    have hacc := accounted_run hrun
    refine ⟨hacc.exact, fun key bytes => ⟨refuses_iff hacc.balanced key bytes, fun hrefused => ?_,
      fun hgood => ?_⟩⟩
    · rw [step, acquireRpc, if_pos hrefused]
    · rw [step, acquireRpc, if_neg hgood]
      exact ⟨_, rfl, rfl, rfl⟩
  · intro es s hrun
    obtain ⟨hheld, hacc⟩ := runFrom_invariant (I := fun s : Tasks K => Held s ∧ Accounted L s.leases)
      (fun _ _ _ hs hstep => tasks_step hs hstep) ⟨held_init, accounted_init⟩ hrun
    exact ⟨hacc.exact, fun j d hd hover => hheld.returned hacc hd hover⟩

/-- Room for two requests. -/
def twoRequests : Limits := ⟨2, 100, 2, 100, by decide, by decide, by decide, by decide⟩

/-- Two requests of one session are admitted, a third one is refused; the lease of the first is moved
and destroyed, and the second one is live. -/
theorem admission_exact_twoRequests : ∃ s : State Nat,
    runFrom (step twoRequests) State.init
      [.acquire 1 5, .acquire 1 7, .acquire 1 1, .move 0, .destroy 0, .destroy 2] = some s ∧
    s.granted = 2 ∧ s.returned = [0] ∧ s.admission.total = ⟨1, 7⟩ ∧ Exact twoRequests s := by
  have hend : (runFrom (step twoRequests) (State.init (K := Nat))
      [.acquire 1 5, .acquire 1 7, .acquire 1 1, .move 0, .destroy 0, .destroy 2]).map
      (fun s => (s.granted, s.returned, s.admission.total)) = some (2, [0], ⟨1, 7⟩) := by
    decide +kernel
  obtain ⟨s, hs, hfacts⟩ := Option.map_eq_some_iff.1 hend
  obtain ⟨hgranted, hlists⟩ := Prod.mk.inj hfacts
  obtain ⟨hreturned, htotal⟩ := Prod.mk.inj hlists
  exact ⟨s, hs, hgranted, hreturned, htotal, ((admission_exact twoRequests).1 _ s hs).1⟩

end OpenIdea.Rpc.Admission
