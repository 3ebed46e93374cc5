import OpenIdea.Registry.Server
import OpenIdea.Lib.Keyed

/-!
# Who owns a service id

The invariant of the server's own tables over whole runs, whatever the order in which Redis executes
and answers: a binding belongs to a live session, a session has one binding for a key, and the
snapshot one entry.  On it rests what a refused heartbeat does (`step_of_refused`,
`id_not_stolen_iff`; `owner_entry_dropped` is a run in which the owner loses its entry).
-/

set_option autoImplicit false

namespace OpenIdea.Registry

open OpenIdea.Lib OpenIdea.Lib.Runs

/-! ## The tables -/

section Tables

variable {sid : Nat} {b : Binding} {l : List (Nat × Binding)} {e : Nat × Binding}

theorem isFor_iff {k : Key} : isFor sid k e = true ↔ e.1 = sid ∧ e.2.key = k := by
  simp [isFor]

/-- The session and the key of an entry. -/
def slot (e : Nat × Binding) : Nat × Key := (e.1, e.2.key)

theorem isFor_iff_slot {k : Key} : isFor sid k e = true ↔ slot e = (sid, k) := by
  simp [isFor, slot]

theorem self_mem_rebind : (sid, b) ∈ rebind sid b l := by
  induction l with
  | nil => simp [rebind]
  | cons e l ih =>
    rw [rebind]
    split
    · simp
    · exact List.mem_cons_of_mem _ ih

theorem mem_rebind_of_mem (he : e ∈ l) (hne : slot e ≠ (sid, b.key)) : e ∈ rebind sid b l := by
  induction l with
  | nil => cases he
  | cons x l ih =>
    rw [rebind]
    split
    · rename_i hx
      obtain rfl | he := List.mem_cons.1 he
      · exact absurd (isFor_iff_slot.1 hx) hne
      · exact List.mem_cons_of_mem _ he
    · obtain rfl | he := List.mem_cons.1 he
      · exact List.mem_cons_self
      · exact List.mem_cons_of_mem _ (ih he)

/-- Overwriting adds the slot only where it is new. -/
theorem rebind_slots :
    (rebind sid b l).map slot = l.map slot ∨
      ((sid, b.key) ∉ l.map slot ∧ (rebind sid b l).map slot = l.map slot ++ [(sid, b.key)]) := by
  induction l with
  | nil => exact .inr ⟨by simp, rfl⟩
  | cons x l ih =>
    rw [rebind]
    split
    · rename_i hx
      refine .inl ?_
      rw [List.map_cons, List.map_cons, isFor_iff_slot.1 hx]
      rfl
    · rename_i hx
      have hx' : slot x ≠ (sid, b.key) := fun h => hx (isFor_iff_slot.2 h)
      rw [List.map_cons, List.map_cons]
      obtain h | ⟨h1, h2⟩ := ih
      · exact .inl (by rw [h])
      · refine .inr ⟨?_, by rw [h2, List.cons_append]⟩
        intro hmem
        obtain h | h := List.mem_cons.1 hmem
        · exact hx' h.symm
        · exact h1 h

theorem nodup_rebind (h : (l.map slot).Nodup) : ((rebind sid b l).map slot).Nodup := by
  obtain heq | ⟨hnew, heq⟩ := @rebind_slots sid b l
  · rw [heq]
    exact h
  · rw [heq, List.nodup_append]
    refine ⟨h, List.nodup_singleton _, ?_⟩
    intro a ha c hc hac
    rw [List.mem_singleton] at hc
    exact hnew (hc ▸ hac ▸ ha)

theorem mem_of_mem_rebind (h : e ∈ rebind sid b l) : e = (sid, b) ∨ e ∈ l := by
  induction l with
  | nil => exact .inl (List.mem_singleton.1 h)
  | cons x l ih =>
    rw [rebind] at h
    split at h
    · obtain rfl | h := List.mem_cons.1 h
      · exact .inl rfl
      · exact .inr (List.mem_cons_of_mem _ h)
    · obtain rfl | h := List.mem_cons.1 h
      · exact .inr List.mem_cons_self
      · exact (ih h).imp_right (List.mem_cons_of_mem _)

end Tables

section Snapshots

variable {l : List Instance} {k : Key} {b : Binding} {e : Instance}

/-- `DropSnapshot` takes away the entry of its key and no other. -/
theorem mem_dropSnapshot (h : (l.map Instance.key).Nodup) :
    e ∈ dropSnapshot l k ↔ e ∈ l ∧ e.key ≠ k := by
  rw [dropSnapshot, Keyed.mem_eraseP h (fun x hx => by simpa using hx)]
  simp

theorem nodup_dropSnapshot (h : (l.map Instance.key).Nodup) :
    ((dropSnapshot l k).map Instance.key).Nodup :=
  Keyed.nodup_eraseP h

theorem nodup_putSnapshot (h : (l.map Instance.key).Nodup) :
    ((putSnapshot l b).map Instance.key).Nodup := by
  apply Keyed.nodup_concat (nodup_dropSnapshot h)
  intro y hy
  exact ((mem_dropSnapshot h).1 hy).2

theorem nodup_drops {bs : List Binding} (h : (l.map Instance.key).Nodup) :
    ((bs.foldl (fun l b => dropSnapshot l b.key) l).map Instance.key).Nodup := by
  induction bs generalizing l with
  | nil => exact h
  | cons b bs ih => exact ih (nodup_dropSnapshot h)

/-- What `OnDelSession` leaves of the snapshot. -/
theorem mem_drops {bs : List Binding} (h : (l.map Instance.key).Nodup) :
    e ∈ bs.foldl (fun l b => dropSnapshot l b.key) l ↔ e ∈ l ∧ ∀ b ∈ bs, e.key ≠ b.key := by
  induction bs generalizing l with
  | nil => simp
  | cons b bs ih =>
    rw [List.foldl_cons, ih (nodup_dropSnapshot h), mem_dropSnapshot h, List.forall_mem_cons]
    exact and_assoc

/-- Of a listing with distinct keys `Reload` makes a snapshot with distinct keys. -/
theorem nodup_parsed {l : List (Key × Text)} (h : (l.map Prod.fst).Nodup) :
    ((l.filterMap fun e => (parseValue e.2).map fun (ip, port, zone) =>
      (⟨e.1.name, e.1.id, ip, port, zone⟩ : Instance)).map Instance.key).Nodup := by
  apply List.Nodup.sublist _ h
  induction l with
  | nil => exact List.Sublist.refl _
  | cons a l ih =>
    rw [List.map_cons, List.nodup_cons] at h
    cases ha : parseValue a.2 with
    | none =>
      rw [List.filterMap_cons_none (by rw [ha]; rfl), List.map_cons]
      exact (ih h.2).cons _
    | some v =>
      rw [List.filterMap_cons_some (by rw [ha]; rfl), List.map_cons, List.map_cons]
      exact (ih h.2).cons_cons _

end Snapshots

/-! ## The invariant -/

/-- The server's own tables. -/
structure TablesOk (s : State) : Prop where
  /-- only live sessions have bindings -/
  bound : ∀ e ∈ s.bindings, e.1 ∈ s.alive
  /-- a session has one binding for a key -/
  once : (s.bindings.map slot).Nodup
  /-- the snapshot has one entry for a key -/
  snapshot : (s.snapshot.map Instance.key).Nodup

/-- A listing that Redis answered names no key twice. -/
def ListingsOk (calls : List Call) : Prop :=
  ∀ x ∈ calls, ∀ l, x.reply = some (.listing l) → (l.map Prod.fst).Nodup

/-- With what Redis holds and has answered. -/
structure Wf (s : State) : Prop where
  tables : TablesOk s
  sets : s.redis.SetsOk
  listings : ListingsOk s.calls

section Steps

variable {c : Config} {s s' : State}

theorem findBinding_eq {sid : Nat} {k : Key} {b : Binding} (h : TablesOk s)
    (hb : (sid, b) ∈ s.bindings) (hk : b.key = k) : s.findBinding sid k = some b := by
  have hslot : slot (sid, b) = (sid, k) := by rw [slot, hk]
  rw [State.findBinding, Keyed.find?_eq h.once (fun x => isFor_iff_slot) hb hslot]
  rfl

theorem mem_of_findBinding {sid : Nat} {k : Key} {b : Binding} (h : s.findBinding sid k = some b) :
    (sid, b) ∈ s.bindings ∧ b.key = k := by
  obtain ⟨e, he, rfl⟩ := Option.map_eq_some_iff.1 h
  obtain ⟨h1, h2⟩ := isFor_iff.1 (List.find?_some he)
  exact ⟨h1 ▸ List.mem_of_find?_eq_some he, h2⟩

/-- No heartbeat is refused in these answers. -/
def NoRefusal (log : List (Nat × Ask × Result)) : Prop :=
  ∀ x ∈ log, ∀ k, x.2 ≠ (.heartbeat k, .exist)

/-- A session's binding has the key and the value of `b`. -/
def Bound (s : State) (sid : Nat) (b : Binding) : Prop :=
  ∃ b₀, (sid, b₀) ∈ s.bindings ∧ b₀.key = b.key ∧ b₀.value = b.value

/-- When a coroutine that goes on leaves the tables alone. -/
def Rests (s : State) : Task → Reply → Prop
  | .register _ _, r => r.replyInt ≠ .ok
  | .refresh sid b, r => (r.replyInt = .ok → Bound s sid b) ∧ r.replyInt ≠ .renewed
  | .withdraw _ b, _ => ∃ e ∈ s.bindings, e.2.key = b.key
  | .reload, r => ∀ l, r ≠ .listing l

/-- **What a coroutine that goes on can do.** -/
inductive Resumed (s : State) : Task → Reply → State → Prop
  | rests {t : Task} {r : Reply} {log : List (Nat × Ask × Result)} {reloading : Bool}
      (h : Rests s t r) (hlog : NoRefusal log) :
      Resumed s t r { s with sent := s.sent ++ log, reloading := reloading }
  /-- a registration came too late and is withdrawn -/
  | late {sid : Nat} {b : Binding} {r : Reply} (hdead : sid ∉ s.alive) (hr : r.replyInt = .ok) :
      Resumed s (.register sid b) r (s.issue (.withdraw sid b))
  /-- a refresh without its binding is withdrawn -/
  | stray {sid : Nat} {b : Binding} {r : Reply} (hnot : ¬ Bound s sid b)
      (hr : r.replyInt = .ok ∨ r.replyInt = .renewed) :
      Resumed s (.refresh sid b) r (s.issue (.withdraw sid b))
  | registered {sid : Nat} {b : Binding} {r : Reply} (hlive : sid ∈ s.alive)
      (hr : r.replyInt = .ok) :
      Resumed s (.register sid b) r
        ({ s with
            bindings := rebind sid b s.bindings
            snapshot := putSnapshot s.snapshot b }.answer sid (.register b.key) .ok)
  | renewed {sid : Nat} {b : Binding} {r : Reply} (hbound : Bound s sid b)
      (hr : r.replyInt = .renewed) :
      Resumed s (.refresh sid b) r
        ({ s with snapshot := putSnapshot s.snapshot b }.answer sid (.heartbeat b.key) .ok)
  | refused {sid : Nat} {b : Binding} {r : Reply} (hbound : Bound s sid b)
      (hr : r.replyInt = .taken) :
      Resumed s (.refresh sid b) r
        ({ s with
            bindings := s.bindings.eraseP (isFor sid b.key)
            snapshot := s.snapshot.eraseP (pointsAt b) }.answer sid (.heartbeat b.key) .exist)
  | withdrawn {sid : Nat} {b : Binding} {r : Reply} (hnone : ∀ e ∈ s.bindings, e.2.key ≠ b.key) :
      Resumed s (.withdraw sid b) r { s with snapshot := dropSnapshot s.snapshot b.key }
  | reloaded {l : List (Key × Text)} :
      Resumed s .reload (.listing l) (s.afterReload (.listing l))

/-- `FindBinding` with its guard, as `Refresh` uses it. -/
theorem found_iff_bound (h : TablesOk s) (sid : Nat) (b : Binding) :
    (if sid ∈ s.alive then s.findBinding sid b.key else none).map Binding.value = some b.value ↔
      Bound s sid b := by
  constructor
  · intro hf
    split at hf
    · obtain ⟨b₀, hb₀, hv⟩ := Option.map_eq_some_iff.1 hf
      obtain ⟨hmem, hk⟩ := mem_of_findBinding hb₀
      exact ⟨b₀, hmem, hk, hv⟩
    · cases hf
  · rintro ⟨b₀, hmem, hk, hv⟩
    rw [if_pos (h.bound _ hmem), findBinding_eq h hmem hk, Option.map_some, hv]

theorem resumed (h : TablesOk s) (t : Task) (r : Reply) : Resumed s t r (s.resume t r) := by
  have hstay : ∀ {t : Task} {r : Reply} {log : List (Nat × Ask × Result)}, Rests s t r →
      NoRefusal log → Resumed s t r { s with sent := s.sent ++ log } :=
    fun hrests hlog => .rests hrests hlog
  have hnil : NoRefusal [] := fun x hx => by cases hx
  have hone : ∀ {x : Nat × Ask × Result}, (∀ k, x.2 ≠ (.heartbeat k, .exist)) → NoRefusal [x] := by
    intro x hx y hy
    rw [List.mem_singleton.1 hy]
    exact hx
  have hsame : { s with sent := s.sent ++ [] } = s := by rw [List.append_nil]
  cases t with
  | register sid b =>
    simp only [State.resume, State.afterRegister]
    by_cases hlive : sid ∈ s.alive
    · rw [if_neg (not_not.2 hlive)]
      cases hr : r.replyInt with
      | ok => exact .registered hlive hr
      | taken => exact hstay (by simp [Rests, hr]) (hone (by simp))
      | fail => exact hstay (by simp [Rests, hr]) (hone (by simp))
      | renewed => exact hstay (by simp [Rests, hr]) (hone (by simp))
    · rw [if_pos hlive]
      by_cases hr : r.replyInt = .ok
      · rw [if_pos hr]
        exact .late hlive hr
      · rw [if_neg hr]
        have := @hstay (.register sid b) r [] hr hnil
        rwa [hsame] at this
  | refresh sid b =>
    simp only [State.resume, State.afterRefresh]
    by_cases hbound : Bound s sid b
    · rw [if_neg (not_not.2 ((found_iff_bound h sid b).2 hbound))]
      cases hr : r.replyInt with
      | renewed => exact .renewed hbound hr
      | taken => exact .refused hbound hr
      | ok => exact hstay ⟨fun _ => hbound, by simp [hr]⟩ (hone (by simp))
      | fail => exact hstay ⟨fun _ => hbound, by simp [hr]⟩ (hone (by simp))
    · rw [if_pos (fun hf => hbound ((found_iff_bound h sid b).1 hf))]
      by_cases hr : r.replyInt = .ok ∨ r.replyInt = .renewed
      · rw [if_pos hr]
        exact .stray hbound hr
      · rw [if_neg hr]
        have := @hstay (.refresh sid b) r []
          ⟨fun hok => absurd (.inl hok) hr, fun hren => hr (.inr hren)⟩ hnil
        rwa [hsame] at this
  | withdraw sid b =>
    simp only [State.resume, State.afterWithdraw]
    by_cases hany : s.bindings.any (·.2.key = b.key)
    · rw [if_pos hany]
      have := @hstay (.withdraw sid b) r [] (by simpa [Rests] using hany) hnil
      rwa [hsame] at this
    · rw [if_neg hany]
      exact .withdrawn (by simpa using hany)
  | reload =>
    cases r with
    | listing l => exact .reloaded
    | code c =>
      have : Resumed s .reload (.code c) { s with sent := s.sent ++ [], reloading := false } :=
        .rests (by simp [Rests]) hnil
      rwa [List.append_nil] at this
    | failed =>
      have : Resumed s .reload .failed { s with sent := s.sent ++ [], reloading := false } :=
        .rests (by simp [Rests]) hnil
      rwa [List.append_nil] at this

/-! ## Steps -/

/-- **What an event does**, with the list of calls taken apart at the call it is about. -/
inductive Stepped (c : Config) (s : State) : Event → State → Prop
  | accept : Stepped c s .accept s.onAddSession
  | register {sid : Nat} {b : Binding} (h : sid ∈ s.alive) :
      Stepped c s (.register sid b) (s.handleRegister sid b)
  | heartbeat {sid : Nat} {k : Key} (h : sid ∈ s.alive) :
      Stepped c s (.heartbeat sid k) (s.handleHeartbeat sid k)
  | close {sid : Nat} (h : sid ∈ s.alive) : Stepped c s (.close sid) (s.onDelSession sid)
  | reloadTimer : Stepped c s .reloadTimer s.startReload
  | start {t : Task} {ts : List Task} (h : s.tasks = t :: ts) :
      Stepped c s .start ({ s with tasks := ts }.issue t)
  | exec {t : Task} {settled : Bool} {pre post : List Call}
      (h : s.calls = pre ++ ⟨t, none, settled⟩ :: post) :
      Stepped c s (.exec pre.length)
        { s with
          redis := (execute c s.redis t).1
          calls := pre ++ (if settled then [] else [⟨t, some (execute c s.redis t).2, false⟩]) ++ post }
  | deliver {t : Task} {r : Reply} {settled : Bool} {pre post : List Call}
      (h : s.calls = pre ++ ⟨t, some r, settled⟩ :: post) :
      Stepped c s (.deliver pre.length) ({ s with calls := pre ++ post }.resume t r)
  /-- an executed call is forgotten, another one stays behind without its coroutine -/
  | fail {t : Task} {r : Option Reply} {settled : Bool} {pre rest post : List Call}
      (h : s.calls = pre ++ ⟨t, r, settled⟩ :: post)
      (hrest : rest = [] ∨ (r = none ∧ rest = [⟨t, none, true⟩])) :
      Stepped c s (.fail pre.length) ({ s with calls := pre ++ rest ++ post }.resume t .failed)
  | lose {t : Task} {pre post : List Call} (h : s.calls = pre ++ ⟨t, none, true⟩ :: post) :
      Stepped c s (.lose pre.length) { s with calls := pre ++ post }
  | tick {d : Nat} : Stepped c s (.tick d) { s with redis := s.redis.advance d }

/-- A list taken apart at an index. -/
theorem split_at {l : List Call} {i : Nat} {x : Call} (h : l[i]? = some x) :
    ∃ pre post, l = pre ++ x :: post ∧ i = pre.length ∧ l.eraseIdx i = pre ++ post ∧
      ∀ y, l.set i y = pre ++ [y] ++ post := by
  obtain ⟨hi, rfl⟩ := List.getElem?_eq_some_iff.1 h
  refine ⟨l.take i, l.drop (i + 1), ?_, ?_, ?_, ?_⟩
  · rw [List.getElem_cons_drop, List.take_append_drop]
  · rw [List.length_take, Nat.min_eq_left (Nat.le_of_lt hi)]
  · exact List.eraseIdx_eq_take_drop_succ l i
  · intro y
    rw [List.set_eq_take_append_cons_drop, if_pos hi, List.append_assoc]
    rfl

theorem stepped {e : Event} (h : step c s e = some s') : Stepped c s e s' := by
  cases e with
  | accept =>
    obtain rfl := Option.some.inj h
    exact .accept
  | register sid b =>
    simp only [step, Option.ite_none_right_eq_some, Option.some.injEq] at h
    obtain ⟨hlive, rfl⟩ := h
    exact .register hlive
  | heartbeat sid k =>
    simp only [step, Option.ite_none_right_eq_some, Option.some.injEq] at h
    obtain ⟨hlive, rfl⟩ := h
    exact .heartbeat hlive
  | close sid =>
    simp only [step, Option.ite_none_right_eq_some, Option.some.injEq] at h
    obtain ⟨hlive, rfl⟩ := h
    exact .close hlive
  | reloadTimer =>
    obtain rfl := Option.some.inj h
    exact .reloadTimer
  | start =>
    cases ht : s.tasks with
    | nil => simp [step, ht] at h
    | cons t ts =>
      simp only [step, ht, Option.some.injEq] at h
      subst h
      exact .start ht
  | exec i =>
    simp only [step] at h
    split at h
    · rename_i t settled hi
      obtain ⟨pre, post, hl, rfl, herase, hset⟩ := split_at hi
      obtain rfl := Option.some.inj h
      have := @Stepped.exec c s t settled pre post hl
      cases settled with
      | true => simpa [herase] using this
      | false => simpa [hset] using this
    · cases h
  | deliver i =>
    simp only [step] at h
    split at h
    · rename_i t r settled hi
      obtain ⟨pre, post, hl, rfl, herase, -⟩ := split_at hi
      obtain rfl := Option.some.inj h
      rw [herase]
      exact .deliver hl
    · cases h
  | fail i =>
    simp only [step] at h
    split at h
    · rename_i t r settled hi
      obtain ⟨pre, post, hl, rfl, herase, -⟩ := split_at hi
      obtain rfl := Option.some.inj h
      have := @Stepped.fail c s t (some r) settled pre [] post hl (.inl rfl)
      simpa [herase] using this
    · rename_i t hi
      obtain ⟨pre, post, hl, rfl, -, hset⟩ := split_at hi
      obtain rfl := Option.some.inj h
      have := @Stepped.fail c s t none false pre [⟨t, none, true⟩] post hl (.inr ⟨rfl, rfl⟩)
      rwa [← hset] at this
    · cases h
  | lose i =>
    simp only [step] at h
    split at h
    · rename_i t hi
      obtain ⟨pre, post, hl, rfl, herase, -⟩ := split_at hi
      obtain rfl := Option.some.inj h
      rw [herase]
      exact .lose hl
    · cases h
  | tick d =>
    obtain rfl := Option.some.inj h
    exact .tick

variable {t : Task} {r : Redis}

/-- A coroutine that goes on keeps the tables. -/
theorem TablesOk.resume (h : TablesOk s) {r : Reply}
    (hr : ∀ l, r = .listing l → (l.map Prod.fst).Nodup) : TablesOk (s.resume t r) := by
  have hres := resumed h t r
  generalize s.resume t r = s₁ at hres ⊢
  cases hres with
  | rests => exact ⟨h.bound, h.once, h.snapshot⟩
  | late => exact ⟨h.bound, h.once, h.snapshot⟩
  | stray => exact ⟨h.bound, h.once, h.snapshot⟩
  | registered hlive =>
    refine ⟨?_, nodup_rebind h.once, nodup_putSnapshot h.snapshot⟩
    intro e he
    obtain rfl | he := mem_of_mem_rebind he
    · exact hlive
    · exact h.bound e he
  | renewed => exact ⟨h.bound, h.once, nodup_putSnapshot h.snapshot⟩
  | refused =>
    refine ⟨?_, Keyed.nodup_eraseP h.once, Keyed.nodup_eraseP h.snapshot⟩
    intro e he
    exact h.bound e (List.mem_of_mem_eraseP he)
  | withdrawn => exact ⟨h.bound, h.once, nodup_dropSnapshot h.snapshot⟩
  | reloaded => exact ⟨h.bound, h.once, nodup_parsed (hr _ rfl)⟩

/-- What a coroutine that goes on does not touch, and what it adds to the calls. -/
theorem Resumed.frame {r : Reply} (h : Resumed s t r s') :
    s'.alive = s.alive ∧ s'.redis = s.redis ∧ s'.tasks = s.tasks ∧ s'.lastSid = s.lastSid ∧
      (s'.calls = s.calls ∨ ∃ sid b, s'.calls = s.calls ++ [⟨.withdraw sid b, none, false⟩]) := by
  cases h with
  | late => exact ⟨rfl, rfl, rfl, rfl, .inr ⟨_, _, rfl⟩⟩
  | stray => exact ⟨rfl, rfl, rfl, rfl, .inr ⟨_, _, rfl⟩⟩
  | rests => exact ⟨rfl, rfl, rfl, rfl, .inl rfl⟩
  | registered => exact ⟨rfl, rfl, rfl, rfl, .inl rfl⟩
  | renewed => exact ⟨rfl, rfl, rfl, rfl, .inl rfl⟩
  | refused => exact ⟨rfl, rfl, rfl, rfl, .inl rfl⟩
  | withdrawn => exact ⟨rfl, rfl, rfl, rfl, .inl rfl⟩
  | reloaded => exact ⟨rfl, rfl, rfl, rfl, .inl rfl⟩

theorem ListingsOk.concat {calls : List Call} (h : ListingsOk calls) (t : Task) :
    ListingsOk (calls ++ [{ task := t }]) := by
  intro x hx l hl
  obtain hx | hx := List.mem_append.1 hx
  · exact h x hx l hl
  · rw [List.mem_singleton.1 hx] at hl
    cases hl

theorem ListingsOk.mono {calls calls' : List Call} (h : ListingsOk calls)
    (hsub : ∀ x ∈ calls', x ∈ calls ∨ x.reply = none) : ListingsOk calls' := by
  intro x hx l hl
  obtain hx | hx := hsub x hx
  · exact h x hx l hl
  · rw [hx] at hl
    cases hl

theorem Wf.resume {calls : List Call} (h : Wf s) (hcalls : ListingsOk calls) {r : Reply}
    (hr : ∀ l, r = .listing l → (l.map Prod.fst).Nodup) :
    Wf ({ s with calls := calls }.resume t r) := by
  have htables : TablesOk { s with calls := calls } :=
    ⟨h.tables.bound, h.tables.once, h.tables.snapshot⟩
  obtain ⟨-, hredis, -, -, hnew⟩ := (resumed htables t r).frame
  refine ⟨htables.resume hr, ?_, ?_⟩
  · rw [hredis]
    exact h.sets
  · obtain heq | ⟨sid, b, heq⟩ := hnew
    · rw [heq]
      exact hcalls
    · rw [heq]
      exact hcalls.concat _

theorem execute_setsOk (h : r.SetsOk) : (execute c r t).1.SetsOk := by
  cases t with
  | register sid b => exact h.register
  | refresh sid b => exact h.refresh
  | withdraw sid b => exact h.withdraw
  | reload => exact h.tidy

theorem execute_listing (h : r.SetsOk) {l : List (Key × Text)} (hl : (execute c r t).2 = .listing l)
    : t = .reload ∧ l = r.listing ∧
      (l.map Prod.fst).Nodup := by
  cases t with
  | register sid b => cases hl
  | refresh sid b => cases hl
  | withdraw sid b => cases hl
  | reload =>
    simp only [execute, Reply.listing.injEq] at hl
    subst hl
    exact ⟨rfl, rfl, h.listing⟩

/-- **The invariant is kept by every event**, in any order of execution and replies. -/
theorem Wf.step (h : Wf s) {e : Event} (hs : step c s e = some s') : Wf s' := by
  obtain ⟨htables, hsets, hlist⟩ := h
  cases stepped hs with
  | accept =>
    refine ⟨⟨?_, htables.once, htables.snapshot⟩, hsets, hlist⟩
    intro e he
    exact List.mem_append_left _ (htables.bound e he)
  | @register sid b hlive =>
    have hsame : TablesOk (s.handleRegister sid b) ∧ (s.handleRegister sid b).redis = s.redis ∧
        (s.handleRegister sid b).calls = s.calls := by
      rw [State.handleRegister]
      split <;> exact ⟨⟨htables.bound, htables.once, htables.snapshot⟩, rfl, rfl⟩
    exact ⟨hsame.1, hsame.2.1 ▸ hsets, hsame.2.2 ▸ hlist⟩
  | @heartbeat sid k hlive =>
    have hsame : TablesOk (s.handleHeartbeat sid k) ∧ (s.handleHeartbeat sid k).redis = s.redis ∧
        (s.handleHeartbeat sid k).calls = s.calls := by
      rw [State.handleHeartbeat]
      split <;> exact ⟨⟨htables.bound, htables.once, htables.snapshot⟩, rfl, rfl⟩
    exact ⟨hsame.1, hsame.2.1 ▸ hsets, hsame.2.2 ▸ hlist⟩
  | @close sid hlive =>
    refine ⟨⟨?_, ?_, nodup_drops htables.snapshot⟩, hsets, hlist⟩
    · intro e he
      simp only [State.onDelSession, List.mem_filter, decide_eq_true_eq] at he ⊢
      exact ⟨htables.bound e he.1, he.2⟩
    · exact htables.once.sublist (List.filter_sublist.map _)
  | reloadTimer =>
    have hsame : TablesOk s.startReload ∧ s.startReload.redis = s.redis ∧
        s.startReload.calls = s.calls := by
      rw [State.startReload]
      split <;> exact ⟨⟨htables.bound, htables.once, htables.snapshot⟩, rfl, rfl⟩
    exact ⟨hsame.1, hsame.2.1 ▸ hsets, hsame.2.2 ▸ hlist⟩
  | start => exact ⟨⟨htables.bound, htables.once, htables.snapshot⟩, hsets, ListingsOk.concat hlist _⟩
  | @exec t settled pre post hcalls =>
    refine ⟨⟨htables.bound, htables.once, htables.snapshot⟩, execute_setsOk hsets, ?_⟩
    intro x hx l hl
    simp only [List.mem_append] at hx
    obtain (hx | hx) | hx := hx
    · exact hlist x (by rw [hcalls]; simp [hx]) l hl
    · split at hx
      · cases hx
      · rw [List.mem_singleton.1 hx] at hl
        exact (execute_listing hsets (Option.some.inj hl)).2.2
    · exact hlist x (by rw [hcalls]; simp [hx]) l hl
  | @deliver t r settled pre post hcalls =>
    have hall : ∀ x ∈ pre ++ post, x ∈ s.calls ∨ x.reply = none := by
      intro x hx
      rw [hcalls]
      obtain hx | hx := List.mem_append.1 hx <;> simp [hx]
    refine Wf.resume ⟨htables, hsets, hlist⟩ (ListingsOk.mono hlist hall) ?_
    intro l hl
    exact hlist ⟨t, some r, settled⟩ (by rw [hcalls]; simp) l (by rw [hl])
  | @fail t r settled pre rest post hcalls hrest =>
    have hall : ∀ x ∈ pre ++ rest ++ post, x ∈ s.calls ∨ x.reply = none := by
      intro x hx
      rw [hcalls]
      simp only [List.mem_append] at hx
      obtain (hx | hx) | hx := hx
      · exact .inl (by simp [hx])
      · obtain rfl | ⟨-, rfl⟩ := hrest
        · cases hx
        · exact .inr (by rw [List.mem_singleton.1 hx])
      · exact .inl (by simp [hx])
    refine Wf.resume ⟨htables, hsets, hlist⟩ (ListingsOk.mono hlist hall) ?_
    intro l hl
    cases hl
  | @lose t pre post hcalls =>
    refine ⟨⟨htables.bound, htables.once, htables.snapshot⟩, hsets, ListingsOk.mono hlist ?_⟩
    intro x hx
    rw [hcalls]
    obtain hx | hx := List.mem_append.1 hx <;> simp [hx]
  | tick => exact ⟨⟨htables.bound, htables.once, htables.snapshot⟩, ⟨hsets.names, hsets.ids⟩, hlist⟩

theorem wf_init (h : r.SetsOk) : Wf (State.init r) := by
  refine ⟨⟨?_, List.nodup_nil, List.nodup_nil⟩, h, ?_⟩
  · intro e he
    cases he
  · intro x hx
    cases hx

/-- Every state of every run. -/
theorem wf_run (h : r.SetsOk) {es : List Event} (hrun : runFrom (step c) (State.init r) es = some s)
    : Wf s :=
  runFrom_invariant (fun _ _ _ hI hs => hI.step hs) (wf_init h) hrun

end Steps

/-! ## A taken id is not stolen -/

/-- A script of a register or a refresh. -/
def Task.writes : Task → Prop
  | .register _ _ => True
  | .refresh _ _ => True
  | _ => False

/-- What one event does about a taken id. -/
structure NotStolen (s : State) (e : Event) (s' : State) : Prop where
  /-- no register or refresh changes the address of a key that is there -/
  kept : ∀ i x, e = .exec i → s.calls[i]? = some x → x.task.writes →
    ∀ k v, s.redis.get k = some v → s'.redis.get k = some v
  /-- a heartbeat refused with `OI_ERR_EXIST` costs the session its binding, and the snapshot at
  most the one entry with the session's own ip and port, which is not one of another address -/
  refused : ∀ sid k, s'.sent = s.sent ++ [(sid, .heartbeat k, .exist)] →
    ∃ i b r settled, e = .deliver i ∧ s.calls[i]? = some ⟨.refresh sid b, r, settled⟩ ∧ b.key = k ∧
      (∀ b', (sid, b') ∈ s'.bindings → b'.key ≠ k) ∧
      s'.snapshot.Sublist s.snapshot ∧ s.snapshot.length ≤ s'.snapshot.length + 1 ∧
      ∀ x ∈ s.snapshot, x ∉ s'.snapshot →
        x.key = k ∧ x.ip = b.ip ∧ x.port = b.port ∧ x.address = b.value

/-- Where a refused heartbeat goes on: the snapshot does not hold an entry for its key with its ip
and port and another zone. -/
def SameZone (s : State) (e : Event) : Prop :=
  ∀ i sid b settled, e = .deliver i →
    s.calls[i]? = some ⟨.refresh sid b, some (.code .taken), settled⟩ → Bound s sid b →
    ∀ x ∈ s.snapshot, x.key = b.key → x.ip = b.ip → x.port = b.port → x.zone = b.zone

section Stolen

variable {c : Config} {s s' : State} {e : Event}

variable {k : Key} {sid : Nat}

theorem execute_kept {t : Task} (ht : t.writes) {r : Redis} {v : Text} (hk : r.get k = some v) :
    (execute c r t).1.get k = some v := by
  -- a script that writes found the key free or its own
  have hown : ∀ {b : Binding} {r' : Redis}, (r.get b.key = none ∨ r.get b.key = some b.value) →
      (∀ k, r'.get k = if k = b.key then some b.value else r.get k) → r'.get k = some v := by
    intro b r' hb hr'
    rw [hr']
    by_cases hkb : k = b.key
    · subst hkb
      obtain hb | hb := hb
      · rw [hk] at hb
        cases hb
      · rw [if_pos rfl, ← hb, hk]
    · rw [if_neg hkb, hk]
  cases t with
  | register sid b =>
    obtain ⟨-, hsame, -⟩ | ⟨-, hb, hr'⟩ := Redis.register_cases c r b
    · simpa only [execute, hsame] using hk
    · exact hown hb hr'
  | refresh sid b =>
    obtain ⟨-, hsame, -⟩ | ⟨-, hb, hr'⟩ | ⟨-, hb, hr'⟩ := Redis.refresh_cases c r b
    · simpa only [execute, hsame] using hk
    · exact hown (.inr hb) hr'
    · exact hown (.inl hb) hr'
  | withdraw sid b => cases ht
  | reload => cases ht

theorem pointsAt_iff {b : Binding} {x : Instance} :
    pointsAt b x = true ↔ x.key = b.key ∧ x.ip = b.ip ∧ x.port = b.port := by
  simp [pointsAt, Instance.key, Binding.key, and_assoc]

/-- What a refused heartbeat leaves. -/
def Refused (s : State) (sid : Nat) (b : Binding) (s' : State) : Prop :=
  s'.bindings = s.bindings.eraseP (isFor sid b.key) ∧
    s'.snapshot = s.snapshot.eraseP (pointsAt b) ∧
    s'.sent = s.sent ++ [(sid, .heartbeat b.key, .exist)]

theorem replyInt_taken {r : Reply} (h : r.replyInt = .taken) : r = .code .taken := by
  cases r with
  | code c => exact congrArg Reply.code h
  | listing l => cases h
  | failed => cases h

theorem append_singleton_ne {α : Type} {l : List α} {x : α} : l ≠ l ++ [x] := by
  intro h
  have := congrArg List.length h
  simp at this

/-- Going on with a reply answers `OI_ERR_EXIST` to a heartbeat only where it was refused. -/
theorem Resumed.refusal {t : Task} {r : Reply} (h : Resumed s t r s')
    (hsent : s'.sent = s.sent ++ [(sid, .heartbeat k, .exist)]) :
    ∃ b, t = .refresh sid b ∧ b.key = k ∧ r = .code .taken ∧ Bound s sid b ∧ Refused s sid b s' := by
  cases h with
  | rests hrests hlog =>
    have hlog' := List.append_cancel_left hsent
    subst hlog'
    exact absurd rfl (hlog _ List.mem_cons_self k)
  | late => exact absurd hsent append_singleton_ne
  | stray => exact absurd hsent append_singleton_ne
  | withdrawn => exact absurd hsent append_singleton_ne
  | reloaded => exact absurd hsent append_singleton_ne
  | registered | renewed =>
    have := List.append_cancel_left hsent
    simp at this
  | refused hbound hr =>
    have := List.append_cancel_left hsent
    simp only [List.cons.injEq, Prod.mk.injEq, Ask.heartbeat.injEq, and_true] at this
    obtain ⟨rfl, rfl⟩ := this
    exact ⟨_, rfl, rfl, replyInt_taken hr, hbound, rfl, rfl, rfl⟩

/-- Only a reply answers so. -/
theorem step_refusal (h : Wf s) (hs : step c s e = some s')
    (hsent : s'.sent = s.sent ++ [(sid, .heartbeat k, .exist)]) :
    ∃ i b settled, e = .deliver i ∧
      s.calls[i]? = some ⟨.refresh sid b, some (.code .taken), settled⟩ ∧ b.key = k ∧
      Bound s sid b ∧ Refused s sid b s' := by
  have htables : ∀ calls, TablesOk { s with calls := calls } :=
    fun _ => ⟨h.tables.bound, h.tables.once, h.tables.snapshot⟩
  cases stepped hs with
  | accept => exact absurd hsent append_singleton_ne
  | @register sid' b hlive =>
    rw [State.handleRegister] at hsent
    split at hsent
    · exact absurd hsent append_singleton_ne
    · have := List.append_cancel_left hsent
      simp at this
  | @heartbeat sid' k' hlive =>
    rw [State.handleHeartbeat] at hsent
    split at hsent
    · have := List.append_cancel_left hsent
      simp at this
    · exact absurd hsent append_singleton_ne
  | close => exact absurd hsent append_singleton_ne
  | reloadTimer =>
    rw [State.startReload] at hsent
    split at hsent <;> exact absurd hsent append_singleton_ne
  | start => exact absurd hsent append_singleton_ne
  | exec => exact absurd hsent append_singleton_ne
  | @deliver t r settled pre post hcalls =>
    obtain ⟨b, rfl, hk, rfl, hb, hrefused⟩ := (resumed (htables (pre ++ post)) t r).refusal hsent
    exact ⟨pre.length, b, settled, rfl, by rw [hcalls]; simp, hk, hb, hrefused⟩
  | @fail t r settled pre rest post hcalls hrest =>
    obtain ⟨b, -, -, hr, -⟩ := (resumed (htables (pre ++ rest ++ post)) t .failed).refusal hsent
    cases hr
  | lose => exact absurd hsent append_singleton_ne
  | tick => exact absurd hsent append_singleton_ne

/-- A refused heartbeat of a bound session ends so. -/
theorem step_of_refused (h : Wf s) {i : Nat} {b : Binding} {settled : Bool}
    (hi : s.calls[i]? = some ⟨.refresh sid b, some (.code .taken), settled⟩) (hb : Bound s sid b)
    (hs : step c s (.deliver i) = some s') : Refused s sid b s' := by
  have htables : TablesOk { s with calls := s.calls.eraseIdx i } :=
    ⟨h.tables.bound, h.tables.once, h.tables.snapshot⟩
  have hfound := (found_iff_bound htables sid b).2 hb
  simp only [step, hi, Option.some.injEq, State.resume, State.afterRefresh] at hs
  rw [if_neg (not_not.2 hfound)] at hs
  subst hs
  exact ⟨rfl, rfl, rfl⟩

/-- **A taken id is not stolen.**  In every run, whatever the order in which Redis executes and
answers: an event does what `NotStolen` says exactly where a refused heartbeat finds no entry of its
ip and port with another zone. -/
theorem id_not_stolen_iff {r : Redis} (hr : r.SetsOk) {es : List Event}
    (hrun : runFrom (step c) (State.init r) es = some s) (hs : step c s e = some s') :
    NotStolen s e s' ↔ SameZone s e := by
  have hwf := wf_run hr hrun
  constructor
  · intro h i sid b settled he hi hbound x hx hkey hip hport
    subst he
    obtain ⟨-, hsnap, hsent⟩ := step_of_refused hwf hi hbound hs
    obtain ⟨j, b', r', settled', hj, hcall, -, -, -, -, hown⟩ := h.refused sid b.key hsent
    obtain rfl := Event.deliver.inj hj
    rw [hi] at hcall
    obtain ⟨rfl, -, -⟩ : b = b' ∧ _ ∧ _ := by simpa using hcall
    have hgone : x ∉ s'.snapshot := by
      rw [hsnap, Keyed.mem_eraseP hwf.tables.snapshot fun y hy => (pointsAt_iff.1 hy).1]
      intro hmem
      rw [pointsAt_iff.2 ⟨hkey, hip, hport⟩] at hmem
      exact Bool.noConfusion hmem.2
    have haddr := (hown x hx hgone).2.2.2
    rw [Instance.address, Binding.value, hip, hport] at haddr
    exact address_inj.1 haddr
  · intro hzone
    constructor
    · rintro i x rfl hx hwrites k v hk
      cases x with
      | mk t rep settled =>
          simp only [step, hx] at hs
          split at hs
          · rename_i t' settled' heq
            obtain ⟨rfl, -, rfl⟩ : t = t' ∧ _ ∧ settled = settled' := by simpa using heq
            obtain rfl := Option.some.inj hs
            exact execute_kept hwrites hk
          · cases hs
    · intro sid k hsent
      obtain ⟨i, b, settled, rfl, hi, hk, hbound, hbind, hsnap, -⟩ := step_refusal hwf hs hsent
      refine ⟨i, b, _, settled, rfl, hi, hk, ?_, ?_, ?_, ?_⟩
      · intro b' hb' hk'
        rw [hbind, Keyed.mem_eraseP hwf.tables.once fun y hy => isFor_iff_slot.1 hy] at hb'
        have hmine : isFor sid b.key (sid, b') = true := isFor_iff.2 ⟨rfl, hk'.trans hk.symm⟩
        rw [hmine] at hb'
        exact Bool.noConfusion hb'.2
      · rw [hsnap]
        exact List.eraseP_sublist
      · rw [hsnap]
        have := List.length_eraseP (p := pointsAt b) (l := s.snapshot)
        split at this <;> omega
      · intro x hx hgone
        rw [hsnap, Keyed.mem_eraseP hwf.tables.snapshot fun y hy => (pointsAt_iff.1 hy).1] at hgone
        have hpoints : pointsAt b x = true := by
          by_contra hno
          exact hgone ⟨hx, by simpa using hno⟩
        obtain ⟨h1, h2, h3⟩ := pointsAt_iff.1 hpoints
        have h4 := hzone i sid b settled rfl hi hbound x hx h1 h2 h3
        exact ⟨h1.trans hk, h2, h3, by rw [Instance.address, Binding.value, h2, h3, h4]⟩

/-- A registration, one of the same id from another host, and one that differs in the zone alone. -/
def plain : Binding := ⟨"game".toList, 1, "10.0.0.1".toList, "80".toList, []⟩

def rival : Binding := { plain with ip := "10.0.0.2".toList }

def zoned : Binding := { plain with zone := "east".toList }

/-- The first registration expires, the id is taken by `b`, and the first session's heartbeat is
refused; its reply is still to come. -/
def takeover (b : Binding) : List Event :=
  [.accept, .accept, .register 1 plain, .start, .exec 0, .deliver 0, .tick 3000,
    .register 2 b, .start, .exec 0, .deliver 0, .heartbeat 1 plain.key, .start, .exec 0]

/-- What the takeover leaves, and what the reply then does to the snapshot. -/
theorem takeover_view {b : Binding} {snapshot snapshot' : List Instance}
    (h : (runFrom (step (Config.ofRaw 0)) (State.init {}) (takeover b)).map
      (fun s => (s.snapshot, s.calls, s.redis.get plain.key)) =
      some (snapshot, [⟨.refresh 1 plain, some (.code .taken), false⟩], some b.value))
    (h' : (runFrom (step (Config.ofRaw 0)) (State.init {}) (takeover b)).bind
      (fun s => (step (Config.ofRaw 0) s (.deliver 0)).map fun s' =>
        (s'.snapshot, decide (s'.sent = s.sent ++ [(1, .heartbeat plain.key, .exist)]))) =
      some (snapshot', true)) :
    ∃ s s', runFrom (step (Config.ofRaw 0)) (State.init {}) (takeover b) = some s ∧
      step (Config.ofRaw 0) s (.deliver 0) = some s' ∧ s.snapshot = snapshot ∧
      s.calls = [⟨.refresh 1 plain, some (.code .taken), false⟩] ∧
      s.redis.get plain.key = some b.value ∧ s'.snapshot = snapshot' ∧
      s'.sent = s.sent ++ [(1, .heartbeat plain.key, .exist)] := by
  obtain ⟨s, hs, hview⟩ := Option.map_eq_some_iff.1 h
  rw [hs, Option.bind_some] at h'
  obtain ⟨s', hs', hview'⟩ := Option.map_eq_some_iff.1 h'
  simp only [Prod.mk.injEq, decide_eq_true_eq] at hview hview'
  exact ⟨s, s', hs, hs', hview.1, hview.2.1, hview.2.2, hview'.1, hview'.2⟩

/-- The refused heartbeat leaves the entry of another host. -/
theorem id_not_stolen_from_rival :
    ∃ s s', runFrom (step (Config.ofRaw 0)) (State.init {}) (takeover rival) = some s ∧
      step (Config.ofRaw 0) s (.deliver 0) = some s' ∧ s'.snapshot = [rival.toInstance] ∧
      NotStolen s (.deliver 0) s' := by
  obtain ⟨s, s', hs, hs', hsnap, hcalls, -, hsnap', -⟩ := @takeover_view rival
    [rival.toInstance] [rival.toInstance] (by decide +kernel) (by decide +kernel)
  refine ⟨s, s', hs, hs', hsnap', ?_⟩
  apply (id_not_stolen_iff ⟨List.nodup_nil, fun _ => List.nodup_nil⟩ hs hs').2
  intro i sid b settled he hi hbound x hx hkey hip hport
  obtain rfl := Event.deliver.inj he
  rw [hcalls] at hi
  obtain ⟨⟨-, rfl⟩, -⟩ : (1 = sid ∧ plain = b) ∧ _ := by simpa using hi
  rw [hsnap, List.mem_singleton] at hx
  subst hx
  exact absurd hip (by decide)

/-- The refused heartbeat takes the new owner's entry out of the snapshot when only the zones
differ. -/
theorem owner_entry_dropped :
    ∃ s s', runFrom (step (Config.ofRaw 0)) (State.init {}) (takeover zoned) = some s ∧
      step (Config.ofRaw 0) s (.deliver 0) = some s' ∧
      s.redis.get plain.key = some zoned.value ∧ s.snapshot = [zoned.toInstance] ∧
      s'.snapshot = [] ∧ ¬ NotStolen s (.deliver 0) s' := by
  obtain ⟨s, s', hs, hs', hsnap, hcalls, hget, hsnap', hsent⟩ := @takeover_view zoned
    [zoned.toInstance] [] (by decide +kernel) (by decide +kernel)
  refine ⟨s, s', hs, hs', hget, hsnap, hsnap', ?_⟩
  intro h
  obtain ⟨i, b, r, settled, he, hi, -, -, -, -, hown⟩ := h.refused 1 plain.key hsent
  obtain rfl := Event.deliver.inj he
  rw [hcalls] at hi
  obtain ⟨rfl, -⟩ : plain = b ∧ _ := by simpa using hi
  have haddr := (hown zoned.toInstance (by rw [hsnap]; simp) (by rw [hsnap']; simp)).2.2.2
  exact absurd haddr (by decide)

end Stolen

end OpenIdea.Registry
