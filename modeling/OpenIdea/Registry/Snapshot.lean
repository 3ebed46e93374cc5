import OpenIdea.Registry.Ownership

/-!
# Nothing withdrawn comes back

The snapshot is edited by registers, refreshes and withdrawals, and replaced by listings that were
taken earlier.  Over runs in which Redis executes and answers in the order of sending, an entry of
the snapshot always has somebody who answers for it: a binding, a write whose coroutine has not gone
on yet, or a withdrawal that will drop it.

For one key, the argument follows the values of the key in Redis.  A call that was executed may tell
that the key did not have a value at its time (`Denies`); if the key is seen with that value later,
a call in between wrote it (`Backed`).  So whoever answers for a value that was seen cannot lose its
binding without a successor (`Answered`).  So nothing comes back (`no_resurrection`), but for what a
reload between two withdrawals puts back (`reload_between_withdrawals`).
-/

set_option autoImplicit false

namespace OpenIdea.Registry

open OpenIdea.Lib OpenIdea.Lib.Runs

/-! ## What calls tell about a key

A call says something about a key at the moment at which Redis executes it, and is heard when it is
answered. -/

namespace Call

/-- The registration that an executed script wrote. -/
def wrote (x : Call) : Option Binding :=
  match x.task, x.reply with
  | .register _ b, some (.code .ok) => some b
  | .refresh _ b, some (.code .ok) => some b
  | .refresh _ b, some (.code .renewed) => some b
  | _, _ => none

/-- The registration that a refresh was refused for. -/
def refused (x : Call) : Option Binding :=
  match x.task, x.reply with
  | .refresh _ b, some (.code .taken) => some b
  | _, _ => none

/-- The registration that is withdrawn. -/
def withdraws (x : Call) : Option Binding :=
  match x.task with
  | .withdraw _ b => some b
  | _ => none

end Call

/-- The call wrote the value. -/
def Wrote (k : Key) (w : Text) (x : Call) : Prop :=
  ∃ b, x.wrote = some b ∧ b.key = k ∧ b.value = w

/-- The call withdraws the value. -/
def WithdrawsFor (k : Key) (w : Text) (x : Call) : Prop :=
  ∃ b, x.withdraws = some b ∧ b.key = k ∧ b.value = w

/-- The call wrote a value of the key, or withdraws one. -/
def Concerns (k : Key) (x : Call) : Prop :=
  ∃ b, (x.wrote = some b ∨ x.withdraws = some b) ∧ b.key = k

/-- The key did not have the value when the call was executed. -/
def Denies (k : Key) (w : Text) (x : Call) : Prop :=
  ∃ b, b.key = k ∧ (x.wrote = some b ∧ b.value ≠ w ∨ x.refused = some b ∧ b.value = w)

/-- Calls after which the key has the value: who denies it is followed by one who wrote it. -/
def Backed (k : Key) (w : Text) : List Call → Prop
  | [] => True
  | x :: xs => (Denies k w x → ∃ y ∈ xs, Wrote k w y) ∧ Backed k w xs

/-- Somebody answers for the value: a call before, a binding, or one of the calls `Q` later. -/
def Answered (Q : Call → Prop) (k : Key) (w : Text) (before later : List Call)
    (bindings : List (Nat × Binding)) : Prop :=
  (∃ y ∈ before, Wrote k w y) ∨ (∃ e ∈ bindings, e.2.key = k ∧ e.2.value = w) ∨ ∃ y ∈ later, Q y

/-- What was seen of the key by the call. -/
def Saw (k : Key) (x : Call) (P : Text → Prop) : Prop :=
  (∀ l w, x.reply = some (.listing l) → (k, w) ∈ l → P w) ∧
    ∀ b, x.refused = some b → b.key = k → ∃ w, w ≠ b.value ∧ P w

/-- The coroutines in the run queue, as calls. -/
def waiting (s : State) : List Call := s.tasks.map fun t => { task := t }

/-- The calls are those Redis has executed, then the others; nobody has given up on one. -/
structure Split (s : State) (done todo : List Call) : Prop where
  calls : s.calls = done ++ todo
  done : ∀ x ∈ done, x.reply.isSome
  todo : ∀ x ∈ todo, x.reply = none
  kept : ∀ x ∈ s.calls, x.settled = false

/-- **A key that was written**: what Redis holds, what calls have seen and what the snapshot shows
all have somebody who answers for it. -/
structure Tracked (k : Key) (s : State) (done todo : List Call) : Prop where
  current : ∀ w, s.redis.get k = some w →
    Backed k w done ∧ Answered (WithdrawsFor k w) k w done (todo ++ waiting s) s.bindings
  seen : ∀ pre x post, done = pre ++ x :: post → Saw k x fun w =>
    Backed k w pre ∧ Answered (Concerns k) k w pre (post ++ (todo ++ waiting s)) s.bindings
  snapshot : ∀ x ∈ s.snapshot, x.key = k →
    (∃ e ∈ s.bindings, e.2.key = k) ∨ ∃ y ∈ done ++ (todo ++ waiting s), Concerns k y

/-- **A key of which the server has seen no registration**; Redis may hold one from before. -/
structure Untouched (k : Key) (s : State) : Prop where
  bindings : ∀ e ∈ s.bindings, e.2.key ≠ k
  tasks : ∀ t ∈ s.tasks, ∀ sid b, t = .refresh sid b ∨ t = .withdraw sid b → b.key ≠ k
  calls : ∀ x ∈ s.calls, (∀ sid b, x.task = .refresh sid b ∨ x.task = .withdraw sid b → b.key ≠ k) ∧
    ∀ b, x.wrote = some b → b.key ≠ k

section Rules

variable {k : Key} {w : Text} {Q : Call → Prop}

variable {x : Call} {b : Binding}

variable {l : List Call}

theorem Backed.concat (h : Backed k w l) (hx : ¬ Denies k w x) : Backed k w (l ++ [x]) := by
  induction l with
  | nil => exact ⟨fun hd => absurd hd hx, trivial⟩
  | cons y l ih =>
    refine ⟨?_, ih h.2⟩
    intro hd
    obtain ⟨z, hz, hw⟩ := h.1 hd
    exact ⟨z, List.mem_append_left _ hz, hw⟩

/-- A write backs the value whatever was before. -/
theorem Backed.of_wrote (hw : Wrote k w x) (hx : ¬ Denies k w x) : Backed k w (l ++ [x]) := by
  induction l with
  | nil => exact ⟨fun hd => absurd hd hx, trivial⟩
  | cons y l ih => exact ⟨fun _ => ⟨x, by simp, hw⟩, ih⟩

theorem Backed.of_forall (h : ∀ x ∈ l, ¬ Denies k w x) : Backed k w l := by
  induction l with
  | nil => trivial
  | cons y l ih =>
    exact ⟨fun hd => absurd hd (h y (by simp)), ih fun x hx => h x (by simp [hx])⟩

/-- Bindings are only lost to a later call. -/
theorem Answered.mono {before later later' : List Call} {bindings bindings' : List (Nat × Binding)}
    (h : Answered Q k w before later bindings) (hlater : ∀ y ∈ later, Q y → ∃ y' ∈ later', Q y')
    (hbind : ∀ e ∈ bindings, e.2.key = k → e.2.value = w →
      e ∈ bindings' ∨ ∃ y ∈ later', Q y) : Answered Q k w before later' bindings' := by
  obtain hw | ⟨e, he, hk, hv⟩ | ⟨y, hy, hq⟩ := h
  · exact .inl hw
  · obtain he' | hq := hbind e he hk hv
    · exact .inr (.inl ⟨e, he', hk, hv⟩)
    · exact .inr (.inr hq)
  · exact .inr (.inr (hlater y hy hq))

theorem Saw.mono {P P' : Text → Prop} (h : Saw k x P) (hP : ∀ w, P w → P' w) : Saw k x P' := by
  refine ⟨fun l w hl hw => hP w (h.1 l w hl hw), ?_⟩
  intro b hb hk
  obtain ⟨w, hne, hw⟩ := h.2 b hb hk
  exact ⟨w, hne, hP w hw⟩

theorem wrote_unexecuted (h : x.reply = none) : x.wrote = none ∧ x.refused = none := by
  rw [Call.wrote, Call.refused, h]
  constructor <;> cases x.task <;> rfl

theorem wrote_some (h : x.wrote = some b) :
    (∃ sid, x.task = .register sid b ∧ x.reply = some (.code .ok)) ∨
      ∃ sid, x.task = .refresh sid b ∧
        (x.reply = some (.code .ok) ∨ x.reply = some (.code .renewed)) := by
  obtain ⟨t, r, settled⟩ := x
  simp only [Call.wrote] at h
  split at h
  · obtain rfl := Option.some.inj h
    exact .inl ⟨_, rfl, rfl⟩
  · obtain rfl := Option.some.inj h
    exact .inr ⟨_, rfl, .inl rfl⟩
  · obtain rfl := Option.some.inj h
    exact .inr ⟨_, rfl, .inr rfl⟩
  · cases h

theorem refused_some (h : x.refused = some b) :
    ∃ sid, x.task = .refresh sid b ∧ x.reply = some (.code .taken) := by
  obtain ⟨t, r, settled⟩ := x
  simp only [Call.refused] at h
  split at h
  · obtain rfl := Option.some.inj h
    exact ⟨_, rfl, rfl⟩
  · cases h

theorem wrote_of_refused (h : x.refused = some b) : x.wrote = none := by
  obtain ⟨sid, ht, hr⟩ := refused_some h
  rw [Call.wrote, ht, hr]

theorem withdraws_some (h : x.withdraws = some b) : ∃ sid, x.task = .withdraw sid b := by
  obtain ⟨t, r, settled⟩ := x
  simp only [Call.withdraws] at h
  split at h
  · obtain rfl := Option.some.inj h
    exact ⟨_, rfl⟩
  · cases h

theorem WithdrawsFor.concerns (h : WithdrawsFor k w x) : Concerns k x := by
  obtain ⟨b, hb, hk, -⟩ := h
  exact ⟨b, .inr hb, hk⟩

end Rules

/-! ## A reply -/

section Replies

variable {k : Key} {w : Text} {s s' : State} {t : Task} {r : Reply} {settled : Bool}

theorem replyInt_code {c : Code} (h : some r = some (Reply.code c)) : r.replyInt = c := by
  obtain rfl := Option.some.inj h
  rfl

/-- What a call wrote is bound after its reply, or withdrawn. -/
theorem Resumed.write_kept (h : Resumed s t r s') (hw : Wrote k w ⟨t, some r, settled⟩) :
    (∃ e ∈ s'.bindings, e.2.key = k ∧ e.2.value = w) ∨
      ∃ sid b, s'.calls = s.calls ++ [⟨.withdraw sid b, none, false⟩] ∧ b.key = k ∧ b.value = w := by
  obtain ⟨b, hb, hk, hv⟩ := hw
  have hbound : ∀ {sid : Nat}, Bound s sid b → ∃ e ∈ s.bindings, e.2.key = k ∧ e.2.value = w := by
    rintro sid ⟨b₀, hb₀, hk₀, hv₀⟩
    exact ⟨(sid, b₀), hb₀, hk₀.trans hk, hv₀.trans hv⟩
  obtain ⟨sid, rfl, hr⟩ | ⟨sid, rfl, hr⟩ := wrote_some hb
  · have hok := replyInt_code hr
    cases h with
    | rests hrests => exact absurd hok hrests
    | late => exact .inr ⟨sid, b, rfl, hk, hv⟩
    | registered => exact .inl ⟨(sid, b), self_mem_rebind, hk, hv⟩
  · cases h with
    | rests hrests =>
      obtain hr | hr := hr
      · exact .inl (hbound (hrests.1 (replyInt_code hr)))
      · exact absurd (replyInt_code hr) hrests.2
    | stray => exact .inr ⟨sid, b, rfl, hk, hv⟩
    | renewed hb' => exact .inl (hbound hb')
    | refused _ hr' =>
      obtain hr | hr := hr <;> rw [replyInt_code hr] at hr' <;> cases hr'

/-- A binding is lost to a reply only when the reply's call denies its value. -/
theorem Resumed.binding_kept (h : Resumed s t r s') (settled : Bool) (htables : TablesOk s)
    {e : Nat × Binding} (he : e ∈ s.bindings) (hk : e.2.key = k) (hv : e.2.value = w) :
    (∃ e' ∈ s'.bindings, e'.2.key = k ∧ e'.2.value = w) ∨ Denies k w ⟨t, some r, settled⟩ := by
  have hsame : s'.bindings = s.bindings →
      ∃ e' ∈ s'.bindings, e'.2.key = k ∧ e'.2.value = w :=
    fun heq => ⟨e, heq ▸ he, hk, hv⟩
  cases h with
  | rests => exact .inl (hsame rfl)
  | late => exact .inl (hsame rfl)
  | stray => exact .inl (hsame rfl)
  | renewed => exact .inl (hsame rfl)
  | withdrawn => exact .inl (hsame rfl)
  | reloaded => exact .inl (hsame rfl)
  | @registered sid b r hlive hr =>
    by_cases hslot : slot e = (sid, b.key)
    · -- the session's binding is overwritten
      have hkey : b.key = k := by
        rw [← hk]
        exact (Prod.mk.inj hslot).2.symm
      by_cases hval : b.value = w
      · exact .inl ⟨(sid, b), self_mem_rebind, hkey, hval⟩
      · refine .inr ⟨b, hkey, .inl ⟨?_, hval⟩⟩
        cases r with
        | code c =>
          simp only [Reply.replyInt] at hr
          subst hr
          rfl
        | listing l => cases hr
        | failed => cases hr
    · exact .inl ⟨e, mem_rebind_of_mem he hslot, hk, hv⟩
  | @refused sid b r hbound hr =>
    by_cases hslot : slot e = (sid, b.key)
    · obtain ⟨b₀, hb₀, hk₀, hv₀⟩ := hbound
      have heq : e = (sid, b₀) := by
        refine Keyed.eq_of_key htables.once he hb₀ ?_
        rw [hslot, slot, hk₀]
      obtain rfl := replyInt_taken hr
      refine .inr ⟨b, ?_, .inr ⟨rfl, ?_⟩⟩
      · rw [← hk]
        exact (Prod.mk.inj hslot).2.symm
      · rw [← hv, heq]
        exact hv₀.symm
    · refine .inl ⟨e, ?_, hk, hv⟩
      show e ∈ s.bindings.eraseP (isFor sid b.key)
      rw [Keyed.mem_eraseP htables.once fun y hy => isFor_iff_slot.1 hy]
      refine ⟨he, ?_⟩
      rw [← Bool.not_eq_true]
      exact fun hy => hslot (isFor_iff_slot.1 hy)

/-- Who answers for a value still does so after the oldest reply. -/
theorem Answered.delivered {Q : Call → Prop} {pre later later' : List Call}
    (hres : Resumed s t r s') (htables : TablesOk s)
    (hback : Backed k w (⟨t, some r, settled⟩ :: pre))
    (h : Answered Q k w (⟨t, some r, settled⟩ :: pre) later s.bindings)
    (hQ : ∀ y, WithdrawsFor k w y → Q y) (hlater : ∀ y ∈ later, y ∈ later')
    (hnew : ∀ x, s'.calls = s.calls ++ [x] → x ∈ later') :
    Answered Q k w pre later' s'.bindings := by
  obtain ⟨y, hy, hw⟩ | ⟨e, he, hk, hv⟩ | ⟨y, hy, hq⟩ := h
  · obtain rfl | hy := List.mem_cons.1 hy
    · obtain hbind | ⟨sid, b, hcalls, hk, hv⟩ := hres.write_kept hw
      · exact .inr (.inl hbind)
      · exact .inr (.inr ⟨_, hnew _ hcalls, hQ _ ⟨b, rfl, hk, hv⟩⟩)
    · exact .inl ⟨y, hy, hw⟩
  · obtain hbind | hdenies := hres.binding_kept settled htables he hk hv
    · exact .inr (.inl hbind)
    · exact .inl (hback.1 hdenies)
  · exact .inr (.inr ⟨y, hlater y hy, hq⟩)

/-- Where an entry of the snapshot comes from. -/
theorem Resumed.entry_origin (h : Resumed s t r s') {x : Instance} (hx : x ∈ s'.snapshot) :
    x ∈ s.snapshot ∨ (∃ e ∈ s'.bindings, e.2.key = x.key) ∨
      ∃ l w, r = .listing l ∧ (x.key, w) ∈ l := by
  have hput : ∀ {b : Binding}, x ∈ putSnapshot s.snapshot b → x ∈ s.snapshot ∨ x.key = b.key := by
    intro b hx
    obtain hx | hx := List.mem_append.1 hx
    · exact .inl (List.mem_of_mem_eraseP hx)
    · rw [List.mem_singleton.1 hx]
      exact .inr rfl
  cases h with
  | rests => exact .inl hx
  | late => exact .inl hx
  | stray => exact .inl hx
  | registered =>
    obtain hx | hx := hput hx
    · exact .inl hx
    · exact .inr (.inl ⟨_, self_mem_rebind, hx.symm⟩)
  | renewed hbound =>
    obtain hx | hx := hput hx
    · exact .inl hx
    · obtain ⟨b₀, hb₀, hk, -⟩ := hbound
      exact .inr (.inl ⟨_, hb₀, hk.trans hx.symm⟩)
  | refused => exact .inl (List.mem_of_mem_eraseP hx)
  | withdrawn => exact .inl (List.mem_of_mem_eraseP hx)
  | @reloaded l =>
    obtain ⟨e, he, hparse⟩ := List.mem_filterMap.1 hx
    obtain ⟨v, -, rfl⟩ := Option.map_eq_some_iff.1 hparse
    exact .inr (.inr ⟨l, e.2, rfl, he⟩)

/-- A key keeps a binding unless its refresh was refused. -/
theorem Resumed.key_kept (h : Resumed s t r s') (settled : Bool) {e : Nat × Binding}
    (he : e ∈ s.bindings)
    (hk : e.2.key = k) : (∃ e' ∈ s'.bindings, e'.2.key = k) ∨
      ∃ b, Call.refused ⟨t, some r, settled⟩ = some b ∧ b.key = k := by
  cases h with
  | rests => exact .inl ⟨e, he, hk⟩
  | late => exact .inl ⟨e, he, hk⟩
  | stray => exact .inl ⟨e, he, hk⟩
  | renewed => exact .inl ⟨e, he, hk⟩
  | withdrawn => exact .inl ⟨e, he, hk⟩
  | reloaded => exact .inl ⟨e, he, hk⟩
  | @registered sid b =>
    by_cases hslot : slot e = (sid, b.key)
    · exact .inl ⟨(sid, b), self_mem_rebind, by rw [← hk]; exact (Prod.mk.inj hslot).2.symm⟩
    · exact .inl ⟨e, mem_rebind_of_mem he hslot, hk⟩
  | @refused sid b r hbound hr =>
    by_cases hkey : b.key = k
    · obtain rfl := replyInt_taken hr
      exact .inr ⟨b, rfl, hkey⟩
    · refine .inl ⟨e, ?_, hk⟩
      show e ∈ s.bindings.eraseP (isFor sid b.key)
      rw [List.mem_eraseP_of_neg]
      · exact he
      · intro hy
        exact hkey ((isFor_iff.1 hy).2.symm.trans hk)

/-- **The snapshot after the oldest reply**: each of its entries has somebody who answers for it. -/
theorem Resumed.snapshot_kept (h : Resumed s t r s') (htables : TablesOk s) {later later' : List Call}
    (hold : ∀ x ∈ s.snapshot, x.key = k → (∃ e ∈ s.bindings, e.2.key = k) ∨
      ∃ y ∈ ⟨t, some r, settled⟩ :: later, Concerns k y)
    (hsaw : Saw k ⟨t, some r, settled⟩ fun w => Answered (Concerns k) k w [] later s.bindings)
    (hlater : ∀ y ∈ later, y ∈ later') (hnew : ∀ x, s'.calls = s.calls ++ [x] → x ∈ later') :
    ∀ x ∈ s'.snapshot, x.key = k → (∃ e ∈ s'.bindings, e.2.key = k) ∨
      ∃ y ∈ later', Concerns k y := by
  -- a binding of the key is kept, or the refusal saw another answerable value
  have hbinding : (∃ e ∈ s.bindings, e.2.key = k) →
      (∃ e ∈ s'.bindings, e.2.key = k) ∨ ∃ y ∈ later', Concerns k y := by
    rintro ⟨e, he, hk⟩
    obtain hkept | ⟨b, hb, hbk⟩ := h.key_kept settled he hk
    · exact .inl hkept
    · obtain ⟨w, hne, ⟨y, hy, -⟩ | ⟨e', he', hk', hv'⟩ | ⟨y, hy, hq⟩⟩ := hsaw.2 b hb hbk
      · cases hy
      · obtain ⟨e'', he'', hk'', -⟩ | ⟨b', -, hdenies⟩ :=
          h.binding_kept settled htables he' hk' hv'
        · exact .inl ⟨e'', he'', hk''⟩
        · obtain ⟨hw, -⟩ | ⟨href, hval⟩ := hdenies
          · rw [wrote_of_refused hb] at hw
            cases hw
          · rw [hb] at href
            obtain rfl := Option.some.inj href
            exact absurd hval.symm hne
      · exact .inr ⟨y, hlater y hy, hq⟩
  intro x hx hxk
  obtain hx' | ⟨e, he, hk⟩ | ⟨l, w, hr, hl⟩ := h.entry_origin hx
  · obtain hb | ⟨y, hy, hconc⟩ := hold x hx' hxk
    · exact hbinding hb
    · obtain rfl | hy := List.mem_cons.1 hy
      · obtain ⟨b, hw | hw, hk⟩ := hconc
        · obtain ⟨e, he, hke, -⟩ | ⟨sid, b', hcalls, hkb, -⟩ :=
            h.write_kept ⟨b, hw, hk, rfl⟩
          · exact .inl ⟨e, he, hke⟩
          · exact .inr ⟨_, hnew _ hcalls, b', .inr rfl, hkb⟩
        · obtain ⟨sid, rfl⟩ := withdraws_some hw
          cases h with
          | rests hrests =>
            obtain ⟨e, he, hke⟩ := hrests
            exact .inl ⟨e, he, hke.trans hk⟩
          | withdrawn =>
            have := ((mem_dropSnapshot htables.snapshot).1 hx).2
            exact absurd (hxk.trans hk.symm) this
      · exact .inr ⟨y, hlater y hy, hconc⟩
  · exact .inl ⟨e, he, hk.trans hxk⟩
  · rw [hxk] at hl
    obtain ⟨y, hy, -⟩ | ⟨e, he, hk, hv⟩ | ⟨y, hy, hq⟩ := hsaw.1 l w (by rw [hr]) hl
    · cases hy
    · exact hbinding ⟨e, he, hk⟩
    · exact .inr ⟨y, hlater y hy, hq⟩

end Replies

/-! ## A script -/

section Scripts

variable {k : Key} {w : Text} {s s' : State} {c : Config} {done todo : List Call}

variable {x : Call}

theorem Wrote.not_denies (h : Wrote k w x) : ¬ Denies k w x := by
  obtain ⟨b, hb, -, hv⟩ := h
  rintro ⟨b', -, ⟨hb', hne⟩ | ⟨href, -⟩⟩
  · rw [hb] at hb'
    exact hne (Option.some.inj hb' ▸ hv)
  · rw [wrote_of_refused href] at hb
    cases hb

/-- A call that neither wrote nor refused denies nothing. -/
theorem not_denies_of_none (hw : x.wrote = none) (hr : x.refused = none) : ¬ Denies k w x := by
  rintro ⟨b, -, ⟨hb, -⟩ | ⟨hb, -⟩⟩
  · rw [hw] at hb
    cases hb
  · rw [hr] at hb
    cases hb

theorem not_withdrawsFor (h : x.withdraws = none) : ¬ WithdrawsFor k w x := by
  rintro ⟨b, hb, -⟩
  rw [h] at hb
  cases hb

/-- A script that wrote `b` made the key's value its own, and left the others. -/
theorem key_of_wrote {x : Call} {b : Binding} {r r' : Redis} (hx : x.wrote = some b)
    (hr' : ∀ k, r'.get k = if k = b.key then some b.value else r.get k) (h : r'.get k = some w) :
    Wrote k w x ∨ (r.get k = some w ∧ ¬ Denies k w x) := by
  rw [hr'] at h
  by_cases hk : k = b.key
  · rw [if_pos hk] at h
    exact .inl ⟨b, hx, hk.symm, Option.some.inj h⟩
  · rw [if_neg hk] at h
    refine .inr ⟨h, ?_⟩
    rintro ⟨b', hk', ⟨hb', -⟩ | ⟨hb', -⟩⟩
    · rw [hx] at hb'
      exact hk (Option.some.inj hb' ▸ hk'.symm)
    · rw [wrote_of_refused hb'] at hx
      cases hx

/-- **What Redis does to one key** when it executes a script: the key's value is the one the script
wrote, or the one it had before and the script did not contradict. -/
theorem execute_key {r : Redis} {t : Task} (h : (execute c r t).1.get k = some w) :
    Wrote k w ⟨t, some (execute c r t).2, false⟩ ∨
      (r.get k = some w ∧ ¬ Denies k w ⟨t, some (execute c r t).2, false⟩ ∧
        ¬ WithdrawsFor k w ⟨t, none, false⟩) := by
  cases t with
  | register sid b =>
    have hno : ¬ WithdrawsFor k w ⟨.register sid b, none, false⟩ := not_withdrawsFor rfl
    obtain ⟨hcode, hsame, -⟩ | ⟨hcode, -, hr'⟩ := Redis.register_cases c r b
    · simp only [execute, hsame, hcode] at h ⊢
      exact .inr ⟨h, not_denies_of_none rfl rfl, hno⟩
    · simp only [execute, hcode] at h ⊢
      obtain hw | ⟨hget, hden⟩ := @key_of_wrote k w
        ⟨.register sid b, some (.code .ok), false⟩ b r _ rfl hr' h
      · exact .inl hw
      · exact .inr ⟨hget, hden, hno⟩
  | refresh sid b =>
    have hno : ¬ WithdrawsFor k w ⟨.refresh sid b, none, false⟩ := not_withdrawsFor rfl
    obtain ⟨hcode, hsame, v, hv, hget⟩ | ⟨hcode, -, hr'⟩ | ⟨hcode, -, hr'⟩ :=
      Redis.refresh_cases c r b
    · simp only [execute, hsame, hcode] at h ⊢
      refine .inr ⟨h, ?_, hno⟩
      rintro ⟨b', hk', ⟨hb', -⟩ | ⟨hb', hval⟩⟩
      · cases hb'
      · obtain rfl := Option.some.inj hb'
        rw [← hk', hget] at h
        exact hv (Option.some.inj h ▸ hval.symm)
    · simp only [execute, hcode] at h ⊢
      obtain hw | ⟨hget, hden⟩ := @key_of_wrote k w
        ⟨.refresh sid b, some (.code .ok), false⟩ b r _ rfl hr' h
      · exact .inl hw
      · exact .inr ⟨hget, hden, hno⟩
    · simp only [execute, hcode] at h ⊢
      obtain hw | ⟨hget, hden⟩ := @key_of_wrote k w
        ⟨.refresh sid b, some (.code .renewed), false⟩ b r _ rfl hr' h
      · exact .inl hw
      · exact .inr ⟨hget, hden, hno⟩
  | withdraw sid b =>
    simp only [execute, Redis.withdraw_get] at h
    obtain ⟨hnot, h⟩ := Option.ite_none_left_eq_some.1 h
    refine .inr ⟨h, not_denies_of_none rfl rfl, ?_⟩
    rintro ⟨b', hb', hk, hv⟩
    obtain rfl := Option.some.inj hb'
    exact hnot ⟨hk.symm, by rw [h, hv]⟩
  | reload => exact .inr ⟨h, not_denies_of_none rfl rfl, not_withdrawsFor rfl⟩

/-- What a script sees of one key is what is there. -/
theorem execute_saw (c : Config) (r : Redis) (t : Task) (k : Key) :
    Saw k ⟨t, some (execute c r t).2, false⟩ fun w => r.get k = some w := by
  constructor
  · intro l w hl hmem
    cases t with
    | reload =>
      simp only [execute, Option.some.injEq, Reply.listing.injEq] at hl
      exact Redis.get_of_listing (hl ▸ hmem)
    | register sid b => cases Option.some.inj hl
    | refresh sid b => cases Option.some.inj hl
    | withdraw sid b => cases Option.some.inj hl
  · intro b hb hk
    obtain ⟨sid, ht, hr⟩ := refused_some hb
    simp only at ht
    subst ht
    simp only [execute, Option.some.injEq, Reply.code.injEq] at hr
    obtain ⟨-, -, v, hv, hget⟩ | ⟨hcode, -⟩ | ⟨hcode, -⟩ := Redis.refresh_cases c r b
    · exact ⟨v, hv, hk ▸ hget⟩
    · rw [hcode] at hr
      cases hr
    · rw [hcode] at hr
      cases hr

/-- The call that Redis executes next. -/
theorem Split.next (h : Split s done todo) {pre post : List Call}
    (hcalls : s.calls = pre ++ x :: post) (hx : x.reply = none) (hpre : ∀ y ∈ pre, y.reply.isSome) :
    pre = done ∧ todo = x :: post := by
  have heq : done ++ todo = pre ++ x :: post := h.calls.symm.trans hcalls
  obtain ⟨mid, hd, ht⟩ | ⟨mid, hp, ht⟩ := List.append_eq_append_iff.1 heq
  · -- `done` would end before `pre`
    cases mid with
    | nil =>
      rw [List.append_nil] at hd
      exact ⟨hd, by simpa using ht⟩
    | cons y mid =>
      have hy := hpre y (by rw [hd]; simp)
      rw [h.todo y (by rw [ht]; simp)] at hy
      cases hy
  · cases mid with
    | nil =>
      rw [List.append_nil] at hp
      exact ⟨hp.symm, by simpa using ht.symm⟩
    | cons y mid =>
      rw [List.cons_append, List.cons.injEq] at ht
      have hy := h.done y (by rw [hp]; simp)
      rw [← ht.1, hx] at hy
      cases hy

/-- A call concerns the same key before and after it is executed, or from then on. -/
theorem Concerns.executed {t : Task} {r : Reply} (h : Concerns k ⟨t, none, false⟩) :
    Concerns k ⟨t, some r, false⟩ := by
  obtain ⟨b, hb | hb, hk⟩ := h
  · rw [(wrote_unexecuted rfl).1] at hb
    cases hb
  · exact ⟨b, .inr hb, hk⟩

/-- **Redis executes the next script.** -/
theorem Tracked.exec {t : Task} (h : Tracked k s done (⟨t, none, false⟩ :: todo)) {calls : List Call} :
    Tracked k { s with redis := (execute c s.redis t).1, calls := calls }
      (done ++ [⟨t, some (execute c s.redis t).2, false⟩]) todo := by
  have hlater : ∀ y ∈ (⟨t, none, false⟩ : Call) :: todo ++ waiting s,
      y = ⟨t, none, false⟩ ∨ y ∈ todo ++ waiting s := by
    intro y hy
    rwa [List.cons_append, List.mem_cons] at hy
  constructor
  · intro w hget
    obtain hw | ⟨hget, hden, hwith⟩ := execute_key hget
    · exact ⟨Backed.of_wrote hw hw.not_denies, .inl ⟨_, by simp, hw⟩⟩
    · obtain ⟨hback, hans⟩ := h.current w hget
      refine ⟨hback.concat hden, ?_⟩
      obtain ⟨y, hy, hw⟩ | hbind | ⟨y, hy, hq⟩ := hans
      · exact .inl ⟨y, List.mem_append_left _ hy, hw⟩
      · exact .inr (.inl hbind)
      · obtain rfl | hy := hlater y hy
        · exact absurd hq hwith
        · exact .inr (.inr ⟨y, hy, hq⟩)
  · intro pre x post hsplit
    obtain rfl | ⟨post, z, rfl⟩ := List.eq_nil_or_concat post
    · -- the call that was just executed
      obtain ⟨rfl, hx⟩ := List.append_inj' hsplit rfl
      obtain rfl := (List.cons.inj hx).1
      by_cases hw : ∃ b, Call.withdraws ⟨t, none, false⟩ = some b
      · obtain ⟨b, hb⟩ := hw
        obtain ⟨sid, ht⟩ := withdraws_some hb
        simp only at ht
        subst ht
        constructor
        · intro l w hl
          cases Option.some.inj hl
        · intro b hb
          cases hb
      · refine (execute_saw c s.redis t k).mono ?_
        intro w hget
        obtain ⟨hback, hans⟩ := h.current w hget
        refine ⟨hback, ?_⟩
        obtain hwr | hbind | ⟨y, hy, hq⟩ := hans
        · exact .inl hwr
        · exact .inr (.inl hbind)
        · obtain rfl | hy := hlater y hy
          · obtain ⟨b, hb, -⟩ := hq
            exact absurd ⟨b, hb⟩ hw
          · exact .inr (.inr ⟨y, hy, hq.concerns⟩)
    · -- an earlier one: what is later has changed its state
      have hsplit' : done ++ [⟨t, some (execute c s.redis t).2, false⟩] =
          (pre ++ x :: post) ++ [z] := by
        rw [hsplit]
        simp
      obtain ⟨hdone, hz⟩ := List.append_inj' hsplit' rfl
      obtain rfl := (List.cons.inj hz).1
      refine (h.seen pre x post hdone).mono ?_
      rintro w ⟨hback, hans⟩
      refine ⟨hback, hans.mono ?_ fun e he _ _ => .inl he⟩
      intro y hy hq
      obtain hy | hy := List.mem_append.1 hy
      · exact ⟨y, by simp [hy], hq⟩
      · obtain rfl | hy := hlater y hy
        · exact ⟨⟨t, some (execute c s.redis t).2, false⟩, by simp, hq.executed⟩
        · exact ⟨y, List.mem_append_right _ hy, hq⟩
  · intro x hx hxk
    obtain hb | ⟨y, hy, hq⟩ := h.snapshot x hx hxk
    · exact .inl hb
    · refine .inr ?_
      obtain hy | hy := List.mem_append.1 hy
      · exact ⟨y, by simp [hy], hq⟩
      · obtain rfl | hy := hlater y hy
        · exact ⟨⟨t, some (execute c s.redis t).2, false⟩, by simp, hq.executed⟩
        · exact ⟨y, List.mem_append_right _ hy, hq⟩

end Scripts

/-! ## Runs -/

section Runs

variable {k : Key} {s s' : State} {c : Config} {done todo : List Call} {e : Event}

/-- The oldest reply is delivered. -/
theorem Tracked.deliver {t : Task} {r : Reply} {settled : Bool} {calls todo' : List Call}
    (h : Tracked k s (⟨t, some r, settled⟩ :: done) todo) (htables : TablesOk s)
    (hres : Resumed { s with calls := calls } t r s')
    (htodo : ∀ y ∈ todo, y ∈ todo') (hnew : ∀ x, s'.calls = calls ++ [x] → x ∈ todo') :
    Tracked k s' done todo' := by
  have htables' : TablesOk { s with calls := calls } :=
    ⟨htables.bound, htables.once, htables.snapshot⟩
  obtain ⟨-, hredis, htasks, -, -⟩ := hres.frame
  have hwait : waiting s' = waiting s := by rw [waiting, htasks]; rfl
  have hlater : ∀ y ∈ todo ++ waiting s, y ∈ todo' ++ waiting s' := by
    intro y hy
    rw [hwait]
    obtain hy | hy := List.mem_append.1 hy
    · exact List.mem_append_left _ (htodo y hy)
    · exact List.mem_append_right _ hy
  have hnew' : ∀ x, s'.calls = calls ++ [x] → x ∈ todo' ++ waiting s' :=
    fun x hx => List.mem_append_left _ (hnew x hx)
  constructor
  · intro w hget
    rw [hredis] at hget
    obtain ⟨hback, hans⟩ := h.current w hget
    exact ⟨hback.2, Answered.delivered hres htables' hback hans (fun _ hy => hy) hlater hnew'⟩
  · intro pre x post hsplit
    refine (h.seen (⟨t, some r, settled⟩ :: pre) x post (by rw [hsplit]; rfl)).mono ?_
    rintro w ⟨hback, hans⟩
    refine ⟨hback.2, Answered.delivered hres htables' hback hans (fun _ hy => hy.concerns) ?_ ?_⟩
    · intro y hy
      obtain hy | hy := List.mem_append.1 hy
      · exact List.mem_append_left _ hy
      · exact List.mem_append_right _ (hlater y hy)
    · exact fun y hy => List.mem_append_right _ (hnew' y hy)
  · have hold : ∀ x ∈ s.snapshot, x.key = k → (∃ e ∈ s.bindings, e.2.key = k) ∨
        ∃ y ∈ ⟨t, some r, settled⟩ :: (done ++ (todo ++ waiting s)), Concerns k y := h.snapshot
    refine hres.snapshot_kept htables' hold ?_ ?_ ?_
    · refine (h.seen [] _ done rfl).mono ?_
      exact fun w hw => hw.2
    · intro y hy
      obtain hy | hy := List.mem_append.1 hy
      · exact List.mem_append_left _ hy
      · exact List.mem_append_right _ (hlater y hy)
    · exact fun y hy => List.mem_append_right _ (hnew' y hy)

/-- Events that execute and answer nothing: more is under way, and a binding is lost only to its
withdrawal. -/
theorem Tracked.later {todo' : List Call} (h : Tracked k s done todo)
    (hget : ∀ w, s'.redis.get k = some w → s.redis.get k = some w)
    (hsnap : ∀ x ∈ s'.snapshot, x ∈ s.snapshot)
    (hlater : ∀ y ∈ todo ++ waiting s, y ∈ todo' ++ waiting s')
    (hbind : ∀ e ∈ s.bindings, e.2.key = k → e ∈ s'.bindings ∨
      ∃ y ∈ todo' ++ waiting s', WithdrawsFor k e.2.value y) : Tracked k s' done todo' := by
  constructor
  · intro w hw
    obtain ⟨hback, hans⟩ := h.current w (hget w hw)
    refine ⟨hback, hans.mono (fun y hy hq => ⟨y, hlater y hy, hq⟩) ?_⟩
    intro e he hk hv
    exact hv ▸ hbind e he hk
  · intro pre x post hsplit
    refine (h.seen pre x post hsplit).mono ?_
    rintro w ⟨hback, hans⟩
    refine ⟨hback, hans.mono ?_ ?_⟩
    · intro y hy hq
      obtain hy | hy := List.mem_append.1 hy
      · exact ⟨y, List.mem_append_left _ hy, hq⟩
      · exact ⟨y, List.mem_append_right _ (hlater y hy), hq⟩
    · intro e he hk _
      obtain he | ⟨y, hy, hq⟩ := hbind e he hk
      · exact .inl he
      · exact .inr ⟨y, List.mem_append_right _ hy, hq.concerns⟩
  · intro x hx hxk
    obtain ⟨e, he, hk⟩ | ⟨y, hy, hq⟩ := h.snapshot x (hsnap x hx) hxk
    · obtain he | ⟨y, hy, hq⟩ := hbind e he hk
      · exact .inl ⟨e, he, hk⟩
      · exact .inr ⟨y, List.mem_append_right _ hy, hq.concerns⟩
    · refine .inr ?_
      obtain hy | hy := List.mem_append.1 hy
      · exact ⟨y, List.mem_append_left _ hy, hq⟩
      · exact ⟨y, List.mem_append_right _ (hlater y hy), hq⟩

variable {x : Call}

theorem Untouched.not_denies (h : Untouched k s) (hx : x ∈ s.calls) (w : Text) :
    ¬ Denies k w x := by
  rintro ⟨b, hk, ⟨hb, -⟩ | ⟨hb, -⟩⟩
  · exact (h.calls x hx).2 b hb hk
  · obtain ⟨sid, ht, -⟩ := refused_some hb
    exact (h.calls x hx).1 sid b (.inl ht) hk

/-- The first registration that Redis accepts. -/
theorem Untouched.written {b : Binding} {calls : List Call} {redis : Redis} (h : Untouched k s)
    (hsplit : Split s done (x :: todo)) {x' : Call} (hx' : x'.wrote = some b)
    (hsaw : ∀ P, Saw k x' P) (hk : b.key = k) (hget : redis.get k = some b.value) :
    Tracked k { s with redis := redis, calls := calls } (done ++ [x']) todo := by
  have hmem : ∀ y ∈ done, y ∈ s.calls := fun y hy => by
    rw [hsplit.calls]
    exact List.mem_append_left _ hy
  have hconc : Concerns k x' := ⟨b, .inl hx', hk⟩
  constructor
  · intro w hw
    obtain rfl := Option.some.inj (hget.symm.trans hw)
    have hwrote : Wrote k b.value x' := ⟨b, hx', hk, rfl⟩
    exact ⟨Backed.of_wrote hwrote hwrote.not_denies, .inl ⟨x', by simp, hwrote⟩⟩
  · intro pre y post hdone
    obtain rfl | ⟨post, z, rfl⟩ := List.eq_nil_or_concat post
    · obtain ⟨-, hy⟩ := List.append_inj' hdone rfl
      obtain rfl := (List.cons.inj hy).1
      exact hsaw _
    · have hdone' : done ++ [x'] = (pre ++ y :: post) ++ [z] := by
        rw [hdone]
        simp
      obtain ⟨rfl, hz⟩ := List.append_inj' hdone' rfl
      obtain rfl := (List.cons.inj hz).1
      constructor
      · intro l w hl hw
        refine ⟨Backed.of_forall fun y' hy' => h.not_denies (hmem y' (by simp [hy'])) w, ?_⟩
        exact .inr (.inr ⟨x', by simp, hconc⟩)
      · intro b' hb' hk'
        obtain ⟨sid, ht, -⟩ := refused_some hb'
        exact absurd hk' ((h.calls y (hmem y (by simp))).1 sid b' (.inl ht))
  · intro y _ _
    exact .inr ⟨x', by simp, hconc⟩

/-- An event on a key without registrations: there still is none, or one was written. -/
theorem Untouched.exec {t : Task} {calls : List Call} (h : Untouched k s)
    (hcalls : ∀ x ∈ calls, x ∈ s.calls ∨ x = ⟨t, some (execute c s.redis t).2, false⟩)
    (ht : (⟨t, none, false⟩ : Call) ∈ s.calls)
    (hno : ∀ b, Call.wrote ⟨t, some (execute c s.redis t).2, false⟩ = some b → b.key ≠ k) :
    Untouched k { s with redis := (execute c s.redis t).1, calls := calls } := by
  refine ⟨h.bindings, h.tasks, ?_⟩
  intro x hx
  obtain hx | rfl := hcalls x hx
  · exact h.calls x hx
  · exact ⟨(h.calls _ ht).1, hno⟩

theorem Untouched.deliver {t : Task} {r : Reply} {settled : Bool} {calls : List Call}
    (h : Untouched k s) (hx : (⟨t, some r, settled⟩ : Call) ∈ s.calls)
    (hcalls : ∀ x ∈ calls, x ∈ s.calls) (hres : Resumed { s with calls := calls } t r s') :
    Untouched k s' := by
  obtain ⟨hkey, hwrote⟩ := h.calls _ hx
  have hrest : ∀ x ∈ calls, (∀ sid b, x.task = .refresh sid b ∨ x.task = .withdraw sid b →
      b.key ≠ k) ∧ ∀ b, x.wrote = some b → b.key ≠ k := fun x hx => h.calls x (hcalls x hx)
  -- a withdrawal that is sent is for another key
  have hissue : ∀ {sid : Nat} {b : Binding}, b.key ≠ k →
      Untouched k (State.issue { s with calls := calls } (.withdraw sid b)) := by
    intro sid b hb
    refine ⟨h.bindings, h.tasks, ?_⟩
    intro x hx
    obtain hx | hx := List.mem_append.1 hx
    · exact hrest x hx
    · rw [List.mem_singleton.1 hx]
      refine ⟨?_, fun b' hb' => by cases hb'⟩
      rintro sid' b' (ht | ht)
      · cases ht
      · obtain ⟨rfl, rfl⟩ := Task.withdraw.inj ht
        exact hb
  cases hres with
  | rests => exact ⟨h.bindings, h.tasks, hrest⟩
  | renewed => exact ⟨h.bindings, h.tasks, hrest⟩
  | withdrawn => exact ⟨h.bindings, h.tasks, hrest⟩
  | reloaded => exact ⟨h.bindings, h.tasks, hrest⟩
  | @late sid b r hdead hr =>
    apply hissue
    cases r with
    | code c =>
      simp only [Reply.replyInt] at hr
      subst hr
      exact hwrote b rfl
    | listing l => cases hr
    | failed => cases hr
  | @stray sid b r hnot hr => exact hissue (hkey sid b (.inl rfl))
  | @registered sid b r hlive hr =>
    refine ⟨?_, h.tasks, hrest⟩
    intro e he
    obtain rfl | he := mem_of_mem_rebind he
    · cases r with
      | code c =>
        simp only [Reply.replyInt] at hr
        subst hr
        exact hwrote b rfl
      | listing l => cases hr
      | failed => cases hr
    · exact h.bindings e he
  | refused =>
    refine ⟨?_, h.tasks, hrest⟩
    intro e he
    exact h.bindings e (List.mem_of_mem_eraseP he)

/-- The invariant of one key: either the server knows of no registration, or it tracks them. -/
def Followed (k : Key) (s : State) : Prop :=
  ∃ done todo, Split s done todo ∧ (Untouched k s ∨ Tracked k s done todo)

/-- What an event makes of the two cases. -/
def Follows (k : Key) (s : State) (done todo : List Call) (s' : State) : Prop :=
  ∃ done' todo', Split s' done' todo' ∧ (Tracked k s done todo → Tracked k s' done' todo') ∧
    (Untouched k s → Untouched k s' ∨ Tracked k s' done' todo')

variable {t : Task}

/-- Something is put into the run queue. -/
theorem follows_startTask (hsplit : Split s done todo)
    (ht : Untouched k s → ∀ sid b, t = .refresh sid b ∨ t = .withdraw sid b → b.key ≠ k)
    (hcalls : s'.calls = s.calls) (hbind : s'.bindings = s.bindings)
    (hsnap : s'.snapshot = s.snapshot) (hredis : s'.redis = s.redis)
    (htasks : s'.tasks = s.tasks ++ [t]) : Follows k s done todo s' := by
  refine ⟨done, todo, ⟨hcalls ▸ hsplit.calls, hsplit.done, hsplit.todo, hcalls ▸ hsplit.kept⟩, ?_, ?_⟩
  · intro h
    refine h.later (fun w hw => hredis ▸ hw) (fun x hx => hsnap ▸ hx) ?_ fun e he _ => .inl (hbind ▸ he)
    intro y hy
    rw [waiting, htasks, List.map_append, ← List.append_assoc]
    exact List.mem_append_left _ hy
  · intro h
    refine .inl ⟨hbind ▸ h.bindings, ?_, hcalls ▸ h.calls⟩
    intro t' ht' sid b
    rw [htasks] at ht'
    obtain ht' | ht' := List.mem_append.1 ht'
    · exact h.tasks t' ht' sid b
    · rw [List.mem_singleton.1 ht']
      exact ht h sid b

/-- Nothing about the key changes. -/
theorem follows_same (hsplit : Split s done todo) (hcalls : s'.calls = s.calls)
    (hbind : s'.bindings = s.bindings) (hsnap : s'.snapshot = s.snapshot)
    (hget : ∀ w, s'.redis.get k = some w → s.redis.get k = some w) (htasks : s'.tasks = s.tasks) :
    Follows k s done todo s' := by
  refine ⟨done, todo, ⟨hcalls ▸ hsplit.calls, hsplit.done, hsplit.todo, hcalls ▸ hsplit.kept⟩, ?_, ?_⟩
  · intro h
    refine h.later hget (fun x hx => hsnap ▸ hx) ?_ fun e he _ => .inl (hbind ▸ he)
    intro y hy
    rwa [waiting, htasks]
  · exact fun h => .inl ⟨hbind ▸ h.bindings, htasks ▸ h.tasks, hcalls ▸ h.calls⟩

theorem follows_close (hsplit : Split s done todo) (sid : Nat) :
    Follows k s done todo (s.onDelSession sid) := by
  have hwait : waiting (s.onDelSession sid) = waiting s ++
      ((s.bindings.filter (·.1 = sid)).map Prod.snd).map fun b => { task := .withdraw sid b } := by
    simp [waiting, State.onDelSession]
  refine ⟨done, todo, ⟨hsplit.calls, hsplit.done, hsplit.todo, hsplit.kept⟩, ?_, ?_⟩
  · intro h
    refine h.later (fun w hw => hw) ?_ ?_ ?_
    · intro x hx
      have : ∀ (bs : List Binding) (l : List Instance),
          x ∈ bs.foldl (fun l b => dropSnapshot l b.key) l → x ∈ l := by
        intro bs
        induction bs with
        | nil => exact fun l hl => hl
        | cons b bs ih => exact fun l hl => List.mem_of_mem_eraseP (ih _ hl)
      exact this _ _ hx
    · intro y hy
      rw [hwait, ← List.append_assoc]
      exact List.mem_append_left _ hy
    · intro e he hk
      by_cases hsid : e.1 = sid
      · -- the session's bindings are withdrawn
        refine .inr ⟨{ task := .withdraw sid e.2 }, ?_, e.2, rfl, hk, rfl⟩
        rw [hwait, List.mem_append, List.mem_append]
        refine .inr (.inr ?_)
        simp only [List.map_map, List.mem_map, List.mem_filter, decide_eq_true_eq]
        exact ⟨e, ⟨he, hsid⟩, rfl⟩
      · refine .inl ?_
        simp only [State.onDelSession, List.mem_filter, decide_eq_true_eq]
        exact ⟨he, hsid⟩
  · intro h
    refine .inl ⟨fun e he => h.bindings e (List.mem_of_mem_filter he), ?_, h.calls⟩
    intro t ht sid' b htask
    obtain ht | ht := List.mem_append.1 ht
    · exact h.tasks t ht sid' b htask
    · simp only [List.map_map, List.mem_map, List.mem_filter] at ht
      obtain ⟨e, ⟨he, -⟩, rfl⟩ := ht
      obtain htask | htask := htask
      · cases htask
      · obtain ⟨-, rfl⟩ := Task.withdraw.inj htask
        exact h.bindings e he

theorem follows_start (hsplit : Split s done todo) {ts : List Task} (ht : s.tasks = t :: ts) :
    Follows k s done todo ({ s with tasks := ts }.issue t) := by
  refine ⟨done, todo ++ [{ task := t }], ?_, ?_, ?_⟩
  · refine ⟨?_, hsplit.done, ?_, ?_⟩
    · rw [State.issue, hsplit.calls, List.append_assoc]
    · intro x hx
      obtain hx | hx := List.mem_append.1 hx
      · exact hsplit.todo x hx
      · rw [List.mem_singleton.1 hx]
    · intro x hx
      obtain hx | hx := List.mem_append.1 hx
      · exact hsplit.kept x hx
      · rw [List.mem_singleton.1 hx]
  · intro h
    refine h.later (fun w hw => hw) (fun x hx => hx) ?_ fun e he _ => .inl he
    intro y hy
    rw [waiting, ht] at hy
    simpa [State.issue, waiting] using hy
  · intro h
    refine .inl ⟨h.bindings, fun t' ht' => h.tasks t' (by rw [ht]; exact .tail _ ht'), ?_⟩
    intro x hx
    obtain hx | hx := List.mem_append.1 hx
    · exact h.calls x hx
    · rw [List.mem_singleton.1 hx]
      refine ⟨fun sid b htask => h.tasks t (by rw [ht]; simp) sid b htask, ?_⟩
      intro b hb
      rw [(wrote_unexecuted rfl).1] at hb
      cases hb

theorem follows_exec (hsplit : Split s done todo) {settled : Bool} {pre post : List Call}
    (hcalls : s.calls = pre ++ ⟨t, none, settled⟩ :: post) (hpre : ∀ x ∈ pre, x.reply.isSome) :
    Follows k s done todo { s with
      redis := (execute c s.redis t).1
      calls :=
        pre ++ (if settled then [] else [⟨t, some (execute c s.redis t).2, false⟩]) ++ post } := by
  obtain ⟨rfl, rfl⟩ := hsplit.next hcalls rfl hpre
  have hmem : (⟨t, none, settled⟩ : Call) ∈ s.calls := by rw [hcalls]; simp
  obtain rfl : settled = false := hsplit.kept _ hmem
  simp only [Bool.false_eq_true, if_false]
  refine ⟨pre ++ [⟨t, some (execute c s.redis t).2, false⟩], post, ?_, fun h => h.exec, ?_⟩
  · refine ⟨rfl, ?_, fun x hx => hsplit.todo x (by simp [hx]), ?_⟩
    · intro x hx
      obtain hx | hx := List.mem_append.1 hx
      · exact hpre x hx
      · rw [List.mem_singleton.1 hx]
        rfl
    · intro x hx
      simp only [List.mem_append, List.mem_singleton] at hx
      obtain (hx | rfl) | hx := hx
      · exact hsplit.kept x (by rw [hcalls]; simp [hx])
      · rfl
      · exact hsplit.kept x (by rw [hcalls]; simp [hx])
  · intro h
    by_cases hw : ∃ b, Call.wrote ⟨t, some (execute c s.redis t).2, false⟩ = some b ∧ b.key = k
    · -- only a register writes a key nobody has
      obtain ⟨b, hb, hk⟩ := hw
      obtain ⟨sid, ht, hr⟩ | ⟨sid, ht, -⟩ := wrote_some hb
      · simp only at ht hr
        subst ht
        simp only [execute, Option.some.injEq, Reply.code.injEq] at hr
        obtain ⟨hcode, -⟩ | ⟨-, -, hget⟩ := Redis.register_cases c s.redis b
        · rw [hcode] at hr
          cases hr
        · refine .inr (h.written hsplit hb ?_ hk (by simp only [execute, hget, hk, if_true]))
          intro P
          constructor
          · intro l w hl
            cases Option.some.inj hl
          · intro b' hb'
            cases hb'
      · exact absurd hk ((h.calls _ hmem).1 sid b (.inl ht))
    · refine .inl (h.exec ?_ hmem fun b hb hk => hw ⟨b, hb, hk⟩)
      intro x hx
      simp only [List.mem_append, List.mem_singleton] at hx
      obtain (hx | rfl) | hx := hx
      · exact .inl (by rw [hcalls]; simp [hx])
      · exact .inr rfl
      · exact .inl (by rw [hcalls]; simp [hx])

theorem follows_deliver (hwf : Wf s) (hsplit : Split s done todo) {r : Reply} {settled : Bool}
    {post : List Call} (hcalls : s.calls = ⟨t, some r, settled⟩ :: post) :
    Follows k s done todo ({ s with calls := post }.resume t r) := by
  have htables : TablesOk { s with calls := post } :=
    ⟨hwf.tables.bound, hwf.tables.once, hwf.tables.snapshot⟩
  have hres := resumed htables t r
  -- the call is the first of those executed
  obtain ⟨done', rfl, rfl⟩ : ∃ done', done = ⟨t, some r, settled⟩ :: done' ∧
      post = done' ++ todo := by
    have heq := hsplit.calls.symm.trans hcalls
    cases done with
    | nil =>
      have := hsplit.todo ⟨t, some r, settled⟩ (by rw [show todo = _ from heq]; simp)
      cases this
    | cons x done' =>
      obtain ⟨rfl, rfl⟩ := List.cons.inj heq
      exact ⟨done', rfl, rfl⟩
  have hsub : ∀ x ∈ done' ++ todo, x ∈ s.calls := by
    intro x hx
    rw [hcalls]
    exact List.mem_cons_of_mem _ hx
  have hhead : (⟨t, some r, settled⟩ : Call) ∈ s.calls := by
    rw [hcalls]
    exact List.mem_cons_self
  have hdone : ∀ x ∈ done', x.reply.isSome := fun x hx => hsplit.done x (List.mem_cons_of_mem _ hx)
  obtain ⟨-, -, -, -, hnew | ⟨sid, b, hnew⟩⟩ := hres.frame
  · refine ⟨done', todo, ⟨hnew, hdone, hsplit.todo, ?_⟩, ?_, ?_⟩
    · rw [hnew]
      exact fun x hx => hsplit.kept x (hsub x hx)
    · refine fun h => h.deliver hwf.tables hres (fun y hy => hy) ?_
      intro x hx
      rw [hnew] at hx
      exact absurd hx append_singleton_ne
    · exact fun h => .inl (h.deliver hhead hsub hres)
  · refine ⟨done', todo ++ [⟨.withdraw sid b, none, false⟩], ⟨?_, hdone, ?_, ?_⟩, ?_, ?_⟩
    · rw [hnew, List.append_assoc]
    · intro x hx
      obtain hx | hx := List.mem_append.1 hx
      · exact hsplit.todo x hx
      · rw [List.mem_singleton.1 hx]
    · rw [hnew]
      intro x hx
      obtain hx | hx := List.mem_append.1 hx
      · exact hsplit.kept x (hsub x hx)
      · rw [List.mem_singleton.1 hx]
    · refine fun h => h.deliver hwf.tables hres (fun y hy => List.mem_append_left _ hy) ?_
      intro x hx
      rw [hnew] at hx
      obtain rfl := (List.cons.inj (List.append_cancel_left hx)).1
      simp
    · exact fun h => .inl (h.deliver hhead hsub hres)

/-- **Every event in order follows the key.** -/
theorem follows_step (hwf : Wf s) (hsplit : Split s done todo) (horder : InIssueOrder s e)
    (hreply : InReplyOrder s e) (hs : step c s e = some s') : Follows k s done todo s' := by
  cases stepped hs with
  | accept => exact follows_same hsplit rfl rfl rfl (fun _ h => h) rfl
  | @register sid b hlive =>
    rw [State.handleRegister]
    split
    · refine follows_startTask hsplit ?_ rfl rfl rfl rfl rfl
      rintro - sid' b' (ht | ht) <;> cases ht
    · exact follows_same hsplit rfl rfl rfl (fun _ h => h) rfl
  | @heartbeat sid k' hlive =>
    rw [State.handleHeartbeat]
    split
    · exact follows_same hsplit rfl rfl rfl (fun _ h => h) rfl
    · rename_i b hb
      refine follows_startTask hsplit ?_ rfl rfl rfl rfl rfl
      rintro h sid' b' (ht | ht)
      · obtain ⟨-, rfl⟩ := Task.refresh.inj ht
        exact h.bindings _ (mem_of_findBinding hb).1
      · cases ht
  | close hlive => exact follows_close hsplit _
  | reloadTimer =>
    rw [State.startReload]
    split
    · exact follows_same hsplit rfl rfl rfl (fun _ h => h) rfl
    · refine follows_startTask hsplit ?_ rfl rfl rfl rfl rfl
      rintro - sid' b' (ht | ht) <;> cases ht
  | start ht => exact follows_start hsplit ht
  | @exec t settled pre post hcalls =>
    refine follows_exec hsplit hcalls ?_
    have hord : ∀ x ∈ s.calls.take pre.length, x.reply.isSome := horder
    rwa [hcalls, List.take_left' rfl] at hord
  | @deliver t r settled pre post hcalls =>
    obtain rfl : pre = [] := List.length_eq_zero_iff.1 hreply
    exact follows_deliver hwf hsplit hcalls
  | fail => exact hreply.elim
  | lose => exact hreply.elim
  | tick => exact follows_same hsplit rfl rfl rfl (fun _ h => Redis.get_of_advance h) rfl

theorem followed_init (k : Key) (r : Redis) : Followed k (State.init r) := by
  refine ⟨[], [], ⟨rfl, ?_, ?_, ?_⟩, .inl ⟨?_, ?_, ?_⟩⟩ <;> exact fun _ h => by cases h

theorem Followed.step (hwf : Wf s) (h : Followed k s) (horder : InIssueOrder s e)
    (hreply : InReplyOrder s e) (hs : step c s e = some s') : Followed k s' := by
  obtain ⟨done, todo, hsplit, hcase⟩ := h
  obtain ⟨done', todo', hsplit', htracked, huntouched⟩ := follows_step hwf hsplit horder hreply hs
  refine ⟨done', todo', hsplit', ?_⟩
  obtain hcase | hcase := hcase
  · exact huntouched hcase
  · exact .inr (htracked hcase)

/-! ## Nothing comes back -/

/-- The key that a coroutine is about. -/
def Task.key? : Task → Option Key
  | .register _ b => some b.key
  | .refresh _ b => some b.key
  | .withdraw _ b => some b.key
  | .reload => none

/-- No session holds a binding for the key, and no register, refresh or withdrawal of it is under
way. -/
structure AtRest (k : Key) (s : State) : Prop where
  bindings : ∀ e ∈ s.bindings, e.2.key ≠ k
  tasks : ∀ t ∈ s.tasks, t.key? ≠ some k
  calls : ∀ x ∈ s.calls, x.task.key? ≠ some k

/-- And nothing that is there or on its way shows it. -/
structure Gone (k : Key) (s : State) : Prop extends AtRest k s where
  redis : s.redis.get k = none
  listings : ∀ x ∈ s.calls, ∀ l, x.reply = some (.listing l) → ∀ w, (k, w) ∉ l
  snapshot : ∀ x ∈ s.snapshot, x.key ≠ k

theorem AtRest.not_concerns (h : AtRest k s) (hx : x ∈ s.calls ++ waiting s) : ¬ Concerns k x := by
  have hkey : x.task.key? ≠ some k := by
    obtain hx | hx := List.mem_append.1 hx
    · exact h.calls x hx
    · obtain ⟨t, ht, rfl⟩ := List.mem_map.1 hx
      exact h.tasks t ht
  rintro ⟨b, hb | hb, hk⟩
  · obtain ⟨sid, ht, -⟩ | ⟨sid, ht, -⟩ := wrote_some hb <;> rw [ht] at hkey <;>
      exact hkey (congrArg some hk)
  · obtain ⟨sid, ht⟩ := withdraws_some hb
    rw [ht] at hkey
    exact hkey (congrArg some hk)

/-- **A tracked key that is at rest is gone.** -/
theorem Tracked.gone (hsplit : Split s done todo) (h : Tracked k s done todo) (hrest : AtRest k s) :
    Gone k s := by
  have hcalls : ∀ {y : Call}, y ∈ done ++ (todo ++ waiting s) → ¬ Concerns k y := by
    intro y hy
    rw [← List.append_assoc, ← hsplit.calls] at hy
    exact hrest.not_concerns hy
  have hno : ∀ {Q : Call → Prop} {w : Text} {before later : List Call},
      (∀ y ∈ before, y ∈ done ++ (todo ++ waiting s)) →
      (∀ y ∈ later, y ∈ done ++ (todo ++ waiting s)) → (∀ y, Q y → Concerns k y) →
      ¬ Answered Q k w before later s.bindings := by
    intro Q w before later hbefore hlater hQ hans
    obtain ⟨y, hy, b, hb, hk, -⟩ | ⟨e, he, hk, -⟩ | ⟨y, hy, hq⟩ := hans
    · exact hcalls (hbefore y hy) ⟨b, .inl hb, hk⟩
    · exact hrest.bindings e he hk
    · exact hcalls (hlater y hy) (hQ y hq)
  refine ⟨hrest, ?_, ?_, ?_⟩
  · cases hget : s.redis.get k with
    | none => rfl
    | some w =>
      exact absurd (h.current w hget).2 (hno (fun y hy => List.mem_append_left _ hy)
        (fun y hy => List.mem_append_right _ hy) fun y hy => hy.concerns)
  · intro x hx l hl w hw
    have hx' : x ∈ done := by
      rw [hsplit.calls] at hx
      obtain hx | hx := List.mem_append.1 hx
      · exact hx
      · rw [hsplit.todo x hx] at hl
        cases hl
    obtain ⟨pre, post, hdone⟩ := List.append_of_mem hx'
    refine absurd ((h.seen pre x post hdone).1 l w hl hw).2 (hno ?_ ?_ fun y hy => hy)
    · intro y hy
      rw [hdone]
      simp [hy]
    · intro y hy
      rw [hdone, List.append_assoc, List.mem_append]
      exact .inr (List.mem_cons_of_mem _ hy)
  · intro x hx hxk
    obtain ⟨e, he, hk⟩ | ⟨y, hy, hq⟩ := h.snapshot x hx hxk
    · exact hrest.bindings e he hk
    · exact hcalls hy hq

/-- The event starts a register of the key; a refresh needs a binding. -/
def StartsRegister (k : Key) : Event → Prop
  | .register _ b => State.validRequest b = true ∧ b.key = k
  | _ => False

theorem execute_get_ne (ht : t.key? ≠ some k) (r : Redis) : (execute c r t).1.get k = r.get k := by
  cases t with
  | register sid b =>
    have hk : k ≠ b.key := fun h => ht (congrArg some h.symm)
    obtain ⟨-, hsame, -⟩ | ⟨-, -, hget⟩ := Redis.register_cases c r b
    · simp only [execute, hsame]
    · simp only [execute, hget, hk, if_false]
  | refresh sid b =>
    have hk : k ≠ b.key := fun h => ht (congrArg some h.symm)
    obtain ⟨-, hsame, -⟩ | ⟨-, -, hget⟩ | ⟨-, -, hget⟩ := Redis.refresh_cases c r b
    · simp only [execute, hsame]
    · simp only [execute, hget, hk, if_false]
    · simp only [execute, hget, hk, if_false]
  | withdraw sid b =>
    have hk : k ≠ b.key := fun h => ht (congrArg some h.symm)
    simp only [execute, Redis.withdraw_get, hk, false_and, if_false]
  | reload => rfl

/-- Fewer calls, or calls of other keys. -/
theorem Gone.calls_of (h : Gone k s) {calls : List Call} {redis : Redis}
    (hredis : redis.get k = none)
    (hcalls : ∀ x ∈ calls, x ∈ s.calls ∨ (x.task.key? ≠ some k ∧
      ∀ l, x.reply = some (.listing l) → ∀ w, (k, w) ∉ l)) :
    Gone k { s with redis := redis, calls := calls } := by
  refine ⟨⟨h.bindings, h.tasks, ?_⟩, hredis, ?_, h.snapshot⟩
  · intro x hx
    obtain hx | hx := hcalls x hx
    · exact h.calls x hx
    · exact hx.1
  · intro x hx
    obtain hx | hx := hcalls x hx
    · exact h.listings x hx
    · exact hx.2

/-- A coroutine of another key goes on. -/
theorem Gone.goesOn {r : Reply} (h : Gone k s) (ht : t.key? ≠ some k)
    (hr : ∀ l, r = .listing l → ∀ w, (k, w) ∉ l) (hres : Resumed s t r s') : Gone k s' := by
  have hissue : ∀ {sid : Nat} {b : Binding}, b.key ≠ k → Gone k (s.issue (.withdraw sid b)) := by
    intro sid b hb
    refine h.calls_of h.redis ?_
    intro x hx
    obtain hx | hx := List.mem_append.1 hx
    · exact .inl hx
    · rw [List.mem_singleton.1 hx]
      exact .inr ⟨fun hk => hb (Option.some.inj hk), fun l hl => by cases hl⟩
  have hput : ∀ {b : Binding} {x : Instance}, b.key ≠ k → x ∈ putSnapshot s.snapshot b →
      x.key ≠ k := by
    intro b x hb hx
    obtain hx | hx := List.mem_append.1 hx
    · exact h.snapshot x (List.mem_of_mem_eraseP hx)
    · rw [List.mem_singleton.1 hx]
      exact hb
  cases hres with
  | rests => exact ⟨⟨h.bindings, h.tasks, h.calls⟩, h.redis, h.listings, h.snapshot⟩
  | late => exact hissue fun hk => ht (congrArg some hk)
  | stray => exact hissue fun hk => ht (congrArg some hk)
  | registered =>
    have hb := fun hk => ht (congrArg some hk)
    refine ⟨⟨?_, h.tasks, h.calls⟩, h.redis, h.listings, fun x hx => hput hb hx⟩
    intro e he
    obtain rfl | he := mem_of_mem_rebind he
    · exact hb
    · exact h.bindings e he
  | renewed =>
    have hb := fun hk => ht (congrArg some hk)
    exact ⟨⟨h.bindings, h.tasks, h.calls⟩, h.redis, h.listings, fun x hx => hput hb hx⟩
  | refused =>
    refine ⟨⟨?_, h.tasks, h.calls⟩, h.redis, h.listings, ?_⟩
    · exact fun e he => h.bindings e (List.mem_of_mem_eraseP he)
    · exact fun x hx => h.snapshot x (List.mem_of_mem_eraseP hx)
  | withdrawn =>
    refine ⟨⟨h.bindings, h.tasks, h.calls⟩, h.redis, h.listings, ?_⟩
    exact fun x hx => h.snapshot x (List.mem_of_mem_eraseP hx)
  | @reloaded l =>
    refine ⟨⟨h.bindings, h.tasks, h.calls⟩, h.redis, h.listings, ?_⟩
    intro x hx hxk
    obtain ⟨e, he, hparse⟩ := List.mem_filterMap.1 hx
    obtain ⟨v, -, rfl⟩ := Option.map_eq_some_iff.1 hparse
    refine hr l rfl e.2 ?_
    rw [← hxk]
    exact he

/-- Something of another key is put into the run queue. -/
theorem Gone.startTask (h : Gone k s) (ht : t.key? ≠ some k) : Gone k (s.startTask t) := by
  refine ⟨⟨h.bindings, ?_, h.calls⟩, h.redis, h.listings, h.snapshot⟩
  intro t' ht'
  obtain ht' | ht' := List.mem_append.1 ht'
  · exact h.tasks t' ht'
  · rw [List.mem_singleton.1 ht']
    exact ht

/-- **A key that is gone stays so** until a register of it is started, whatever the order of
execution and replies. -/
theorem Gone.step (hwf : Wf s) (h : Gone k s) (hno : ¬ StartsRegister k e)
    (hs : step c s e = some s') : Gone k s' := by
  have htables : ∀ calls, TablesOk { s with calls := calls } :=
    fun _ => ⟨hwf.tables.bound, hwf.tables.once, hwf.tables.snapshot⟩
  cases stepped hs with
  | accept => exact ⟨⟨h.bindings, h.tasks, h.calls⟩, h.redis, h.listings, h.snapshot⟩
  | @register sid b hlive =>
    rw [State.handleRegister]
    split
    · rename_i hvalid
      exact h.startTask fun hk => hno ⟨hvalid, Option.some.inj hk⟩
    · exact ⟨⟨h.bindings, h.tasks, h.calls⟩, h.redis, h.listings, h.snapshot⟩
  | @heartbeat sid k' hlive =>
    rw [State.handleHeartbeat]
    split
    · exact ⟨⟨h.bindings, h.tasks, h.calls⟩, h.redis, h.listings, h.snapshot⟩
    · rename_i b hb
      exact h.startTask fun hk =>
        h.bindings _ (mem_of_findBinding hb).1 (Option.some.inj hk)
  | @close sid hlive =>
    refine ⟨⟨fun e he => h.bindings e (List.mem_of_mem_filter he), ?_, h.calls⟩, h.redis,
      h.listings, ?_⟩
    · intro t ht
      obtain ht | ht := List.mem_append.1 ht
      · exact h.tasks t ht
      · simp only [List.map_map, List.mem_map, List.mem_filter] at ht
        obtain ⟨e, ⟨he, -⟩, rfl⟩ := ht
        exact fun hk => h.bindings e he (Option.some.inj hk)
    · intro x hx
      exact h.snapshot x ((mem_drops hwf.tables.snapshot).1 hx).1
  | reloadTimer =>
    rw [State.startReload]
    split
    · exact h
    · have hflag : Gone k { s with reloading := true } :=
        ⟨⟨h.bindings, h.tasks, h.calls⟩, h.redis, h.listings, h.snapshot⟩
      exact hflag.startTask fun hk => by cases hk
  | @start t ts ht =>
    have hts : Gone k { s with tasks := ts } :=
      ⟨⟨h.bindings, fun t' ht' => h.tasks t' (by rw [ht]; exact .tail _ ht'), h.calls⟩, h.redis,
        h.listings, h.snapshot⟩
    refine hts.calls_of hts.redis ?_
    intro x hx
    obtain hx | hx := List.mem_append.1 hx
    · exact .inl hx
    · rw [List.mem_singleton.1 hx]
      exact .inr ⟨h.tasks t (by rw [ht]; simp), fun l hl => by cases hl⟩
  | @exec t settled pre post hcalls =>
    have ht := h.calls ⟨t, none, settled⟩ (by rw [hcalls]; simp)
    refine h.calls_of ((execute_get_ne ht s.redis).trans h.redis) ?_
    intro x hx
    simp only [List.mem_append] at hx
    obtain (hx | hx) | hx := hx
    · exact .inl (by rw [hcalls]; simp [hx])
    · split at hx
      · cases hx
      · rw [List.mem_singleton.1 hx]
        refine .inr ⟨ht, ?_⟩
        intro l hl w hw
        have hget := (execute_saw c s.redis t k).1 l w hl hw
        rw [h.redis] at hget
        cases hget
    · exact .inl (by rw [hcalls]; simp [hx])
  | @deliver t r settled pre post hcalls =>
    have hbase : Gone k { s with calls := pre ++ post } := by
      refine h.calls_of h.redis ?_
      intro x hx
      rw [hcalls]
      obtain hx | hx := List.mem_append.1 hx <;> exact .inl (by simp [hx])
    have hmem : (⟨t, some r, settled⟩ : Call) ∈ s.calls := by rw [hcalls]; simp
    refine hbase.goesOn (h.calls _ hmem) ?_ (resumed (htables _) t r)
    exact fun l hl => h.listings _ hmem l (by rw [hl])
  | @fail t r settled pre rest post hcalls hrest =>
    have hmem : (⟨t, r, settled⟩ : Call) ∈ s.calls := by rw [hcalls]; simp
    have hbase : Gone k { s with calls := pre ++ rest ++ post } := by
      refine h.calls_of h.redis ?_
      intro x hx
      simp only [List.mem_append] at hx
      obtain (hx | hx) | hx := hx
      · exact .inl (by rw [hcalls]; simp [hx])
      · obtain rfl | ⟨-, rfl⟩ := hrest
        · cases hx
        · rw [List.mem_singleton.1 hx]
          have ht := h.calls _ hmem
          exact .inr ⟨ht, fun l hl => by cases hl⟩
      · exact .inl (by rw [hcalls]; simp [hx])
    refine hbase.goesOn (h.calls _ hmem) ?_ (resumed (htables _) t .failed)
    exact fun l hl => by cases hl
  | @lose t pre post hcalls =>
    refine h.calls_of h.redis ?_
    intro x hx
    rw [hcalls]
    obtain hx | hx := List.mem_append.1 hx <;> exact .inl (by simp [hx])
  | tick =>
    refine ⟨⟨h.bindings, h.tasks, h.calls⟩, ?_, h.listings, h.snapshot⟩
    cases hget : (s.redis.advance _).get k with
    | none => rfl
    | some w =>
      have := Redis.get_of_advance hget
      rw [h.redis] at this
      cases this

/-- **The snapshot has no duplicates and nothing comes back.**  In a run in which Redis executes and
answers in order: the snapshot has one entry for a key; and once a withdrawal of a key is done, with
no binding for it and no other operation on it under way, no step shows it again until a register of
it is started. -/
theorem no_resurrection {r : Redis} (hr : r.SetsOk) {es : List Event}
    (hcond : Along (step c) (fun s e => InIssueOrder s e ∧ InReplyOrder s e) (State.init r) es)
    (hrun : runFrom (step c) (State.init r) es = some s) :
    (s.snapshot.map Instance.key).Nodup ∧
      ∀ k sid b reply settled s₁, s.calls[0]? = some ⟨.withdraw sid b, some reply, settled⟩ →
        b.key = k → step c s (.deliver 0) = some s₁ → AtRest k s₁ →
        ∀ es₂ s₂, (∀ e ∈ es₂, ¬ StartsRegister k e) → runFrom (step c) s₁ es₂ = some s₂ →
          ∀ x ∈ s₂.snapshot, x.key ≠ k := by
  have hwf := wf_run hr hrun
  refine ⟨hwf.tables.snapshot, ?_⟩
  intro k sid b reply settled s₁ hcall hk hs hrest es₂ s₂ hno hrun₂
  have hinv : Wf s ∧ Followed k s :=
    runFrom_invariant_along (I := fun s => Wf s ∧ Followed k s)
      (fun _ _ _ hI hP hs => ⟨hI.1.step hs, hI.2.step hI.1 hP.1 hP.2 hs⟩)
      ⟨wf_init hr, followed_init k r⟩ hcond hrun
  obtain ⟨done, todo, hsplit, hcase⟩ := hinv.2
  -- the withdrawal tells that the key was written
  have htracked : Tracked k s done todo := by
    obtain hun | htr := hcase
    · exact absurd hk ((hun.calls _ (List.mem_of_getElem? hcall)).1 sid b (.inr rfl))
    · exact htr
  have horder : InIssueOrder s (.deliver 0) := trivial
  obtain ⟨done', todo', hsplit', hnext, -⟩ := follows_step hwf hsplit horder rfl hs
  have hgone : Gone k s₁ := (hnext htracked).gone hsplit' hrest
  have hend : Wf s₂ ∧ Gone k s₂ :=
    runFrom_invariant_along (I := fun s => Wf s ∧ Gone k s) (P := fun _ e => ¬ StartsRegister k e)
      (fun _ _ _ hI hP hs => ⟨hI.1.step hs, hI.2.step hI.1 hP hs⟩) ⟨hwf.step hs, hgone⟩
      (along_of_forall s₁ hno) hrun₂
  exact hend.2.snapshot

/-- One session comes and goes. -/
def oneSession : List Event :=
  [.accept, .register 1 plain, .start, .exec 0, .deliver 0, .close 1, .reloadTimer, .start, .exec 0]

/-- The registry reloads after its withdrawal. -/
theorem no_resurrection_after_reload :
    ∃ s s₁ s₂, runFrom (step (Config.ofRaw 0)) (State.init {}) oneSession = some s ∧
      step (Config.ofRaw 0) s (.deliver 0) = some s₁ ∧
      runFrom (step (Config.ofRaw 0)) s₁ [.start, .exec 0, .deliver 0] = some s₂ ∧
      s₂.snapshotOk = true ∧ ∀ x ∈ s₂.snapshot, x.key ≠ plain.key := by
  have hbefore : (runFrom (step (Config.ofRaw 0)) (State.init {}) oneSession).map (fun s => s.calls) =
      some [⟨.withdraw 1 plain, some (.code .ok), false⟩] := by
    decide +kernel
  have hafter : (runFrom (step (Config.ofRaw 0)) (State.init {}) oneSession).bind (fun s =>
      (step (Config.ofRaw 0) s (.deliver 0)).bind fun s₁ =>
        (runFrom (step (Config.ofRaw 0)) s₁ [.start, .exec 0, .deliver 0]).map fun s₂ =>
          (s₁.bindings, s₁.tasks, s₁.calls, s₂.snapshotOk)) = some ([], [.reload], [], true) := by
    decide +kernel
  obtain ⟨s, hs, hcalls⟩ := Option.map_eq_some_iff.1 hbefore
  rw [hs, Option.bind_some] at hafter
  obtain ⟨s₁, hs₁, hafter⟩ := Option.bind_eq_some_iff.1 hafter
  obtain ⟨s₂, hs₂, hafter⟩ := Option.map_eq_some_iff.1 hafter
  simp only [Prod.mk.injEq] at hafter
  obtain ⟨hbind, htasks, hcalls₁, hok⟩ := hafter
  refine ⟨s, s₁, s₂, hs, hs₁, hs₂, hok, ?_⟩
  refine (no_resurrection ⟨List.nodup_nil, fun _ => List.nodup_nil⟩ (by decide +kernel) hs).2
    plain.key 1 plain (.code .ok) false s₁ (by rw [hcalls]; rfl) rfl hs₁ ?_ _ s₂ ?_ hs₂
  · constructor
    · rw [hbind]
      exact fun e he => by cases he
    · rw [htasks]
      intro t ht hk
      rw [List.mem_singleton.1 ht] at hk
      cases hk
    · rw [hcalls₁]
      exact fun x hx => by cases hx
  · intro e he
    simp only [List.mem_cons, List.not_mem_nil, or_false] at he
    obtain rfl | rfl | rfl := he <;> exact id

/-- Two sessions held one id in turn and both are gone; a reload is sent between their
withdrawals. -/
def twoOwners : List Event :=
  [.accept, .accept, .register 1 plain, .start, .exec 0, .deliver 0, .tick 3000, .register 2 rival,
    .start, .exec 0, .deliver 0, .close 1, .reloadTimer, .close 2, .start, .start, .start, .exec 0,
    .exec 1, .exec 2]

/-- The first withdrawal is done when the reload brings the id back; no register or refresh is under
way. -/
theorem reload_between_withdrawals :
    Along (step (Config.ofRaw 0)) (fun s e => InIssueOrder s e ∧ InReplyOrder s e) (State.init {})
        twoOwners ∧
      ∃ s s₁ s₂, runFrom (step (Config.ofRaw 0)) (State.init {}) twoOwners = some s ∧
        s.calls[0]? = some ⟨.withdraw 1 plain, some (.code .ok), false⟩ ∧
        step (Config.ofRaw 0) s (.deliver 0) = some s₁ ∧ s₁.bindings = [] ∧ s₁.tasks = [] ∧
        s₁.calls.map Call.task = [.reload, .withdraw 2 rival] ∧
        step (Config.ofRaw 0) s₁ (.deliver 0) = some s₂ ∧ ∃ x ∈ s₂.snapshot, x.key = plain.key := by
  refine ⟨by decide +kernel, ?_⟩
  have hbefore : (runFrom (step (Config.ofRaw 0)) (State.init {}) twoOwners).map
      (fun s => s.calls[0]?) = some (some ⟨.withdraw 1 plain, some (.code .ok), false⟩) := by
    decide +kernel
  have hafter : (runFrom (step (Config.ofRaw 0)) (State.init {}) twoOwners).bind (fun s =>
      (step (Config.ofRaw 0) s (.deliver 0)).bind fun s₁ =>
        (step (Config.ofRaw 0) s₁ (.deliver 0)).map fun s₂ =>
          (s₁.bindings, s₁.tasks, s₁.calls.map Call.task, s₂.snapshot)) =
      some ([], [], [.reload, .withdraw 2 rival], [rival.toInstance]) := by
    decide +kernel
  obtain ⟨s, hs, hcall⟩ := Option.map_eq_some_iff.1 hbefore
  rw [hs, Option.bind_some] at hafter
  obtain ⟨s₁, hs₁, hafter⟩ := Option.bind_eq_some_iff.1 hafter
  obtain ⟨s₂, hs₂, hafter⟩ := Option.map_eq_some_iff.1 hafter
  simp only [Prod.mk.injEq] at hafter
  obtain ⟨hbind, htasks, hcalls, hsnap⟩ := hafter
  refine ⟨s, s₁, s₂, hs, hcall, hs₁, hbind, htasks, hcalls, hs₂, rival.toInstance, ?_, rfl⟩
  rw [hsnap]
  exact List.mem_cons_self

end Runs

end OpenIdea.Registry
