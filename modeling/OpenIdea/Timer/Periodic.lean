import OpenIdea.Timer.Clock

/-!
# A periodic timer

A timer whose callback answers `RESET_TIMER` is put back into the wheel by `run_timer` for its own
period. For a timer that is added once, `InOnePlace` says that it is in the wheel, due, running, or
nowhere, and never in two of these places. So when its callback runs it is out of the wheel, and
whether it comes back is decided by how the callback ends: a callback that throws is not renewed
(`Running.renewed`, `Running.threw`).
-/

set_option autoImplicit false

namespace OpenIdea.Timer

open OpenIdea.Lib.Runs

variable {τ : Type} [DecidableEq τ] {cfg : LevelConfig} {tick : TickLength}

/-! ## The period of a timer -/

/-- The two wheels give every timer the same period. -/
def SamePeriod (w w' : TimerWheel τ) : Prop :=
  ∀ x, (w'.data x).offsetMilliseconds = (w.data x).offsetMilliseconds

variable {w w' : TimerWheel τ} {initTime ms : Int} {s s' : Manager τ} {x : τ}

omit [DecidableEq τ] in
theorem SamePeriod.trans {w'' : TimerWheel τ} (h : SamePeriod w w') (h' : SamePeriod w' w'') :
    SamePeriod w w'' :=
  fun x => (h' x).trans (h x)

theorem levelAddTimer_period {i iLevelOffset : Nat} {y : τ}
    (h : levelAddTimer cfg w i y iLevelOffset = some w') : SamePeriod w w' := by
  simp only [levelAddTimer] at h
  obtain ⟨_, rfl⟩ := of_guard h
  intro x
  rcases eq_or_ne x y with rfl | hne
  · simp
  · simp [hne]

theorem addTimerFrom_period {w w' : TimerWheel τ} {y : τ} {iOffset : Nat} :
    ∀ {left i : Nat}, addTimerFrom cfg w y iOffset left i = some w' → SamePeriod w w'
  | 0, _, h => levelAddTimer_period h
  | left + 1, i, h => by
      simp only [addTimerFrom] at h
      obtain ⟨_, h⟩ := Option.ite_none_left_eq_some.1 h
      split at h
      · exact addTimerFrom_period h
      · exact levelAddTimer_period h

theorem addAll_period :
    ∀ {l : List τ} {w w' : TimerWheel τ}, addAll cfg w l = some w' → SamePeriod w w'
  | [], w, w', h => by
      obtain rfl := Option.some.inj h
      exact fun _ => rfl
  | y :: l, w, w', h => by
      obtain ⟨w₁, hadd, hall⟩ := Option.bind_eq_some_iff.1 h
      exact (addTimerFrom_period hadd).trans (addAll_period hall)

omit [DecidableEq τ] in
theorem levelRunTick_period {i : Nat} {l : List τ} (h : levelRunTick cfg w i = some (l, w')) :
    SamePeriod w w' := by
  simp only [levelRunTick] at h
  obtain ⟨_, h⟩ := Option.ite_none_right_eq_some.1 h
  obtain ⟨-, rfl⟩ := Prod.mk.inj (Option.some.inj h)
  exact fun _ => rfl

theorem tryUniformFrom_period :
    ∀ {left i : Nat} {w w' : TimerWheel τ}, tryUniformFrom cfg left i w = some w' →
      SamePeriod w w'
  | 0, _, w, w', h => by
      obtain rfl := Option.some.inj h
      exact fun _ => rfl
  | left + 1, i, w, w', h => by
      simp only [tryUniformFrom] at h
      split at h
      · obtain ⟨⟨l, w₁⟩, hrun, h⟩ := Option.bind_eq_some_iff.1 h
        obtain ⟨w₂, hall, hrest⟩ := Option.bind_eq_some_iff.1 h
        exact (levelRunTick_period hrun).trans
          ((addAll_period hall).trans (tryUniformFrom_period hrest))
      · exact tryUniformFrom_period h

/-- A tick moves timers between slots and changes no period. -/
theorem runTick_period {due : List τ} (h : runTick cfg w = some (due, w')) : SamePeriod w w' := by
  obtain ⟨⟨l, w₁⟩, hrun, h⟩ := Option.bind_eq_some_iff.1 h
  have hlevel : SamePeriod w w₁ := fun x => levelRunTick_period hrun x
  split at h
  · obtain ⟨w₂, huniform, hpair⟩ := Option.map_eq_some_iff.1 h
    obtain ⟨-, rfl⟩ := Prod.mk.inj hpair
    exact hlevel.trans (tryUniformFrom_period huniform)
  · obtain ⟨-, rfl⟩ := Prod.mk.inj (Option.some.inj h)
    exact hlevel

/-- `InitData` sets the period of its own timer only. -/
theorem armTimer_period {y : τ} {k : Nat} (h : armTimer cfg w y ms k = some w') (x : τ) :
    (w'.data x).offsetMilliseconds = if x = y then ms else (w.data x).offsetMilliseconds := by
  unfold armTimer at h
  obtain ⟨_, h⟩ := Option.ite_none_right_eq_some.1 h
  rw [addTimerFrom_period h x]
  rcases eq_or_ne x y with rfl | hne
  · simp [TimerWheel.initData]
  · simp [TimerWheel.initData, hne]

variable {e : ManagerEvent τ} {events : List (ManagerEvent τ)}

/-- Every event but an `AddTimer` of the timer itself keeps its period. -/
theorem managerStep_period (hadd : ∀ ms, e ≠ .addTimer x ms)
    (h : managerStep cfg tick s e = some s') :
    (s'.wheel.data x).offsetMilliseconds = (s.wheel.data x).offsetMilliseconds := by
  cases managerStep_move h with
  | tick due w hdue hidle hleft hrun => exact runTick_period hrun x
  | renewed y w hy hop =>
    simp only [renewal, exec, Option.map_eq_some_iff, Prod.mk.injEq, true_and] at hop
    obtain ⟨w₁, harm, rfl⟩ := hop
    -- the renewal arms the timer with the period it already has
    rw [armTimer_period harm x]
    split
    · rename_i heq
      rw [heq]
    · rfl
  | added y ms w hop =>
    simp only [exec, Option.map_eq_some_iff, Prod.mk.injEq, true_and] at hop
    obtain ⟨w₁, harm, rfl⟩ := hop
    have hne : x ≠ y := by
      rintro rfl
      exact hadd ms rfl
    rw [armTimer_period harm x, if_neg hne]
  | removed y w hop =>
    simp only [exec, Option.map_eq_some_iff, Prod.mk.injEq, true_and] at hop
    obtain ⟨⟨b, w₁⟩, hrem, rfl⟩ := hop
    rw [(removeTimer_frame hrem).2.2.1]
  | _ => rfl

/-! ## One place at a time -/

/-- A timer added at most once is in the wheel, due, running, or nowhere. -/
structure InOnePlace (cfg : LevelConfig) (x : τ) (s : Manager τ) : Prop where
  wheel : Absent s.wheel x ∨ ∃ t, Armed cfg s.wheel x t
  due : x ∈ s.due → Absent s.wheel x ∧ s.due.count x = 1
  running : s.running = some x → Absent s.wheel x ∧ x ∉ s.due

/-- Changing the wheel without touching the timer keeps its place. -/
theorem exec_inOnePlace {op : WheelOp τ} (hoff : OffsetsOk cfg s.wheel)
    (h : exec cfg op s.wheel = some ([], w)) (hop : op.Leaves x) (hs : InOnePlace cfg x s) :
    InOnePlace cfg x { s with wheel := w } := by
  obtain ⟨habsent, harmed⟩ := exec_leaves hoff hop h
  refine ⟨?_, fun hx => ?_, fun hx => ?_⟩
  · rcases hs.wheel with hx | ⟨t, ht⟩
    · exact Or.inl (habsent hx).2
    · rcases harmed t ht with ⟨-, ht'⟩ | ⟨hcount, -⟩
      · exact Or.inr ⟨t, ht'⟩
      · cases hcount
  · exact ⟨(habsent (hs.due hx).1).2, (hs.due hx).2⟩
  · exact ⟨(habsent (hs.running hx).1).2, (hs.running hx).2⟩

/-- A callback that has ended leaves its timer where it was. -/
theorem InOnePlace.ended {x : τ} {s : Manager τ} (hs : InOnePlace cfg x s) :
    InOnePlace cfg x { s with running := none } :=
  ⟨hs.wheel, hs.due, nofun⟩

theorem removeTimer_inOnePlace (h : exec cfg (.remove x) s.wheel = some ([], w))
    (hs : InOnePlace cfg x s) : InOnePlace cfg x { s with wheel := w } := by
  simp only [exec, Option.map_eq_some_iff, Prod.mk.injEq, true_and] at h
  obtain ⟨⟨b, w₁⟩, hrem, rfl⟩ := h
  rcases removeTimer_self hrem with rfl | ⟨i, j, hmem, rfl⟩
  · exact hs
  · have hcount : (s.wheel.tickDatas i j).count x ≠ 0 := (List.count_pos_iff.2 hmem).ne'
    -- the timer was in the wheel, so it is neither due nor running
    have hnot : ¬ Absent s.wheel x := fun habsent => hcount (habsent i j)
    obtain ⟨t, -, i₀, q, hat, -⟩ := hs.wheel.resolve_left hnot
    exact ⟨Or.inl (hat.absent_erase hmem), fun hx => absurd (hs.due hx).1 hnot,
      fun hx => absurd (hs.running hx).1 hnot⟩

theorem managerStep_inOnePlace (hstep : InStep cfg tick initTime s)
    (hadd : ∀ ms, e ≠ .addTimer x ms) (h : managerStep cfg tick s e = some s')
    (hs : InOnePlace cfg x s) : InOnePlace cfg x s' := by
  cases managerStep_move h with
  | elapse us => exact ⟨hs.wheel, hs.due, hs.running⟩
  | update hleft => exact ⟨hs.wheel, hs.due, hs.running⟩
  | tick due w hdue hidle hleft hrun =>
    obtain ⟨habsent, harmed⟩ := exec_leaves (x := x) hstep.offsetsOk
      (show WheelOp.Leaves x .tick from trivial) hrun
    have hnone : s.running ≠ some x := by
      rw [hidle]
      intro h
      cases h
    rcases hs.wheel with hx | ⟨t, ht⟩
    · obtain ⟨hcount, hx'⟩ := habsent hx
      exact ⟨Or.inl hx', fun hmem => absurd hmem (List.count_eq_zero.1 hcount),
        fun hr => absurd hr hnone⟩
    · rcases harmed t ht with ⟨hcount, ht'⟩ | ⟨hcount, hx', -⟩
      · exact ⟨Or.inr ⟨t, ht'⟩, fun hmem => absurd hmem (List.count_eq_zero.1 hcount),
          fun hr => absurd hr hnone⟩
      · exact ⟨Or.inl hx', fun _ => ⟨hx', hcount⟩, fun hr => absurd hr hnone⟩
  | callback y rest hidle hdue =>
    have hrest : y ≠ x → (y :: rest).count x = rest.count x := fun hyx =>
      List.count_cons_of_ne hyx
    refine ⟨hs.wheel, fun hmem => ?_, fun hr => ?_⟩
    · obtain ⟨habsent, hcount⟩ := hs.due (hdue ▸ List.mem_cons_of_mem y hmem)
      rw [hdue] at hcount
      have hyx : y ≠ x := by
        rintro rfl
        rw [List.count_cons_self, Nat.add_eq_right] at hcount
        exact absurd (List.count_pos_iff.2 hmem) hcount.not_gt
      exact ⟨habsent, (hrest hyx).symm.trans hcount⟩
    · obtain rfl := Option.some.inj hr
      obtain ⟨habsent, hcount⟩ := hs.due (hdue ▸ List.mem_cons_self)
      rw [hdue, List.count_cons_self, Nat.add_eq_right] at hcount
      exact ⟨habsent, List.count_eq_zero.1 hcount⟩
  | ended => exact hs.ended
  | renewed y w hy hop =>
    rcases eq_or_ne y x with rfl | hyx
    · obtain ⟨habsent, hnot⟩ := hs.running hy
      simp only [renewal, exec, Option.map_eq_some_iff, Prod.mk.injEq, true_and] at hop
      obtain ⟨w₁, harm, rfl⟩ := hop
      obtain ⟨hms, hk⟩ := armTimer_positive harm
      obtain ⟨w₂, harm₂, -, -, hx⟩ := armTimer_armed hstep.offsetsOk habsent hms hk
      obtain rfl := Option.some.inj (harm.symm.trans harm₂)
      exact ⟨Or.inr ⟨_, hx⟩, fun hmem => absurd hmem hnot, fun h => by cases h⟩
    · exact (exec_inOnePlace hstep.offsetsOk hop hyx hs).ended
  | added y ms w hop =>
    have hyx : y ≠ x := by
      rintro rfl
      exact hadd ms rfl
    exact exec_inOnePlace hstep.offsetsOk hop hyx hs
  | removed y w hop =>
    rcases eq_or_ne y x with rfl | hyx
    · exact removeTimer_inOnePlace hop hs
    · exact exec_inOnePlace hstep.offsetsOk hop hyx hs

/-! ## A timer added once -/

/-- The event is no `AddTimer` of `x`. -/
def ManagerEvent.NotAdd (x : τ) : ManagerEvent τ → Prop
  | .addTimer y _ => y ≠ x
  | _ => True

omit [DecidableEq τ] in
theorem ManagerEvent.NotAdd.ne (h : e.NotAdd x) (ms : Int) : e ≠ .addTimer x ms := by
  rintro rfl
  exact h rfl

/-- The events add `x` once, with period `ms`. -/
structure AddsOnce (x : τ) (ms : Int) (events : List (ManagerEvent τ)) : Prop where
  split : ∃ before after, events = before ++ .addTimer x ms :: after ∧
    (∀ e ∈ before, e.NotAdd x) ∧ ∀ e ∈ after, e.NotAdd x

/-- What is known of a timer that was added once with period `ms`, while its callback runs. -/
structure Running (cfg : LevelConfig) (x : τ) (ms : Int) (s : Manager τ) : Prop where
  offsetsOk : OffsetsOk cfg s.wheel
  absent : Absent s.wheel x
  not_due : x ∉ s.due
  period : (s.wheel.data x).offsetMilliseconds = ms
  period_pos : 0 < ms

/-- Events other than an `AddTimer` of the timer keep it in one place. -/
theorem run_inOnePlace (hnot : ∀ e ∈ events, e.NotAdd x)
    (hs : InStep cfg tick initTime s ∧ InOnePlace cfg x s)
    (h : runFrom (managerStep cfg tick) s events = some s') :
    InStep cfg tick initTime s' ∧ InOnePlace cfg x s' ∧
      (s'.wheel.data x).offsetMilliseconds = (s.wheel.data x).offsetMilliseconds := by
  refine runFrom_invariant_along (P := fun _ e => ManagerEvent.NotAdd x e)
    (I := fun u => InStep cfg tick initTime u ∧ InOnePlace cfg x u ∧
      (u.wheel.data x).offsetMilliseconds = (s.wheel.data x).offsetMilliseconds)
    ?_ ⟨hs.1, hs.2, rfl⟩ (along_of_forall s hnot) h
  intro u e u' hu he hstep
  exact ⟨managerStep_inStep hu.1 hstep, managerStep_inOnePlace hu.1 he.ne hstep hu.2.1,
    (managerStep_period he.ne hstep).trans hu.2.2⟩

/-- Before its `AddTimer` a timer is nowhere. -/
theorem run_nowhere (hnot : ∀ e ∈ events, e.NotAdd x)
    (h : runFrom (managerStep cfg tick) (Manager.init τ initTime) events = some s) :
    Absent s.wheel x ∧ x ∉ s.due ∧ s.running ≠ some x := by
  refine (runFrom_invariant_along (P := fun _ e => ManagerEvent.NotAdd x e)
    (I := fun u => InStep cfg tick initTime u ∧
      Absent u.wheel x ∧ x ∉ u.due ∧ u.running ≠ some x)
    ?_ ⟨init_inStep initTime, fun _ _ => rfl, nofun, nofun⟩ (along_of_forall _ hnot) h).2
  intro u e u' hu he hstep
  obtain ⟨hinStep, habsent, hdue, hrunning⟩ := hu
  refine ⟨managerStep_inStep hinStep hstep, ?_⟩
  have hwheel : ∀ {op : WheelOp τ} {l : List τ} {w : TimerWheel τ},
      exec cfg op u.wheel = some (l, w) → op.Leaves x → x ∉ l ∧ Absent w x := by
    intro op l w hexec hop
    obtain ⟨hcount, hx⟩ := (exec_leaves hinStep.offsetsOk hop hexec).1 habsent
    exact ⟨List.count_eq_zero.1 hcount, hx⟩
  cases managerStep_move hstep with
  | elapse us => exact ⟨habsent, hdue, hrunning⟩
  | update hleft => exact ⟨habsent, hdue, hrunning⟩
  | tick due w hnil hidle hleft hrun =>
    obtain ⟨hnot', habsent'⟩ :=
      hwheel (show exec cfg .tick u.wheel = some (due, w) from hrun) trivial
    exact ⟨habsent', hnot', hrunning⟩
  | callback y rest hidle hy =>
    rw [hy] at hdue
    refine ⟨habsent, fun hmem => hdue (List.mem_cons_of_mem _ hmem), ?_⟩
    rintro heq
    obtain rfl := Option.some.inj heq
    exact hdue List.mem_cons_self
  | ended => exact ⟨habsent, hdue, nofun⟩
  | renewed y w hy hop =>
    have hyx : y ≠ x := by
      rintro rfl
      exact hrunning hy
    exact ⟨(hwheel hop hyx).2, hdue, nofun⟩
  | added y ms w hop => exact ⟨(hwheel hop he).2, hdue, hrunning⟩
  | removed y w hop =>
    rcases eq_or_ne y x with rfl | hyx
    · simp only [exec, Option.map_eq_some_iff, Prod.mk.injEq, true_and] at hop
      obtain ⟨⟨b, w₁⟩, hrem, rfl⟩ := hop
      rcases removeTimer_self hrem with rfl | ⟨i, j, hmem, -⟩
      · exact ⟨habsent, hdue, hrunning⟩
      · exact absurd hmem (List.count_eq_zero.1 (habsent i j))
    · exact ⟨(hwheel hop hyx).2, hdue, hrunning⟩

/-- While the callback of a timer that was added once runs, the timer is in no slot and its period
is the one it was added with. -/
theorem AddsOnce.running (honce : AddsOnce x ms events)
    (h : runFrom (managerStep cfg tick) (Manager.init τ initTime) events = some s)
    (hx : s.running = some x) : Running cfg x ms s := by
  obtain ⟨before, after, rfl, hbefore, hafter⟩ := honce.split
  obtain ⟨s₀, hrun₀, hrest⟩ := runFrom_append.1 h
  obtain ⟨s₁, hadd, hrun₁⟩ := runFrom_cons.1 hrest
  have hstep₀ : InStep cfg tick initTime s₀ :=
    runFrom_invariant (fun u e u' => managerStep_inStep) (init_inStep initTime) hrun₀
  obtain ⟨habsent₀, hdue₀, hrunning₀⟩ := run_nowhere hbefore hrun₀
  -- the `AddTimer` arms it
  obtain ⟨w, harm, rfl⟩ := Option.map_eq_some_iff.1 hadd
  obtain ⟨hms, hk⟩ := armTimer_positive harm
  obtain ⟨w', harm', -, -, hx₁⟩ := armTimer_armed hstep₀.offsetsOk habsent₀ hms hk
  obtain rfl := Option.some.inj (harm.symm.trans harm')
  have hplace : InOnePlace cfg x { s₀ with wheel := w } :=
    ⟨Or.inr ⟨_, hx₁⟩, fun hmem => absurd hmem hdue₀, fun hr => absurd hr hrunning₀⟩
  obtain ⟨hstep, hplace', hperiod⟩ :=
    run_inOnePlace hafter ⟨managerStep_inStep hstep₀ hadd, hplace⟩ hrun₁
  obtain ⟨habsent, hnot⟩ := hplace'.running hx
  exact ⟨hstep.offsetsOk, habsent, hnot,
    hperiod.trans ((armTimer_period harm x).trans (if_pos rfl)), hms⟩

theorem milling2tick_pos (tick : TickLength) (hms : 0 < ms) (hlt : ms < 2 ^ 32) :
    0 < milling2tick tick ms := by
  have hpos : 0 < (ms % 2 ^ 32).toNat := by
    rw [Int.emod_eq_of_lt hms.le hlt]
    omega
  unfold milling2tick
  dsimp only
  split
  · exact Nat.succ_pos _
  · rename_i hmod
    have hdvd := Nat.dvd_of_mod_eq_zero (Nat.eq_zero_of_not_pos hmod)
    exact Nat.div_pos (Nat.le_of_dvd hpos hdvd) tick.pos

/-- A callback that answers `RESET_TIMER` is put back for its next period. -/
theorem Running.renewed (h : Running cfg x ms s) (hx : s.running = some x) (hlt : ms < 2 ^ 32) :
    ∃ s', managerStep cfg tick s (.returned true) = some s' ∧ InOneSlot cfg s'.wheel x ∧
      (s'.wheel.data x).triggerTick = s.wheel.currentTick + milling2tick tick ms := by
  obtain ⟨w, harm, -, -, htrig⟩ := armTimer_armed h.offsetsOk h.absent h.period_pos
    (milling2tick_pos tick h.period_pos hlt)
  refine ⟨{ s with wheel := w, running := none }, ?_, htrig.inOneSlot, htrig.1⟩
  simp only [managerStep, hx, renew, h.period, harm, Option.map_some, if_true]

/-- A callback that throws is not: the timer is in no slot afterwards. -/
theorem Running.threw (h : Running cfg x ms s) (hstep : managerStep cfg tick s .threw = some s') :
    Absent s'.wheel x := by
  cases managerStep_move hstep with
  | ended => exact h.absent

theorem Absent.not_inOneSlot (h : Absent w x) : ¬ InOneSlot cfg w x := by
  rintro ⟨i, j, -, -, hcount⟩
  have hone := hcount i j
  rw [h i j, if_pos ⟨rfl, rfl⟩] at hone
  cases hone

end OpenIdea.Timer
