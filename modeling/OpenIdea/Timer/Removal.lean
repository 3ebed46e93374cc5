import OpenIdea.Lib.Runs
import OpenIdea.Timer.Accuracy

/-!
# Taking a timer out of the wheel (oi_timer_level.h, oi_timer_manager.h)

`RemoveTimer` does not search the wheel: it looks into the one slot that the timer's own data names.
`TimerLevel::AddTimer` writes that name, and it is called again for every timer of a slot that is
redistributed. So the name is right as long as the timer is in one slot at most, that is, as long as
it is added only while it is in none (`removeTimer_exact`; `removed_still_inWheel` is a timer that
was added twice).
-/

set_option autoImplicit false

namespace OpenIdea.Timer

open OpenIdea.Lib.Runs

variable {τ : Type} [DecidableEq τ] {cfg : LevelConfig}

/-! ## The name of a slot -/

/-- **The name is right.** The timer's data names a slot, the timer is in no other one, and in that
one not twice. -/
structure Located (cfg : LevelConfig) (w : TimerWheel τ) (x : τ) (i j : Nat) : Prop where
  level : (w.data x).currentLevel = some i
  slot : (w.data x).levelTick = j
  slot_lt : j < cfg.maxTick i
  elsewhere : ∀ i' j', x ∈ w.tickDatas i' j' → i' = i ∧ j' = j
  once : (w.tickDatas i j).count x ≤ 1

/-- Some slot has the timer. -/
def InWheel (w : TimerWheel τ) (x : τ) : Prop := ∃ i j, x ∈ w.tickDatas i j

variable {w w' : TimerWheel τ} {x y : τ} {i j : Nat}

theorem absent_iff : Absent w x ↔ ¬ InWheel w x := by
  constructor
  · rintro habsent ⟨i, j, hmem⟩
    exact List.count_eq_zero.1 (habsent i j) hmem
  · intro hnot i j
    exact List.count_eq_zero.2 fun hmem => hnot ⟨i, j, hmem⟩

/-- The name stays right when the timer's data stays as it is and no slot gets more of it. -/
theorem Located.mono (h : Located cfg w x i j) (hdata : w'.data x = w.data x)
    (hcount : ∀ i' j', (w'.tickDatas i' j').count x ≤ (w.tickDatas i' j').count x) :
    Located cfg w' x i j where
  level := hdata ▸ h.level
  slot := hdata ▸ h.slot
  slot_lt := h.slot_lt
  elsewhere i' j' hmem := by
    apply h.elsewhere i' j'
    exact List.count_pos_iff.1 (lt_of_lt_of_le (List.count_pos_iff.2 hmem) (hcount i' j'))
  once := (hcount i j).trans h.once

/-! ## Adding -/

/-- `TimerLevel::AddTimer` of the timer itself, which is in no slot. -/
theorem levelAddTimer_located {q : Nat} (hout : Absent w x)
    (hadd : levelAddTimer cfg w i x q = some w') : ∃ j, Located cfg w' x i j := by
  rw [levelAddTimer] at hadd
  obtain ⟨_, rfl⟩ := of_guard hadd
  refine ⟨(q + w.offset i) % 2 ^ 32 % cfg.maxTick i, ?_, ?_, ?_, ?_, ?_⟩
  · simp only [Function.update_self]
  · simp only [Function.update_self]
  · exact Nat.mod_lt _ (cfg.maxTick_pos i)
  · -- only the slot that the data names has got it
    intro i' j' hmem
    by_contra hne
    have hsame : (w.setSlot i ((q + w.offset i) % 2 ^ 32 % cfg.maxTick i)
        (w.tickDatas i ((q + w.offset i) % 2 ^ 32 % cfg.maxTick i) ++ [x])).tickDatas i' j' =
          w.tickDatas i' j' := by
      rw [setSlot_tickDatas, if_neg hne]
    have hold : x ∈ w.tickDatas i' j' := hsame ▸ hmem
    exact absent_iff.1 hout ⟨i', j', hold⟩
  · show ((w.setSlot i ((q + w.offset i) % 2 ^ 32 % cfg.maxTick i)
      (w.tickDatas i ((q + w.offset i) % 2 ^ 32 % cfg.maxTick i) ++ [x])).tickDatas i
        ((q + w.offset i) % 2 ^ 32 % cfg.maxTick i)).count x ≤ 1
    rw [setSlot_tickDatas, if_pos ⟨rfl, rfl⟩, List.count_append, hout, List.count_singleton_self]

/-- `TimerLevel::AddTimer` of another timer. -/
theorem levelAddTimer_other {q : Nat} (hne : x ≠ y) (hadd : levelAddTimer cfg w i y q = some w') :
    w'.data x = w.data x ∧
      ∀ i' j', (w'.tickDatas i' j').count x = (w.tickDatas i' j').count x := by
  rw [levelAddTimer] at hadd
  obtain ⟨_, rfl⟩ := of_guard hadd
  refine ⟨Function.update_of_ne hne _ _, ?_⟩
  intro i' j'
  show ((w.setSlot i _ _).tickDatas i' j').count x = _
  rw [setSlot_tickDatas]
  split
  · rename_i heq
    rw [List.count_append, List.count_singleton, heq.1, heq.2]
    simp [Ne.symm hne]
  · rfl

/-- `add_timer` ends in one call of `TimerLevel::AddTimer`. -/
theorem addTimerFrom_level {iOffset left : Nat}
    (hadd : addTimerFrom cfg w x iOffset left i = some w') :
    ∃ i' q, levelAddTimer cfg w i' x q = some w' := by
  induction left generalizing i with
  | zero => exact ⟨_, _, hadd⟩
  | succ left ih =>
    simp only [addTimerFrom] at hadd
    obtain ⟨_, hadd⟩ := Option.ite_none_left_eq_some.1 hadd
    split at hadd
    · exact ih hadd
    · exact ⟨_, _, hadd⟩

theorem addTimer_located (hout : Absent w x) (hadd : addTimer cfg w x = some w') :
    ∃ i j, Located cfg w' x i j := by
  obtain ⟨i, q, hlevel⟩ := addTimerFrom_level hadd
  exact ⟨i, levelAddTimer_located hout hlevel⟩

theorem addTimer_other (hne : x ≠ y) (hadd : addTimer cfg w y = some w') :
    w'.data x = w.data x ∧
      ∀ i' j', (w'.tickDatas i' j').count x = (w.tickDatas i' j').count x := by
  obtain ⟨i, q, hlevel⟩ := addTimerFrom_level hadd
  exact levelAddTimer_other hne hlevel

/-- The timers of a slot are added one by one. One that is among them is in no slot before. -/
theorem addAll_located {l : List τ} : ∀ {w w' : TimerWheel τ} {i j : Nat},
    Located cfg w x i j → l.count x ≤ 1 → (x ∈ l → Absent w x) → addAll cfg w l = some w' →
      ∃ i' j', Located cfg w' x i' j' := by
  induction l with
  | nil =>
    intro w w' i j h _ _ hall
    obtain rfl := Option.some.inj hall
    exact ⟨i, j, h⟩
  | cons y l ih =>
    intro w w' i j h hcount hout hall
    simp only [addAll, Option.bind_eq_some_iff] at hall
    obtain ⟨w₁, hadd, hrest⟩ := hall
    -- its own turn gives it a new name; every other turn leaves its name alone
    by_cases hxy : x = y
    · subst hxy
      rw [List.count_cons_self] at hcount
      have hnot : x ∉ l := List.count_eq_zero.1 (by omega)
      obtain ⟨i₁, j₁, h₁⟩ := addTimer_located (hout List.mem_cons_self) hadd
      exact ih h₁ (by omega) (fun hmem => absurd hmem hnot) hrest
    · obtain ⟨hdata, hsame⟩ := addTimer_other hxy hadd
      rw [List.count_cons_of_ne (Ne.symm hxy)] at hcount
      refine ih (h.mono hdata fun i' j' => le_of_eq (hsame i' j')) hcount ?_ hrest
      intro hmem i' j'
      rw [hsame]
      exact hout (List.mem_cons_of_mem _ hmem) i' j'

/-! ## Ticking -/

variable {k : Nat} {op : WheelOp τ}

/-- The locked part of `RunTick` names nothing anew, and what it takes out is in no slot then. -/
theorem levelRunTick_located {l : List τ} (h : Located cfg w x i j)
    (hrun : levelRunTick cfg w k = some (l, w')) :
    Located cfg w' x i j ∧ l.count x ≤ 1 ∧ (x ∈ l → Absent w' x) := by
  rw [levelRunTick] at hrun
  obtain ⟨_, hrun⟩ := Option.ite_none_right_eq_some.1 hrun
  obtain ⟨rfl, rfl⟩ := Prod.mk.inj (Option.some.inj hrun)
  have hslots : ∀ i' j', ((w.setSlot k (w.offset k) []).tickDatas i' j').count x ≤
      (w.tickDatas i' j').count x := by
    intro i' j'
    rw [setSlot_tickDatas]
    split
    · exact Nat.zero_le _
    · exact le_refl _
  refine ⟨h.mono rfl hslots, ?_, ?_⟩
  · -- the slot under the offset is the one that has the timer, or does not have it
    by_cases hmem : x ∈ w.tickDatas k (w.offset k)
    · obtain ⟨rfl, hj⟩ := h.elsewhere _ _ hmem
      rw [hj]
      exact h.once
    · rw [List.count_eq_zero.2 hmem]
      exact Nat.zero_le _
  · -- what is taken out was in the slot under the offset, and that one is empty now
    intro hmem i' j'
    obtain ⟨rfl, hj⟩ := h.elsewhere _ _ hmem
    show ((w.setSlot k (w.offset k) []).tickDatas i' j').count x = 0
    rw [setSlot_tickDatas]
    split
    · rfl
    · rename_i hne
      apply List.count_eq_zero.2
      intro hother
      obtain ⟨rfl, rfl⟩ := h.elsewhere _ _ hother
      exact hne ⟨rfl, hj.symm⟩

/-- `try_uniform`: each level that is ticked gives its timers new names. -/
theorem tryUniformFrom_located {left : Nat} : ∀ {k i j : Nat} {w w' : TimerWheel τ},
    Located cfg w x i j → tryUniformFrom cfg left k w = some w' →
      ∃ i' j', Located cfg w' x i' j' := by
  induction left with
  | zero =>
    intro k i j w w' h huniform
    obtain rfl := Option.some.inj huniform
    exact ⟨i, j, h⟩
  | succ left ih =>
    intro k i j w w' h huniform
    simp only [tryUniformFrom] at huniform
    split at huniform
    · simp only [Option.bind_eq_some_iff, Prod.exists] at huniform
      obtain ⟨l, w₁, hrun, w₂, hall, hrest⟩ := huniform
      -- between the two halves of the level's turn the timer is in no slot
      obtain ⟨h₁, hcount, hout⟩ := levelRunTick_located h hrun
      obtain ⟨i₂, j₂, h₂⟩ := addAll_located h₁ hcount hout hall
      exact ih h₂ hrest
    · exact ih h huniform

theorem runTick_located {due : List τ} (h : Located cfg w x i j)
    (hrun : runTick cfg w = some (due, w')) : ∃ i' j', Located cfg w' x i' j' := by
  have hcur : Located cfg { w with currentTick := w.currentTick + 1 } x i j :=
    h.mono rfl fun _ _ => le_refl _
  simp only [runTick, Option.bind_eq_some_iff, Prod.exists] at hrun
  obtain ⟨l, w₁, htick, hrest⟩ := hrun
  obtain ⟨h₁, -, -⟩ := levelRunTick_located hcur htick
  split at hrest
  · obtain ⟨w₂, huniform, heq⟩ := Option.map_eq_some_iff.1 hrest
    obtain ⟨rfl, rfl⟩ := Prod.mk.inj heq
    exact tryUniformFrom_located h₁ huniform
  · obtain ⟨rfl, rfl⟩ := Prod.mk.inj (Option.some.inj hrest)
    exact ⟨i, j, h₁⟩

/-! ## The operations -/

theorem armTimer_located {ms : Int} (hout : Absent w x) (harm : armTimer cfg w x ms k = some w') :
    ∃ i j, Located cfg w' x i j := by
  rw [armTimer] at harm
  obtain ⟨_, harm⟩ := Option.ite_none_right_eq_some.1 harm
  exact addTimer_located (w := w.initData x ms k) hout harm

theorem armTimer_other {ms : Int} (hne : x ≠ y) (harm : armTimer cfg w y ms k = some w') :
    w'.data x = w.data x ∧
      ∀ i' j', (w'.tickDatas i' j').count x = (w.tickDatas i' j').count x := by
  rw [armTimer] at harm
  obtain ⟨_, harm⟩ := Option.ite_none_right_eq_some.1 harm
  obtain ⟨hdata, hsame⟩ := addTimer_other hne harm
  exact ⟨hdata.trans (Function.update_of_ne hne _ _), hsame⟩

/-- `RemoveTimer` of a timer whose name is right. -/
structure Removal (w : TimerWheel τ) (x : τ) (b : Bool) (w' : TimerWheel τ) : Prop where
  answer : b = true ↔ InWheel w x
  unchanged : b = false → w' = w
  out : Absent w' x
  /-- The others stay in their slots, in their order. -/
  slots : ∀ i j, w'.tickDatas i j = (w.tickDatas i j).erase x
  rest : w' = { w with tickDatas := w'.tickDatas }

theorem Located.removeTimer (h : Located cfg w x i j) :
    ∃ b w', removeTimer cfg w x = some (b, w') ∧ Removal w x b w' := by
  have hother : ∀ i' j', ¬ (i' = i ∧ j' = j) → x ∉ w.tickDatas i' j' := by
    intro i' j' hne hmem
    exact hne (h.elsewhere i' j' hmem)
  have hslot_lt := h.slot_lt
  rw [Timer.removeTimer]
  simp only [h.level, h.slot, if_pos hslot_lt]
  -- the one slot that `RemoveTimer` looks into decides for all of them
  by_cases hmem : x ∈ w.tickDatas i j
  · have hslots : ∀ i' j', (w.setSlot i j ((w.tickDatas i j).erase x)).tickDatas i' j' =
        (w.tickDatas i' j').erase x := by
      intro i' j'
      rw [setSlot_tickDatas]
      split
      · rename_i heq
        rw [heq.1, heq.2]
      · rename_i hne
        rw [List.erase_of_not_mem (hother i' j' hne)]
    rw [if_pos hmem]
    refine ⟨true, _, rfl, ⟨fun _ => ⟨i, j, hmem⟩, fun _ => rfl⟩, Bool.noConfusion, ?_, hslots, rfl⟩
    intro i' j'
    rw [hslots]
    by_cases heq : i' = i ∧ j' = j
    · have honce := h.once
      rw [List.count_erase_self, heq.1, heq.2]
      omega
    · rw [List.erase_of_not_mem (hother i' j' heq), List.count_eq_zero.2 (hother i' j' heq)]
  · -- not where its name says, so nowhere
    have hnone : ∀ i' j', x ∉ w.tickDatas i' j' := by
      intro i' j' hin
      obtain ⟨rfl, rfl⟩ := h.elsewhere i' j' hin
      exact hmem hin
    rw [if_neg hmem]
    refine ⟨false, w, rfl, ⟨Bool.noConfusion, ?_⟩, fun _ => rfl, ?_, ?_, rfl⟩
    · rintro ⟨i', j', hin⟩
      exact absurd hin (hnone i' j')
    · intro i' j'
      exact List.count_eq_zero.2 (hnone i' j')
    · intro i' j'
      exact (List.erase_of_not_mem (hnone i' j')).symm

/-- A removal names nothing anew. -/
theorem removeTimer_located {b : Bool} (h : Located cfg w x i j)
    (hrem : removeTimer cfg w y = some (b, w')) : Located cfg w' x i j := by
  obtain ⟨-, -, hdata, -⟩ := removeTimer_frame hrem
  apply h.mono (by rw [hdata])
  intro i' j'
  rcases removeTimer_self hrem with rfl | ⟨k, l, -, rfl⟩
  · exact le_refl _
  · rw [setSlot_tickDatas]
    split
    · rename_i heq
      rw [heq.1, heq.2]
      exact List.erase_sublist.count_le x
    · exact le_refl _

/-! ## Runs -/

/-- One operation on the wheel. -/
def wheelStep (cfg : LevelConfig) (w : TimerWheel τ) (op : WheelOp τ) : Option (TimerWheel τ) :=
  (exec cfg op w).map Prod.snd

/-- `x` is added only while it is in no slot. -/
def AddsOut (x : τ) (w : TimerWheel τ) : WheelOp τ → Prop
  | .add y _ _ => y = x → ¬ InWheel w x
  | _ => True

/-- The operation adds `x`. -/
def WheelOp.Adds (x : τ) : WheelOp τ → Prop
  | .add y _ _ => y = x
  | _ => False

theorem wheelStep_located (h : (∃ i j, Located cfg w x i j) ∨ op.Adds x) (hout : AddsOut x w op)
    (hstep : wheelStep cfg w op = some w') : ∃ i j, Located cfg w' x i j := by
  obtain ⟨⟨due, w₁⟩, hexec, rfl⟩ := Option.map_eq_some_iff.1 hstep
  cases op with
  | tick =>
    obtain ⟨i, j, h⟩ := h.resolve_right id
    exact runTick_located h hexec
  | add y ms k =>
    simp only [exec, Option.map_eq_some_iff, Prod.mk.injEq] at hexec
    obtain ⟨w₂, harm, -, rfl⟩ := hexec
    -- the condition is used here and nowhere else
    by_cases hyx : y = x
    · subst hyx
      exact armTimer_located (absent_iff.2 (hout rfl)) harm
    · obtain ⟨i, j, h⟩ := h.resolve_right hyx
      obtain ⟨hdata, hsame⟩ := armTimer_other (Ne.symm hyx) harm
      exact ⟨i, j, h.mono hdata fun i' j' => le_of_eq (hsame i' j')⟩
  | remove y =>
    simp only [exec, Option.map_eq_some_iff, Prod.mk.injEq] at hexec
    obtain ⟨⟨b, w₂⟩, hrem, -, rfl⟩ := hexec
    obtain ⟨i, j, h⟩ := h.resolve_right id
    exact ⟨i, j, removeTimer_located h hrem⟩

/-- A timer that has been added has a right name from then on. -/
theorem run_located {ops : List (WheelOp τ)} : ∀ {w w' : TimerWheel τ},
    (∃ i j, Located cfg w x i j) ∨ (∃ op ∈ ops, op.Adds x) →
      Along (wheelStep cfg) (AddsOut x) w ops → runFrom (wheelStep cfg) w ops = some w' →
        ∃ i j, Located cfg w' x i j := by
  induction ops with
  | nil =>
    intro w w' h _ hrun
    obtain rfl := Option.some.inj hrun
    rcases h with h | ⟨op, hmem, -⟩
    · exact h
    · exact absurd hmem List.not_mem_nil
  | cons op ops ih =>
    intro w w' h hout hrun
    obtain ⟨w₁, hstep, hrest⟩ := runFrom_cons.1 hrun
    -- until its first `AddTimer` the timer has no name, and needs none
    refine ih ?_ (hout.2 w₁ hstep) hrest
    rcases h with h | ⟨op', hmem, hadds⟩
    · exact Or.inl (wheelStep_located (Or.inl h) hout.1 hstep)
    · rcases List.mem_cons.1 hmem with rfl | hmem
      · exact Or.inl (wheelStep_located (Or.inr hadds) hout.1 hstep)
      · exact Or.inr ⟨op', hmem, hadds⟩

/-- An operation that does not add a timer leaves it out of the wheel. -/
theorem wheelStep_absent (h : OffsetsOk cfg w ∧ Absent w x) (hop : ¬ op.Adds x)
    (hstep : wheelStep cfg w op = some w') : OffsetsOk cfg w' ∧ Absent w' x := by
  obtain ⟨⟨due, w₁⟩, hexec, rfl⟩ := Option.map_eq_some_iff.1 hstep
  refine ⟨exec_offsetsOk h.1 hexec, ?_⟩
  by_cases hleaves : op.Leaves x
  · exact ((exec_leaves h.1 hleaves hexec).1 h.2).2
  · -- what is left is another `RemoveTimer` of it
    cases op with
    | tick => exact absurd trivial hleaves
    | add y ms k => exact absurd hleaves (not_not.2 hop)
    | remove y =>
      have hyx : y = x := not_not.1 hleaves
      subst hyx
      simp only [exec, Option.map_eq_some_iff, Prod.mk.injEq] at hexec
      obtain ⟨⟨b, w₂⟩, hrem, -, rfl⟩ := hexec
      rcases removeTimer_self hrem with rfl | ⟨i, j, hmem, -⟩
      · exact h.2
      · exact absurd ⟨i, j, hmem⟩ (absent_iff.1 h.2)

theorem wheelStep_offsetsOk (h : OffsetsOk cfg w) (hstep : wheelStep cfg w op = some w') :
    OffsetsOk cfg w' := by
  obtain ⟨⟨due, w₁⟩, hexec, rfl⟩ := Option.map_eq_some_iff.1 hstep
  exact exec_offsetsOk h hexec

/-- **`RemoveTimer` is exact** for a timer that was added, and only while it was in no slot. The
timer's data names the slot that has it; the answer is whether one has it; afterwards it is in none,
nothing else has changed, and no tick hands it out until it is added again. -/
theorem removeTimer_exact (cfg : LevelConfig) {ops : List (WheelOp τ)} {w : TimerWheel τ} {x : τ}
    (hrun : runFrom (wheelStep cfg) (TimerWheel.init τ) ops = some w)
    (hadded : ∃ op ∈ ops, op.Adds x)
    (hout : Along (wheelStep cfg) (AddsOut x) (TimerWheel.init τ) ops) :
    (∀ i j, x ∈ w.tickDatas i j →
      (w.data x).currentLevel = some i ∧ (w.data x).levelTick = j) ∧
      ∃ b w', removeTimer cfg w x = some (b, w') ∧ Removal w x b w' ∧
        ∀ ops' w'' due w''', (∀ op ∈ ops', ¬ op.Adds x) →
          runFrom (wheelStep cfg) w' ops' = some w'' → runTick cfg w'' = some (due, w''') →
            x ∉ due := by
  obtain ⟨i, j, h⟩ := run_located (Or.inr hadded) hout hrun
  constructor
  · intro i' j' hmem
    obtain ⟨rfl, rfl⟩ := h.elsewhere i' j' hmem
    exact ⟨h.level, h.slot⟩
  · obtain ⟨b, w', hrem, hremoval⟩ := h.removeTimer
    refine ⟨b, w', hrem, hremoval, fun ops' w'' due w''' hops hafter htick => ?_⟩
    have hw : OffsetsOk cfg w := runFrom_invariant
      (fun u op u' hu hstep => wheelStep_offsetsOk hu hstep) init_offsetsOk hrun
    have hw' : OffsetsOk cfg w' := by
      intro k
      rw [(removeTimer_frame hrem).2.1]
      exact hw k
    obtain ⟨hw'', habsent⟩ := runFrom_invariant_along
      (I := fun u => OffsetsOk cfg u ∧ Absent u x) (P := fun _ op => ¬ op.Adds x)
      (fun u op u' hu hop hstep => wheelStep_absent hu hop hstep) ⟨hw', hremoval.out⟩
      (along_of_forall w' hops) hafter
    obtain ⟨due', u, htick', -, -, -, hspec⟩ := runTick_spec hw''
    obtain ⟨rfl, rfl⟩ := Prod.mk.inj (Option.some.inj (htick.symm.trans htick'))
    exact ((hspec x).1 habsent).1

/-- Levels of two slots, and the last one. -/
def twoByTwo : LevelConfig := ⟨3, [2, 2, 1], fewSlots_accepted, fewSlots_le⟩

/-- A timer that is added three ticks ahead, and has come down to the lowest level. -/
theorem removeTimer_exact_redistributed :
    ∃ w, runFrom (wheelStep twoByTwo) (TimerWheel.init Nat) [.add 7 30 3, .tick, .tick] = some w ∧
      ∃ b w', removeTimer twoByTwo w 7 = some (b, w') ∧ Removal w 7 b w' := by
  have hrun : (runFrom (wheelStep twoByTwo) (TimerWheel.init Nat)
      [.add 7 30 3, .tick, .tick]).isSome = true := by decide
  obtain ⟨w, hw⟩ := Option.isSome_iff_exists.1 hrun
  have hout : Along (wheelStep twoByTwo) (AddsOut 7) (TimerWheel.init Nat)
      [.add 7 30 3, .tick, .tick] := by
    refine ⟨fun _ => ?_, fun _ _ => ⟨trivial, fun _ _ => ⟨trivial, fun _ _ => trivial⟩⟩⟩
    exact absent_iff.1 fun _ _ => rfl
  obtain ⟨-, b, w', hrem, hremoval, -⟩ :=
    removeTimer_exact twoByTwo hw ⟨_, List.mem_cons_self, rfl⟩ hout
  exact ⟨w, hw, b, w', hrem, hremoval⟩

/-- **A timer that is added while it is in the wheel.** Its data names the second slot only: the
removal says that it has taken the timer out, and the first slot has it still. -/
theorem removed_still_inWheel : ∃ w w', runFrom (wheelStep twoByTwo) (TimerWheel.init Nat)
    [.add 7 20 2, .add 7 10 1] = some w ∧ removeTimer twoByTwo w 7 = some (true, w') ∧
      InWheel w' 7 := by
  have hrun : ((runFrom (wheelStep twoByTwo) (TimerWheel.init Nat)
      [.add 7 20 2, .add 7 10 1]).bind fun w => removeTimer twoByTwo w 7).map
        (fun r => decide (r.1 = true ∧ 7 ∈ r.2.tickDatas 0 1)) = some true := by
    decide
  obtain ⟨⟨b, w'⟩, hboth, hfacts⟩ := Option.map_eq_some_iff.1 hrun
  obtain ⟨w, hw, hrem⟩ := Option.bind_eq_some_iff.1 hboth
  obtain ⟨hb, hmem⟩ := of_decide_eq_true hfacts
  dsimp only at hb
  subst hb
  exact ⟨w, w', hw, hrem, 0, 1, hmem⟩

end OpenIdea.Timer
