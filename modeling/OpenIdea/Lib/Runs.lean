import Mathlib.Data.Option.Basic

/-!
# Runs of a partial step function

A system is a state type `σ`, an event type `ε` and a step function that returns `none` where an
event is not enabled. `runFrom` folds the step over a list of events. The invariant rules turn a
fact about one step into a fact about every run. The rules are `runFrom_invariant`,
`runFrom_invariant_along` for runs whose steps meet a condition, `runFrom_until` and
`runFrom_progress`.
-/

set_option autoImplicit false

namespace OpenIdea.Lib.Runs

variable {σ ε : Type} (step : σ → ε → Option σ)

/-- The state after a list of events, if each of them was enabled in turn. -/
def runFrom : σ → List ε → Option σ
  | s, [] => some s
  | s, e :: es => (step s e).bind fun s' => runFrom s' es

/-- Every step of the run from `s` satisfies `P` (the state before it, and the event). -/
def Along (P : σ → ε → Prop) : σ → List ε → Prop
  | _, [] => True
  | s, e :: es => P s e ∧ ∀ s', step s e = some s' → Along P s' es

variable {step}

variable {s s' : σ} {es : List ε}

/-- A step behind a guard was let through by it. -/
theorem of_guard {p : Prop} [Decidable p] (h : (if p then some s else none) = some s') :
    p ∧ s = s' := by
  obtain ⟨hp, hs⟩ := Option.ite_none_right_eq_some.1 h
  exact ⟨hp, Option.some.inj hs⟩

theorem of_guard_not {p : Prop} [Decidable p] (h : (if p then none else some s) = some s') :
    ¬p ∧ s = s' := by
  obtain ⟨hp, hs⟩ := Option.ite_none_left_eq_some.1 h
  exact ⟨hp, Option.some.inj hs⟩

@[simp] theorem runFrom_nil (s : σ) : runFrom step s [] = some s := rfl

theorem runFrom_cons {e : ε} :
    runFrom step s (e :: es) = some s' ↔
      ∃ s₁, step s e = some s₁ ∧ runFrom step s₁ es = some s' := by
  simp only [runFrom, Option.bind_eq_some_iff]

theorem runFrom_append {es₂ : List ε} {s' : σ} :
    ∀ {es₁ : List ε} {s : σ}, runFrom step s (es₁ ++ es₂) = some s' ↔
      ∃ s₁, runFrom step s es₁ = some s₁ ∧ runFrom step s₁ es₂ = some s'
  | [], s => by simp
  | e :: es₁, s => by
      simp only [List.cons_append, runFrom_cons, @runFrom_append _ _ es₁]
      constructor
      · rintro ⟨s₁, h₁, s₂, h₂, h₃⟩
        exact ⟨s₂, ⟨s₁, h₁, h₂⟩, h₃⟩
      · rintro ⟨s₂, ⟨s₁, h₁, h₂⟩, h₃⟩
        exact ⟨s₁, h₁, s₂, h₂, h₃⟩

/-- A property every enabled step keeps holds at the end of every run. -/
theorem runFrom_invariant {I : σ → Prop}
    (hstep : ∀ s e s', I s → step s e = some s' → I s') :
    ∀ {es : List ε} {s s' : σ}, I s → runFrom step s es = some s' → I s'
  | [], s, s', hI, h => by
      obtain rfl := Option.some.inj h
      exact hI
  | e :: es, s, s', hI, h => by
      obtain ⟨s₁, h₁, h₂⟩ := runFrom_cons.1 h
      exact runFrom_invariant hstep (hstep s e s₁ hI h₁) h₂

/-- A property that every enabled step keeps, unless it reaches `Q`, holds at the end of every run
that has not come by `Q`. -/
theorem runFrom_until {I Q : σ → Prop} (hstep : ∀ s e s', I s → step s e = some s' → I s' ∨ Q s') :
    ∀ {es : List ε} {s s' : σ}, I s → runFrom step s es = some s' →
      I s' ∨ ∃ es₁ es₂ t, es = es₁ ++ es₂ ∧ runFrom step s es₁ = some t ∧ Q t
  | [], s, s', hI, h => by
      obtain rfl := Option.some.inj h
      exact Or.inl hI
  | e :: es, s, s', hI, h => by
      obtain ⟨s₁, h₁, h₂⟩ := runFrom_cons.1 h
      rcases hstep s e s₁ hI h₁ with hI₁ | hQ
      · rcases runFrom_until hstep hI₁ h₂ with hI' | ⟨es₁, es₂, t, rfl, ht, hQ⟩
        · exact Or.inl hI'
        · exact Or.inr ⟨e :: es₁, es₂, t, rfl, runFrom_cons.2 ⟨s₁, h₁, ht⟩, hQ⟩
      · exact Or.inr ⟨[e], es, s₁, rfl, runFrom_cons.2 ⟨s₁, h₁, rfl⟩, hQ⟩

/-- A property that every step satisfying `P` keeps holds at the end of every run of such steps. -/
theorem runFrom_invariant_along {I : σ → Prop} {P : σ → ε → Prop}
    (hstep : ∀ s e s', I s → P s e → step s e = some s' → I s') :
    ∀ {es : List ε} {s s' : σ}, I s → Along step P s es → runFrom step s es = some s' → I s'
  | [], s, s', hI, _, h => by
      obtain rfl := Option.some.inj h
      exact hI
  | e :: es, s, s', hI, hP, h => by
      obtain ⟨s₁, h₁, h₂⟩ := runFrom_cons.1 h
      exact runFrom_invariant_along hstep (hstep s e s₁ hI hP.1 h₁) (hP.2 s₁ h₁) h₂

/-- A property that enables every step satisfying `P` and is kept by it makes such runs go
through. -/
theorem runFrom_progress {I : σ → Prop} {P : σ → ε → Prop}
    (hstep : ∀ s e, I s → P s e → ∃ s', step s e = some s' ∧ I s') :
    ∀ {es : List ε} {s : σ}, I s → Along step P s es → ∃ s', runFrom step s es = some s' ∧ I s'
  | [], s, hI, _ => ⟨s, rfl, hI⟩
  | e :: es, s, hI, hP => by
      obtain ⟨s₁, h₁, hI₁⟩ := hstep s e hI hP.1
      obtain ⟨s', h', hI'⟩ := runFrom_progress hstep hI₁ (hP.2 s₁ h₁)
      exact ⟨s', runFrom_cons.2 ⟨s₁, h₁, h'⟩, hI'⟩

theorem along_cons_iff {P : σ → ε → Prop} {e : ε} :
    Along step P s (e :: es) ↔ P s e ∧ (step s e).elim True fun s' => Along step P s' es := by
  cases h : step s e with
  | none => simp [Along, h]
  | some s' => simp [Along, h]

instance decidableAlong {P : σ → ε → Prop} [∀ s e, Decidable (P s e)] :
    ∀ (s : σ) (es : List ε), Decidable (Along step P s es)
  | _, [] => isTrue trivial
  | s, e :: es =>
      have : Decidable ((step s e).elim True fun s' => Along step P s' es) :=
        match step s e with
        | none => isTrue trivial
        | some s' => decidableAlong s' es
      decidable_of_iff _ along_cons_iff.symm

theorem along_append {P : σ → ε → Prop} {es₂ : List ε} :
    ∀ {es₁ : List ε} {s : σ}, Along step P s (es₁ ++ es₂) ↔
      Along step P s es₁ ∧ ∀ s', runFrom step s es₁ = some s' → Along step P s' es₂
  | [], s => by simp [Along]
  | e :: es₁, s => by
      simp only [List.cons_append, Along, @along_append _ _ es₁, runFrom_cons]
      constructor
      · rintro ⟨hP, h⟩
        exact ⟨⟨hP, fun s₁ h₁ => (h s₁ h₁).1⟩, fun s' ⟨s₁, h₁, h'⟩ => (h s₁ h₁).2 s' h'⟩
      · rintro ⟨⟨hP, h⟩, h'⟩
        exact ⟨hP, fun s₁ h₁ => ⟨h s₁ h₁, fun s' hs' => h' s' ⟨s₁, h₁, hs'⟩⟩⟩

/-- Two conditions that agree at every step of a run hold along it together. -/
theorem along_congr {P Q : σ → ε → Prop} :
    ∀ {s s' : σ}, runFrom step s es = some s' →
      (∀ es₁ e es₂ t t', es = es₁ ++ e :: es₂ → runFrom step s es₁ = some t → step t e = some t' →
        runFrom step t' es₂ = some s' → (P t e ↔ Q t e)) →
      (Along step P s es ↔ Along step Q s es) := by
  induction es with
  | nil =>
    intro s s' _ _
    exact Iff.rfl
  | cons e es ih =>
    intro s s' hrun hiff
    obtain ⟨s₁, h₁, h₂⟩ := runFrom_cons.1 hrun
    have hhead := hiff [] e es s s₁ rfl rfl h₁ h₂
    have htail := ih h₂ fun es₁ e' es₂ t t' hes ht hstep hrest =>
      hiff (e :: es₁) e' es₂ t t' (by rw [hes]; rfl) (runFrom_cons.2 ⟨s₁, h₁, ht⟩) hstep hrest
    -- there is only one next state
    have hnext : ∀ {R : σ → ε → Prop}, (∀ s', step s e = some s' → Along step R s' es) ↔
        Along step R s₁ es := by
      intro R
      constructor
      · intro h
        exact h s₁ h₁
      · intro h t ht
        rw [h₁] at ht
        obtain rfl := Option.some.inj ht
        exact h
    show (P s e ∧ _) ↔ (Q s e ∧ _)
    rw [hhead, hnext, hnext, htail]

/-- Two conditions that agree wherever a third one holds, along a sequence of events on which that
one does. -/
theorem along_congr_of {P Q R : σ → ε → Prop} (hiff : ∀ s e, R s e → (P s e ↔ Q s e)) :
    ∀ {es : List ε} {s : σ}, Along step R s es → (Along step P s es ↔ Along step Q s es)
  | [], _, _ => Iff.rfl
  | e :: es, s, ⟨hR, hnext⟩ => by
      have htail : ∀ s', step s e = some s' → (Along step P s' es ↔ Along step Q s' es) :=
        fun s' hs' => along_congr_of hiff (hnext s' hs')
      show (P s e ∧ _) ↔ (Q s e ∧ _)
      rw [hiff s e hR]
      exact and_congr_right fun _ => forall₂_congr htail

/-- A condition on the events alone holds along every run of such events. -/
theorem along_of_forall {P : ε → Prop} :
    ∀ {es : List ε} (s : σ), (∀ e ∈ es, P e) → Along step (fun _ e => P e) s es
  | [], _, _ => trivial
  | _ :: _, _, h =>
    ⟨h _ List.mem_cons_self, fun s' _ => along_of_forall s' fun e he =>
      h e (List.mem_cons_of_mem _ he)⟩

end OpenIdea.Lib.Runs
