import OpenIdea.Lib.Runs
import OpenIdea.Lib.Tally
import OpenIdea.Lib.Intrusive
import OpenIdea.Coro.TaskWaiters
import OpenIdea.Coro.WaiterInvariant

/-!
# The steps of `WhenAll` keep the invariant

The registration loop of `WhenAllAwaiter::await_suspend` deals with one slot after the other, while
tasks that finish close the slots it has pushed. In front of slot `i` the slots from `i` on are
fresh, and the ones before are pushed or closed; `iLeft` counts all that are not closed. So the
`fetch_sub` that finds 1 is the last one, whoever makes it, and the gate has one party that sets it
to `Ready`. With these all steps keep the invariant (`step_sound`), and so do all runs
(`run_sound`).
-/

set_option autoImplicit false

namespace OpenIdea.Coro.Waiters

open OpenIdea.Lib.Runs OpenIdea.Lib.Tally OpenIdea.Lib.Intrusive

variable {ε α β : Type}

variable {i j : Nat} {s s' : World ε α β} {p : AllPhase ε β}

/-- A step that changes one `WhenAll` and pushes no slot. -/
theorem Sound.setAll (h : Sound s) {y : All ε β}
    (hpush : ∀ i t, y.Pushed i t ↔ (s.all j).Pushed i t)
    (hcloser : ∀ t, (s.all j).closer = .completer t ∨ (s.all j).closer = .waker t →
      y.closer = (s.all j).closer) (hj : AllSound (s.setAll j y) j) : Sound (s.setAll j y) := by
  refine ⟨fun t => ?_, fun a => ?_, fun j' => ?_⟩
  · refine (h.task t).transfer rfl (h.task t).chain (h.task t).walk (fun _ => Iff.rfl) ?_ ?_
    · intro j' i
      by_cases hj' : j' = j
      · subst hj'
        rw [setAll_all_self]
        exact hpush i t
      · rw [setAll_all_ne s y hj']
    · intro j' hc
      by_cases hj' : j' = j
      · subst hj'
        rw [setAll_all_self]
        exact hcloser t hc
      · rw [setAll_all_ne s y hj']
  · exact (h.await a).transfer rfl (fun _ ht => ⟨ht, rfl⟩)
  · by_cases hj' : j' = j
    · subst hj'
      exact hj
    · exact (h.all j').transfer (setAll_all_ne s y hj') (fun _ ht => ht) (fun _ _ => rfl)

/-! ## Steps that leave the slots alone -/

/-- A phase outside of the registration. -/
def AllPhase.still : AllPhase ε β → Bool
  | .registering _ => false
  | .counting _ => false
  | .shutting _ => false
  | _ => true

theorem AllPhase.still_reached (h : p.still = true) (n : Nat) : p.reached n = n := by
  cases p with
  | registering i => cases h
  | counting i => cases h
  | shutting i => cases h
  | absent => rfl
  | entering => rfl
  | suspended => rfl
  | collecting vs => rfl
  | awaiting a vs => rfl
  | finished r => rfl

/-- A coroutine that moves between phases outside of the registration. -/
theorem Sound.rephase (h : Sound s) {v : List (Option Nat)} (hold : (s.all j).phase.still = true)
    (hnew : p.still = true) (hout : p.outside = true → (s.all j).tasks = [])
    (hwaits : p ≠ .suspended) (hearly : p.early = true → (s.all j).returned = none)
    (hpast : p.past = true →
      (s.all j).tasks = [] ∨ (s.all j).returned = some false ∨ 0 < (s.all j).calls) :
    Sound (s.setAll j { s.all j with vTasks := v, phase := p }) := by
  have hj := h.all j
  refine h.setAll (fun _ _ => Iff.rfl) (fun _ _ => rfl) ?_
  have hcount : ∀ (q : AllPhase ε β) i, q.still = true → q ≠ .counting i := by
    intro q i hq he
    rw [he] at hq
    cases hq
  have hshut : ∀ (q : AllPhase ε β) i, q.still = true → q ≠ .shutting i := by
    intro q i hq he
    rw [he] at hq
    cases hq
  apply AllSound.of_record (setAll_all_self _ j _)
  exact { hj with
    fresh := by
      intro i
      have hf := hj.fresh i
      rw [AllPhase.still_reached hold] at hf
      show (s.all j).slots[i]? = some .fresh ↔ p.reached (s.all j).slots.length ≤ i ∧ _
      rw [AllPhase.still_reached hnew]
      exact hf
    seen := by
      intro i
      rw [hj.seen i]
      exact iff_of_false (hcount _ i hold) (hcount _ i hnew)
    outside := hout
    waits := by
      intro hw
      have hw : p.waits = true := hw
      cases p with
      | suspended => exact absurd rfl hwaits
      | registering i => cases hnew
      | counting i => cases hnew
      | shutting i => cases hnew
      | absent => cases hw
      | entering => cases hw
      | collecting vs => cases hw
      | awaiting a vs => cases hw
      | finished r => cases hw
    early := hearly
    suspended := fun he => absurd he hwaits
    past := hpast
    shutting := fun i hi => absurd hi (hshut p i hnew)
    closer := by
      have hc := hj.closer
      rw [CloserSound] at hc ⊢
      cases hcl : (s.all j).closer with
      | nobody | completer t =>
        rw [hcl] at hc
        exact hc
      | registrar =>
        rw [hcl] at hc
        obtain ⟨_, _, _, _, i, hi⟩ := hc
        exact absurd hi (hshut _ i hold)
      | shut | waker t =>
        rw [hcl] at hc
        exact hc
      | woken =>
        rw [hcl] at hc
        exact hc }

theorem Sound.allCreate (h : Sound s) {v : List (Option Nat)} (hs : allCreate s j v = some s') :
    Sound s' := by
  have hj := h.all j
  rw [Waiters.allCreate] at hs
  split at hs
  case h_2 => cases hs
  case h_1 hphase =>
    obtain rfl := Option.some.inj hs
    apply h.rephase
    · rw [hphase]
      rfl
    · rfl
    · intro _
      exact hj.outside (by rw [hphase]; rfl)
    · intro he
      cases he
    · intro _
      exact hj.early (by rw [hphase]; rfl)
    · intro he
      cases he

/-- The handles are all good exactly when they are those of a list of tasks. -/
theorem mapM_id_eq_some {l : List (Option Nat)} :
    ∀ {ts : List Nat}, l.mapM id = some ts ↔ l = ts.map some := by
  induction l with
  | nil =>
    intro ts
    cases ts with
    | nil => simp
    | cons t ts => simp
  | cons o l ih =>
    intro ts
    cases o with
    | none =>
      cases ts with
      | nil => simp
      | cons t ts => simp
    | some u =>
      cases ts with
      | nil => simp [Option.bind_eq_some_iff]
      | cons t ts =>
        simp only [List.mapM_cons, id, Option.pure_def, Option.bind_eq_bind,
          Option.bind_some, Option.bind_eq_some_iff, Option.some.injEq, List.map_cons,
          List.cons.injEq]
        constructor
        · rintro ⟨ts', hts', rfl, rfl⟩
          exact ⟨rfl, ih.1 hts'⟩
        · rintro ⟨rfl, hl⟩
          exact ⟨ts, ih.2 hl, rfl, rfl⟩

theorem mapM_id_eq_none {l : List (Option Nat)} : l.mapM id = none ↔ none ∈ l := by
  induction l with
  | nil => simp
  | cons o l ih =>
    cases o with
    | none => simp
    | some u =>
      rw [List.mem_cons, or_iff_right (by simp), ← ih]
      cases hl : l.mapM id with
      | none => simp [hl]
      | some ts => simp [hl]

theorem Sound.allEnter (h : Sound s) (hs : allEnter s j = some s') : Sound s' := by
  have hj := h.all j
  rw [Waiters.allEnter] at hs
  split at hs
  case h_2 => cases hs
  case h_1 hphase =>
    have htasks : (s.all j).tasks = [] := hj.outside (by rw [hphase]; rfl)
    have hslots : (s.all j).slots = [] := by
      have hsize := hj.size
      rw [htasks] at hsize
      exact List.length_eq_zero_iff.1 hsize
    have hnone : (s.all j).returned = none := hj.early (by rw [hphase]; rfl)
    have hstill : (s.all j).phase.still = true := by
      rw [hphase]
      rfl
    split at hs
    case isTrue =>
      obtain rfl := Option.some.inj hs
      apply h.rephase hstill rfl
      · intro _
        exact htasks
      · intro he
        cases he
      · intro he
        cases he
      · intro _
        exact Or.inl htasks
    case isFalse hne =>
      split at hs
      case h_1 =>
        obtain rfl := Option.some.inj hs
        apply h.rephase hstill rfl
        · intro _
          exact htasks
        · intro he
          cases he
        · intro he
          cases he
        · intro _
          exact Or.inl htasks
      case h_2 ts hts =>
        obtain rfl := Option.some.inj hs
        have hnobody := (hj.empty htasks).1
        have hc := hj.closer
        rw [CloserSound, hnobody] at hc
        obtain ⟨hret, hcalls, _, hgate⟩ := hc
        have htsne : ts ≠ [] := by
          intro he
          rw [mapM_id_eq_some, he] at hts
          exact hne hts
        have hget : ∀ {i : Nat} {x : Slot}, (List.replicate ts.length Slot.fresh)[i]? = some x →
            x = .fresh := by
          intro i x hx
          exact (List.mem_replicate.1 (List.mem_of_getElem? hx)).2
        apply h.setAll
        · -- no slot is pushed before or after
          intro i t
          refine iff_of_false ?_ ?_
          · rintro ⟨_, hp⟩
            cases hget hp
          · rintro ⟨_, hp⟩
            rw [hslots] at hp
            cases hp
        · intro t _
          rfl
        · apply AllSound.of_record (setAll_all_self _ j _)
          exact { hj with
            size := List.length_replicate
            left := by
              show ts.length = tally Slot.left (List.replicate ts.length .fresh)
              rw [tally, List.map_replicate, List.sum_replicate]
              simp [Slot.left]
            ready := by
              rintro i t _ (hx | hx)
              · cases hget hx
              · cases hget hx
            fresh := by
              intro i
              show (List.replicate ts.length Slot.fresh)[i]? = some .fresh ↔
                0 ≤ i ∧ i < (List.replicate ts.length Slot.fresh).length
              rw [List.getElem?_replicate, List.length_replicate]
              simp
            seen := by
              intro i
              refine iff_of_false ?_ ?_
              · intro hx
                cases hget hx
              · intro hx
                cases hx
            outside := fun h => by cases h
            empty := fun he => absurd he htsne
            member := by
              intro t ht
              have ht : (s.all j).closer = .completer t ∨ (s.all j).closer = .waker t := ht
              rw [hnobody] at ht
              rcases ht with ht | ht
              · cases ht
              · cases ht
            waits := fun _ => htsne
            early := fun _ => hnone
            suspended := fun h => by cases h
            past := fun h => by cases h
            shutting := fun _ h => by cases h
            closer := by
              simp only [CloserSound, hnobody]
              exact ⟨hret, hcalls, Or.inl (List.length_pos_of_ne_nil htsne), hgate⟩ }

theorem Sound.allResume (h : Sound s) (hs : allResume s j = some s') : Sound s' := by
  rw [Waiters.allResume] at hs
  split at hs
  case h_2 => cases hs
  case h_1 hphase =>
    obtain ⟨hcalls, rfl⟩ := of_guard hs
    apply h.rephase
    · rw [hphase]
      rfl
    · rfl
    · intro he
      cases he
    · intro he
      cases he
    · intro he
      cases he
    · intro _
      exact Or.inr (Or.inr hcalls)

/-- A coroutine past its wait moves on. -/
theorem Sound.repast (h : Sound s) (hold : (s.all j).phase.past = true) (hnew : p.past = true) :
    Sound (s.setAll j { s.all j with phase := p }) := by
  have hstill : ∀ {q : AllPhase ε β}, q.past = true →
      q.still = true ∧ q.outside = false ∧ q ≠ .suspended ∧ q.early = false := by
    intro q hq
    cases q with
    | collecting vs => exact ⟨rfl, rfl, (fun he => by cases he), rfl⟩
    | awaiting a vs => exact ⟨rfl, rfl, (fun he => by cases he), rfl⟩
    | finished r => exact ⟨rfl, rfl, (fun he => by cases he), rfl⟩
    | absent => cases hq
    | entering => cases hq
    | registering i => cases hq
    | counting i => cases hq
    | shutting i => cases hq
    | suspended => cases hq
  obtain ⟨hst, hout, hne, hearly⟩ := hstill hnew
  refine h.rephase (hstill hold).1 hst ?_ hne ?_ (fun _ => (h.all j).past hold)
  · intro he
    rw [hout] at he
    cases he
  · intro he
    rw [hearly] at he
    cases he

theorem Sound.allCollect (h : Sound s) {a : Nat} (hs : allCollect s j a = some s') : Sound s' := by
  rw [Waiters.allCollect] at hs
  split at hs
  case h_2 => cases hs
  case h_1 vs hphase =>
    split at hs
    case h_1 t _ =>
      obtain ⟨s₁, hs₁, rfl⟩ := Option.map_eq_some_iff.1 hs
      have hall : s₁.all j = s.all j := by
        rw [Waiters.awaitCreate] at hs₁
        split at hs₁
        case h_2 => cases hs₁
        case h_1 =>
          obtain rfl := Option.some.inj hs₁
          rfl
      rw [← hall]
      apply (h.awaitCreate hs₁).repast
      · rw [hall, hphase]
        rfl
      · rfl
    case h_2 =>
      obtain rfl := Option.some.inj hs
      apply h.repast
      · rw [hphase]
        rfl
      · rfl

variable {convert : α → β} {t : Nat}

theorem Sound.allTake (h : Sound s) (hs : allTake convert s j = some s') : Sound s' := by
  rw [Waiters.allTake] at hs
  split at hs
  case h_2 => cases hs
  case h_1 a vs hphase =>
    have hpast : (s.all j).phase.past = true := by
      rw [hphase]
      rfl
    split at hs
    case h_1 =>
      obtain rfl := Option.some.inj hs
      exact h.repast hpast rfl
    case h_2 =>
      obtain rfl := Option.some.inj hs
      exact h.repast hpast rfl
    case h_3 =>
      obtain rfl := Option.some.inj hs
      exact h.repast hpast rfl
    case h_4 => cases hs

/-! ## The registration loop

The loop is followed slot by slot: look at the task, push a node or count the slot down, and go on
to the next one. -/

/-- What is fresh after slot `i`, the first fresh one, was dealt with. -/
theorem AllSound.fresh_set (h : AllSound s j) (hphase : (s.all j).phase = .registering i)
    {x c : Slot} (hx : (s.all j).slots[i]? = some x) (hc : c ≠ .fresh) (k : Nat) :
    ((s.all j).slots.set i c)[k]? = some .fresh ↔
      i + 1 ≤ k ∧ k < ((s.all j).slots.set i c).length := by
  have hf := h.fresh k
  rw [hphase] at hf
  rw [getElem?_set_iff hx, hf, List.length_set]
  show k = i ∧ _ ∨ k ≠ i ∧ i ≤ k ∧ _ ↔ _
  constructor
  · rintro (⟨_, he⟩ | ⟨hne, hle, hlt⟩)
    · exact absurd he.symm hc
    · exact ⟨by omega, hlt⟩
  · rintro ⟨hle, hlt⟩
    exact Or.inr ⟨by omega, by omega, hlt⟩

/-- In front of slot `i` the slot is fresh. -/
theorem AllSound.fresh_at (h : AllSound s j) (hphase : (s.all j).phase = .registering i)
    (ht : (s.all j).tasks[i]? = some t) : (s.all j).slots[i]? = some .fresh := by
  have hlt : i < (s.all j).tasks.length := (List.getElem?_eq_some_iff.1 ht).1
  apply (h.fresh i).2
  rw [hphase, h.size]
  exact ⟨Nat.le_refl i, hlt⟩

/-- The registration finds the task ready. -/
theorem Sound.registerSeen (h : Sound s) (hphase : (s.all j).phase = .registering i)
    (ht : (s.all j).tasks[i]? = some t) (hready : (s.task t).bReady = true) :
    Sound (s.setAll j
      { s.all j with phase := .counting i, slots := (s.all j).slots.set i .seen }) := by
  have hj := h.all j
  have hfresh := hj.fresh_at hphase ht
  have hset {a b : Slot} := @getElem?_set_iff _ a b i (s.all j).slots
  apply h.setAll
  · -- the slot was not pushed and is not now
    intro k u
    constructor
    · rintro ⟨hu, hp⟩
      rcases (hset hfresh).1 hp with ⟨_, he⟩ | ⟨_, hp⟩
      · cases he
      · exact ⟨hu, hp⟩
    · rintro ⟨hu, hp⟩
      refine ⟨hu, (hset hfresh).2 (Or.inr ⟨?_, hp⟩)⟩
      intro he
      rw [he, hfresh] at hp
      cases hp
  · intro u _
    rfl
  · apply AllSound.of_record (setAll_all_self _ j _)
    exact { hj with
      size := by simpa using hj.size
      left := hj.left.trans (@tally_set_eq _ Slot.left .seen .fresh _ _ hfresh rfl).symm
      ready := by
        intro k u hu hs
        have hs : ((s.all j).slots.set i .seen)[k]? = some .seen ∨
            ((s.all j).slots.set i .seen)[k]? = some .closed := hs
        rw [hset hfresh, hset hfresh] at hs
        rcases hs with (⟨rfl, _⟩ | ⟨_, hs⟩) | (⟨_, he⟩ | ⟨_, hs⟩)
        · have hu : (s.all j).tasks[k]? = some u := hu
          rw [ht] at hu
          obtain rfl := Option.some.inj hu
          exact hready
        · exact hj.ready k u hu (Or.inl hs)
        · cases he
        · exact hj.ready k u hu (Or.inr hs)
      fresh := hj.fresh_set hphase hfresh (by decide)
      seen := by
        intro k
        show ((s.all j).slots.set i .seen)[k]? = some .seen ↔ AllPhase.counting i = .counting k
        rw [hset hfresh, hj.seen k, hphase]
        constructor
        · rintro (⟨hk, _⟩ | ⟨_, he⟩)
          · rw [hk]
          · cases he
        · intro he
          injection he with he
          exact Or.inl ⟨he.symm, rfl⟩
      outside := nofun
      waits := fun _ => hj.waits (by rw [hphase]; rfl)
      early := fun _ => hj.early (by rw [hphase]; rfl)
      suspended := nofun
      past := nofun
      shutting := nofun
      closer := by
        have hleft := hj.left_pos hfresh (by decide)
        obtain ⟨hnobody, hret, hcalls, hgate⟩ := hj.closer.nobody hleft
        simp only [CloserSound, hnobody]
        exact ⟨hret, hcalls, Or.inl hleft, hgate⟩ }

/-- The registration pushes the slot into the list of a task that is not ready. -/
theorem Sound.registerPush (h : Sound s) (hphase : (s.all j).phase = .registering i)
    (ht : (s.all j).tasks[i]? = some t) (hready : (s.task t).bReady = false) :
    Sound ((pushNode s t (.slot j i)).setAll j
      { s.all j with phase := .registering (i + 1), slots := (s.all j).slots.set i .pushed }) := by
  have hj := h.all j
  have hfresh := hj.fresh_at hphase ht
  have hset {a b : Slot} := @getElem?_set_iff _ a b i (s.all j).slots
  have hview : ∀ k u, ({ s.all j with
        phase := .registering (i + 1),
        slots := (s.all j).slots.set i .pushed } : All ε β).Pushed k u ↔
      k = i ∧ u = t ∨ (s.all j).Pushed k u := by
    intro k u
    constructor
    · rintro ⟨hu, hp⟩
      rcases (hset hfresh).1 hp with ⟨hk, _⟩ | ⟨_, hp⟩
      · subst hk
        have hu : (s.all j).tasks[k]? = some u := hu
        rw [ht] at hu
        exact Or.inl ⟨rfl, (Option.some.inj hu).symm⟩
      · exact Or.inr ⟨hu, hp⟩
    · rintro (⟨rfl, rfl⟩ | ⟨hu, hp⟩)
      · exact ⟨ht, (hset hfresh).2 (Or.inl ⟨rfl, rfl⟩)⟩
      · refine ⟨hu, (hset hfresh).2 (Or.inr ⟨?_, hp⟩)⟩
        intro he
        rw [he, hfresh] at hp
        cases hp
  have hnew : ∀ u, Node.slot j i ∉ (s.task u).held := by
    intro u hm
    have hp := (((h.task u).slots j i).1 hm).2
    rw [hfresh] at hp
    cases hp
  have hleft := hj.left_pos hfresh (by decide)
  obtain ⟨hnobody, hret, hcalls, hgate⟩ := hj.closer.nobody hleft
  refine @Sound.ofTaskAll _ _ _ s _ h t j ?_ ?_ rfl ?_ ?_ ?_ ?_ ?_ ?_ ?_
  · intro t' ht'
    exact pushNode_task_ne s _ ht'
  · intro j' hj'
    rw [setAll_all_ne _ _ hj']
    rfl
  · intro t' _
    exact (h.task t').chain_update (hnew t') _
  · intro hr
    rw [hready] at hr
    cases hr
  · intro t' ht' k
    rw [setAll_all_self, hview]
    constructor
    · rintro (⟨_, he⟩ | hp)
      · exact absurd he ht'
      · exact hp
    · intro hp
      exact Or.inr hp
  · intro t' _ _
    rw [setAll_all_self]
  · intro j' _ _
    rw [setAll_task, pushNode_task_self]
  · refine @TaskSound.push _ _ _ s _ t (.slot j i) (h.task t) (hnew t) hready rfl rfl ?_ ?_ ?_
    · intro a
      constructor
      · intro hp
        exact Or.inr hp
      · rintro (he | hp)
        · cases he
        · exact hp
    · intro j' k
      by_cases hj' : j' = j
      · subst hj'
        rw [setAll_all_self, hview]
        constructor
        · rintro (⟨rfl, _⟩ | hp)
          · exact Or.inl rfl
          · exact Or.inr hp
        · rintro (he | hp)
          · injection he with _ hk
            exact Or.inl ⟨hk, rfl⟩
          · exact Or.inr hp
      · rw [setAll_all_ne _ _ hj']
        constructor
        · intro hp
          exact Or.inr hp
        · rintro (he | hp)
          · injection he with he _
            exact absurd he hj'
          · exact hp
    · intro j'
      by_cases hj' : j' = j
      · subst hj'
        rw [setAll_all_self]
      · rw [setAll_all_ne _ _ hj']
        rfl
  · have hmono : ∀ u, (s.task u).bReady = true → ((pushNode s t (.slot j i)).task u).bReady = true := by
      intro u hu
      by_cases he : u = t
      · subst he
        rw [hready] at hu
        cases hu
      · rw [pushNode_task_ne s _ he]
        exact hu
    apply AllSound.of_record (setAll_all_self _ j _)
    exact { hj with
      size := by simpa using hj.size
      left := hj.left.trans (@tally_set_eq _ Slot.left .pushed .fresh _ _ hfresh rfl).symm
      ready := by
        intro k u hu hs
        have hs : ((s.all j).slots.set i .pushed)[k]? = some .seen ∨
            ((s.all j).slots.set i .pushed)[k]? = some .closed := hs
        rw [hset hfresh, hset hfresh] at hs
        rcases hs with (⟨_, he⟩ | ⟨_, hs⟩) | (⟨_, he⟩ | ⟨_, hs⟩)
        · cases he
        · exact hmono u (hj.ready k u hu (Or.inl hs))
        · cases he
        · exact hmono u (hj.ready k u hu (Or.inr hs))
      fresh := hj.fresh_set hphase hfresh (by decide)
      seen := by
        intro k
        show ((s.all j).slots.set i .pushed)[k]? = some .seen ↔ AllPhase.registering (i + 1) = .counting k
        rw [hset hfresh, hj.seen k, hphase]
        constructor
        · rintro (⟨_, he⟩ | ⟨_, he⟩)
          · cases he
          · cases he
        · intro he
          cases he
      outside := nofun
      waits := fun _ => hj.waits (by rw [hphase]; rfl)
      early := fun _ => hj.early (by rw [hphase]; rfl)
      suspended := nofun
      past := nofun
      shutting := nofun
      closer := by
        simp only [CloserSound, hnobody]
        exact ⟨hret, hcalls, Or.inl hleft, hgate⟩ }

/-- The exchange of the gate at the end of `await_suspend`. Who finds `Ready` finds the count at
zero; who does not leaves the wake-up to the task that brings it there. -/
theorem Sound.registerEnd (h : Sound s) (hphase : (s.all j).phase = .registering i)
    (hend : (s.all j).tasks[i]? = none) {b : Bool}
    (hready : (s.all j).iGate = .Ready → p = .collecting [] ∧ b = false)
    (hother : (s.all j).iGate ≠ .Ready → p = .suspended ∧ b = true) :
    Sound (s.setAll j { s.all j with iGate := .Waiting, phase := p, returned := some b }) := by
  have hj := h.all j
  have hnone : (s.all j).returned = none := hj.early (by rw [hphase]; rfl)
  have hne : (s.all j).tasks ≠ [] := hj.waits (by rw [hphase]; rfl)
  have hlen : (s.all j).slots.length ≤ i := by
    rw [hj.size]
    exact List.getElem?_eq_none_iff.1 hend
  have hphases : p = .collecting [] ∧ b = false ∨ p = .suspended ∧ b = true := by
    by_cases hg : (s.all j).iGate = .Ready
    · exact Or.inl (hready hg)
    · exact Or.inr (hother hg)
  have hstill : p.still = true := by
    rcases hphases with ⟨rfl, _⟩ | ⟨rfl, _⟩
    · rfl
    · rfl
  have hnofresh : ∀ k : Nat, (s.all j).slots[k]? ≠ some .fresh := by
    intro k hk
    have hk := (hj.fresh k).1 hk
    rw [hphase] at hk
    have hle : i ≤ k := hk.1
    omega
  have hnoseen : ∀ k : Nat, (s.all j).slots[k]? ≠ some .seen := by
    intro k hk
    have hk := (hj.seen k).1 hk
    rw [hphase] at hk
    cases hk
  refine h.setAll (fun _ _ => Iff.rfl) (fun _ _ => rfl) ?_
  apply AllSound.of_record (setAll_all_self _ j _)
  exact { hj with
    fresh := by
      intro k
      refine iff_of_false (hnofresh k) ?_
      show ¬ (p.reached (s.all j).slots.length ≤ k ∧ k < (s.all j).slots.length)
      rw [AllPhase.still_reached hstill]
      omega
    seen := by
      intro k
      refine iff_of_false (hnoseen k) ?_
      intro he
      have he : p = .counting k := he
      rw [he] at hstill
      cases hstill
    outside := by
      intro he
      have he : p.outside = true := he
      rcases hphases with ⟨rfl, _⟩ | ⟨rfl, _⟩
      · cases he
      · cases he
    empty := fun he => absurd he hne
    waits := fun _ => hne
    early := by
      intro he
      have he : p.early = true := he
      rcases hphases with ⟨rfl, _⟩ | ⟨rfl, _⟩
      · cases he
      · cases he
    suspended := by
      intro he
      have he : p = .suspended := he
      rcases hphases with ⟨rfl, _⟩ | ⟨_, hb⟩
      · cases he
      · show some b = some true
        rw [hb]
    past := by
      intro he
      have he : p.past = true := he
      rcases hphases with ⟨_, hb⟩ | ⟨rfl, _⟩
      · refine Or.inr (Or.inl ?_)
        show some b = some false
        rw [hb]
      · cases he
    shutting := by
      intro k he
      have he : p = .shutting k := he
      rw [he] at hstill
      cases hstill
    closer := by
      have hc := hj.closer
      rw [CloserSound] at hc ⊢
      cases hcl : (s.all j).closer with
      | nobody =>
        rw [hcl] at hc
        obtain ⟨_, hcalls, hleft, hgate⟩ := hc
        have hidle : (s.all j).iGate ≠ .Ready := by
          rw [hgate, hnone]
          decide
        obtain ⟨_, rfl⟩ := hother hidle
        exact ⟨(fun he => by cases he), hcalls, hleft, rfl⟩
      | completer t =>
        rw [hcl] at hc
        obtain ⟨_, hcalls, hleft, hgate, hrun⟩ := hc
        have hidle : (s.all j).iGate ≠ .Ready := by
          rw [hgate, hnone]
          decide
        obtain ⟨_, rfl⟩ := hother hidle
        exact ⟨(fun he => by cases he), hcalls, hleft, rfl, hrun⟩
      | registrar =>
        rw [hcl] at hc
        obtain ⟨_, _, _, _, k, hk⟩ := hc
        rw [hphase] at hk
        cases hk
      | shut =>
        rw [hcl] at hc
        obtain ⟨hcalls, hleft, hgate⟩ := hc
        rw [hnone] at hgate
        rcases hgate with ⟨_, hgate⟩ | hgate
        · obtain ⟨_, rfl⟩ := hready hgate
          exact ⟨hcalls, hleft, Or.inr rfl⟩
        · cases hgate
      | waker t =>
        rw [hcl] at hc
        have hret := hc.1
        rw [hnone] at hret
        cases hret
      | woken =>
        rw [hcl] at hc
        have hret := hc.1
        rw [hnone] at hret
        cases hret }

theorem Sound.allRegister (h : Sound s) (hs : allRegister s j = some s') : Sound s' := by
  rw [Waiters.allRegister] at hs
  split at hs
  case h_2 => cases hs
  case h_1 i hphase =>
    split at hs
    case h_1 t ht =>
      split at hs
      case isTrue hready =>
        obtain rfl := Option.some.inj hs
        exact h.registerSeen hphase ht hready
      case isFalse hready =>
        obtain rfl := Option.some.inj hs
        exact h.registerPush hphase ht (by simpa using hready)
    case h_2 hend =>
      split at hs
      case isTrue hgate =>
        obtain rfl := Option.some.inj hs
        exact h.registerEnd hphase hend (fun _ => ⟨rfl, rfl⟩) (fun hne => absurd hgate hne)
      case isFalse hgate =>
        obtain rfl := Option.some.inj hs
        exact h.registerEnd hphase hend (fun he => absurd he hgate) (fun _ => ⟨rfl, rfl⟩)

/-- The registration counts down a slot whose task it found ready. -/
theorem Sound.registerCount (h : Sound s) (hphase : (s.all j).phase = .counting i) {c : Closer}
    (hlast : (s.all j).iLeft = 1 → p = .shutting i ∧ c = .registrar)
    (hmore : (s.all j).iLeft ≠ 1 → p = .registering (i + 1) ∧ c = .nobody) :
    Sound (s.setAll j
      { s.all j with
        iLeft := fetchSub (s.all j).iLeft, phase := p, slots := (s.all j).slots.set i .closed,
        closer := c }) := by
  have hj := h.all j
  have hseen := (hj.seen i).2 hphase
  have hleft := hj.left_pos hseen (by decide)
  obtain ⟨hnobody, hret, hcalls, hgate⟩ := hj.closer.nobody hleft
  have hnone : (s.all j).returned = none := hj.early (by rw [hphase]; rfl)
  have hset {a b : Slot} := @getElem?_set_iff _ a b i (s.all j).slots
  have hphases : p = .shutting i ∧ c = .registrar ∧ (s.all j).iLeft = 1 ∨
      p = .registering (i + 1) ∧ c = .nobody ∧ (s.all j).iLeft ≠ 1 := by
    by_cases hone : (s.all j).iLeft = 1
    · exact Or.inl ⟨(hlast hone).1, (hlast hone).2, hone⟩
    · exact Or.inr ⟨(hmore hone).1, (hmore hone).2, hone⟩
  apply h.setAll
  · intro k u
    constructor
    · rintro ⟨hu, hp⟩
      rcases (hset hseen).1 hp with ⟨_, he⟩ | ⟨_, hp⟩
      · cases he
      · exact ⟨hu, hp⟩
    · rintro ⟨hu, hp⟩
      refine ⟨hu, (hset hseen).2 (Or.inr ⟨?_, hp⟩)⟩
      intro he
      rw [he, hseen] at hp
      cases hp
  · intro u hc
    rw [hnobody] at hc
    rcases hc with hc | hc
    · cases hc
    · cases hc
  · apply AllSound.of_record (setAll_all_self _ j _)
    exact { hj with
      size := by simpa using hj.size
      left := hj.left_close hseen (by decide)
      ready := by
        intro k u hu hs
        have hs : ((s.all j).slots.set i .closed)[k]? = some .seen ∨
            ((s.all j).slots.set i .closed)[k]? = some .closed := hs
        rw [hset hseen, hset hseen] at hs
        rcases hs with (⟨_, he⟩ | ⟨_, hs⟩) | (⟨rfl, _⟩ | ⟨_, hs⟩)
        · cases he
        · exact hj.ready k u hu (Or.inl hs)
        · exact hj.ready k u hu (Or.inl hseen)
        · exact hj.ready k u hu (Or.inr hs)
      fresh := by
        intro k
        have hf := hj.fresh k
        rw [hphase] at hf
        have hreach : p.reached ((s.all j).slots.set i .closed).length = i + 1 := by
          rcases hphases with ⟨rfl, _⟩ | ⟨rfl, _⟩
          · rfl
          · rfl
        show ((s.all j).slots.set i .closed)[k]? = some .fresh ↔
          p.reached ((s.all j).slots.set i .closed).length ≤ k ∧
            k < ((s.all j).slots.set i .closed).length
        rw [hreach, hset hseen, hf, List.length_set]
        show k = i ∧ _ ∨ k ≠ i ∧ i + 1 ≤ k ∧ _ ↔ _
        constructor
        · rintro (⟨_, he⟩ | ⟨_, hk⟩)
          · cases he
          · exact hk
        · intro hk
          exact Or.inr ⟨by omega, hk⟩
      seen := by
        intro k
        show ((s.all j).slots.set i .closed)[k]? = some .seen ↔ p = .counting k
        rw [hset hseen, hj.seen k, hphase]
        refine iff_of_false ?_ ?_
        · rintro (⟨_, he⟩ | ⟨hne, he⟩)
          · cases he
          · injection he with he
            exact hne he.symm
        · intro he
          rcases hphases with ⟨rfl, _⟩ | ⟨rfl, _⟩
          · cases he
          · cases he
      outside := by
        intro he
        have he : p.outside = true := he
        rcases hphases with ⟨rfl, _⟩ | ⟨rfl, _⟩
        · cases he
        · cases he
      empty := fun he => absurd he (hj.waits (by rw [hphase]; rfl))
      member := by
        intro u hu
        have hu : c = .completer u ∨ c = .waker u := hu
        rcases hphases with ⟨_, rfl, _⟩ | ⟨_, rfl, _⟩
        · rcases hu with hu | hu
          · cases hu
          · cases hu
        · rcases hu with hu | hu
          · cases hu
          · cases hu
      waits := fun _ => hj.waits (by rw [hphase]; rfl)
      early := fun _ => hnone
      suspended := by
        intro he
        have he : p = .suspended := he
        rcases hphases with ⟨rfl, _⟩ | ⟨rfl, _⟩
        · cases he
        · cases he
      past := by
        intro he
        have he : p.past = true := he
        rcases hphases with ⟨rfl, _⟩ | ⟨rfl, _⟩
        · cases he
        · cases he
      shutting := by
        intro k he
        have he : p = .shutting k := he
        rcases hphases with ⟨_, hc, _⟩ | ⟨rfl, _⟩
        · exact hc
        · cases he
      closer := by
        rw [CloserSound]
        rcases hphases with ⟨rfl, rfl, hone⟩ | ⟨rfl, rfl, hone⟩
        · refine ⟨hnone, hcalls, ?_, ?_, i, rfl⟩
          · show fetchSub (s.all j).iLeft = 0
            rw [hone]
            rfl
          · show (s.all j).iGate = .Idle
            rw [hgate, hnone]
            rfl
        · refine ⟨hret, hcalls, Or.inl ?_, hgate⟩
          show 0 < fetchSub (s.all j).iLeft
          rw [fetchSub, if_neg (by omega)]
          omega }

theorem Sound.allCount (h : Sound s) (hs : allCount s j = some s') : Sound s' := by
  have hj := h.all j
  rw [Waiters.allCount] at hs
  split at hs
  case h_2 => cases hs
  case h_1 i hphase =>
    have hseen := (hj.seen i).2 hphase
    have hnobody := (hj.closer.nobody (hj.left_pos hseen (by decide))).1
    dsimp only at hs
    split at hs
    case isTrue hone =>
      obtain rfl := Option.some.inj hs
      exact h.registerCount hphase (fun _ => ⟨rfl, rfl⟩) (fun hne => absurd hone hne)
    case isFalse hone =>
      obtain rfl := Option.some.inj hs
      exact h.registerCount hphase (fun he => absurd he hone) (fun _ => ⟨rfl, hnobody⟩)

/-- The registration, which has closed the last slot, sets the gate. -/
theorem Sound.allShut (h : Sound s) (hs : allShut s j = some s') : Sound s' := by
  have hj := h.all j
  rw [Waiters.allShut] at hs
  split at hs
  case h_2 => cases hs
  case h_1 i hphase =>
    obtain rfl := Option.some.inj hs
    have hreg := hj.shutting i hphase
    have hc := hj.closer
    rw [CloserSound, hreg] at hc
    obtain ⟨hnone, hcalls, hleft, _, _⟩ := hc
    apply h.setAll
    · intro k t
      exact Iff.rfl
    · intro t hc
      rw [hreg] at hc
      rcases hc with hc | hc
      · cases hc
      · cases hc
    · apply AllSound.of_record (setAll_all_self _ j _)
      exact { hj with
        fresh := by
          intro k
          have hf := hj.fresh k
          rw [hphase] at hf
          exact hf
        seen := by
          intro k
          rw [hj.seen k, hphase]
          refine iff_of_false ?_ ?_
          · intro he
            cases he
          · intro he
            cases he
        outside := fun h => by cases h
        empty := fun he => absurd he (hj.waits (by rw [hphase]; rfl))
        member := by
          rintro u (hu | hu)
          · cases hu
          · cases hu
        waits := fun _ => hj.waits (by rw [hphase]; rfl)
        early := fun _ => hnone
        suspended := fun h => by cases h
        past := fun h => by cases h
        shutting := fun _ h => by cases h
        closer := by
          rw [CloserSound]
          exact ⟨hcalls, hleft, Or.inl ⟨hnone, rfl⟩⟩ }

/-! ## Every step -/

/-- The memory of a node that was let go belongs to no task's list. -/
theorem Sound.scribble (h : Sound s) {n : Node} (hn : s.released n = true) (garbage : Option Node) :
    Sound { s with pNext := Function.update s.pNext n garbage } := by
  refine ⟨fun t => ?_, fun a => (h.await a).transfer rfl (fun _ ht => ⟨ht, rfl⟩),
    fun j => (h.all j).transfer rfl (fun _ ht => ht) (fun _ _ => rfl)⟩
  have hnot : n ∉ (s.task t).held := by
    intro hm
    have hfalse := h.not_released hm
    rw [hn] at hfalse
    cases hfalse
  exact (h.task t).transfer rfl ((h.task t).chain_update hnot garbage).1
    ((h.task t).chain_update hnot garbage).2 (fun _ => Iff.rfl) (fun _ _ => Iff.rfl)
    (fun _ _ => rfl)

theorem step_sound {e : Event ε α} (h : Sound s) (hs : step convert s e = some s') : Sound s' := by
  cases e with
  | taskReturn t o => exact h.taskReturn hs
  | taskFinal t => exact h.taskFinal hs
  | taskVisit t => exact h.taskVisit hs
  | taskTest t => exact h.taskTest hs
  | taskGate t => exact h.taskGate hs
  | taskWake t => exact h.taskWake hs
  | awaitCreate a t => exact h.awaitCreate hs
  | awaitReady a => exact h.awaitReady hs
  | awaitSuspend a => exact h.awaitSuspend hs
  | awaitResume a => exact h.awaitResume hs
  | awaitTake a => exact h.awaitTake hs
  | allCreate j v => exact h.allCreate hs
  | allEnter j => exact h.allEnter hs
  | allRegister j => exact h.allRegister hs
  | allCount j => exact h.allCount hs
  | allShut j => exact h.allShut hs
  | allResume j => exact h.allResume hs
  | allCollect j a => exact h.allCollect hs
  | allTake j => exact h.allTake hs
  | scribble n garbage =>
    rw [step] at hs
    split at hs
    case isTrue hn =>
      obtain rfl := Option.some.inj hs
      exact h.scribble hn garbage
    case isFalse => cases hs

theorem run_sound {es : List (Event ε α)} (h : runFrom (step convert) (init ε α β) es = some s) :
    Sound s :=
  runFrom_invariant (fun _ _ _ => step_sound) sound_init h

end OpenIdea.Coro.Waiters
