import Mathlib.Algebra.Order.Ring.Int
import Mathlib.Data.Int.DivMod
import OpenIdea.Lib.OrdMap
import OpenIdea.Lib.Runs

/-!
# Session numbers (oi_session_manager.cpp)

A `SessionManager` numbers its sessions with the counter `iCurrentSessionId`, a `sid_t`, that is a
signed 32-bit integer. `AddSession` takes the next number for every accepted socket, completed
connect and new UDP peer, and `AbortSession` lets one pass by for every failed connect.

The counter is incremented without a check. Beyond `2 ^ 31 - 1` the increment is a signed overflow,
which C++ leaves undefined; here it wraps around, as the machine's addition does. As long as the
counter has room, ids are unique (`ids_unique`); after it has come round they are not
(`comesRound_not_unique`).
-/

set_option autoImplicit false

namespace OpenIdea.Net.SessionTable

open OpenIdea.Lib OpenIdea.Lib.Runs

/-- `INVALID_SID`. -/
def INVALID_SID : ℤ := -1

/-- The numbering part of a `SessionManager`. The session objects are numbered in the order in which
they are handed to `AddSession`. -/
structure State where
  iCurrentSessionId : ℤ
  mSessionMap : List (ℤ × ℕ)
  /-- The number of sessions added so far. -/
  added : ℕ
  /-- `GetSessionID` of the sessions added so far. -/
  sessionId : ℕ → ℤ

def init : State where
  iCurrentSessionId := 0
  mSessionMap := []
  added := 0
  sessionId := fun _ => 0

/-- `++iCurrentSessionId`. -/
def State.next (s : State) : ℤ := Int.bmod (s.iCurrentSessionId + 1) (2 ^ 32)

/-- `AddSession`, under the manager's lock. -/
def State.addSession (s : State) : State where
  iCurrentSessionId := s.next
  mSessionMap := OrdMap.put s.mSessionMap s.next s.added
  added := s.added + 1
  sessionId := Function.update s.sessionId s.added s.next

/-- `AbortSession`, for the attempt that is pending. -/
def State.abortSession (s : State) : State :=
  { s with iCurrentSessionId := s.next }

/-- `CloseSession`. -/
def State.closeSession (s : State) (iSessionId : ℤ) : State :=
  { s with mSessionMap := OrdMap.erase s.mSessionMap iSessionId }

/-- The session that `SendBytesResult`, `HoldSessionTask` and `CloseSession` find under a number. -/
def State.session (s : State) (iSessionId : ℤ) : Option ℕ :=
  OrdMap.find s.mSessionMap iSessionId

inductive Event where
  | addSession
  | abortSession
  | closeSession (iSessionId : ℤ)
  deriving DecidableEq

def step (s : State) : Event → Option State
  | .addSession => some s.addSession
  | .abortSession => some s.abortSession
  | .closeSession iSessionId => some (s.closeSession iSessionId)

/-! ## What numbering should give -/

/-- Every added session gets a number that is valid and not in use. -/
def FreshIds (s : State) (run : List Event) : Prop :=
  ∀ es es' t, run = es ++ Event.addSession :: es' → runFrom step s es = some t →
    t.next ≠ INVALID_SID ∧ t.session t.next = none

/-- A session leaves the table only by `CloseSession` with its number. -/
def KeepsSessions (s : State) (run : List Event) : Prop :=
  ∀ es e es' t t' i p, run = es ++ e :: es' → runFrom step s es = some t → step t e = some t' →
    t.session i = some p → e ≠ .closeSession i → t'.session i = some p

/-- Whatever finds a session under the number of `p`, then or later, finds `p`. -/
def ReachesIssued (s : State) (run : List Event) : Prop :=
  ∀ es₁ es₂ es₃ t₁ t₂ p q, run = es₁ ++ (es₂ ++ es₃) → runFrom step s es₁ = some t₁ →
    runFrom step t₁ es₂ = some t₂ → p < t₁.added → t₂.session (t₁.sessionId p) = some q → q = p

/-! ## Below the largest number -/

/-- **The condition.** The counter has not reached the largest `sid_t` where it is incremented. -/
def HasRoom (s : State) : Event → Prop
  | .closeSession _ => True
  | _ => s.iCurrentSessionId < 2 ^ 31 - 1

instance (s : State) (e : Event) : Decidable (HasRoom s e) := by
  cases e <;> unfold HasRoom <;> infer_instance

/-- **The invariant.** The numbers given are positive, increase with the sessions, and the table
holds each session under its own. -/
structure Wf (s : State) : Prop where
  counter : 0 ≤ s.iCurrentSessionId
  sorted : OrdMap.Sorted s.mSessionMap
  given : ∀ p < s.added, 0 < s.sessionId p ∧ s.sessionId p ≤ s.iCurrentSessionId
  increasing : ∀ p q, p < q → q < s.added → s.sessionId p < s.sessionId q
  own : ∀ i p, s.session i = some p → p < s.added ∧ s.sessionId p = i

theorem wf_init : Wf init where
  counter := le_refl _
  sorted := List.Pairwise.nil
  given := fun p hp => absurd hp (Nat.not_lt_zero p)
  increasing := fun p q _ hq => absurd hq (Nat.not_lt_zero q)
  own := fun i p h => by cases h

variable {p : ℕ} {s s' : State}

theorem Wf.sessionId_injective (h : Wf s) {q : ℕ} (hp : p < s.added) (hq : q < s.added)
    (heq : s.sessionId p = s.sessionId q) : p = q := by
  rcases Nat.lt_trichotomy p q with hlt | rfl | hlt
  · exact absurd heq (ne_of_lt (h.increasing p q hlt hq))
  · rfl
  · exact absurd heq (ne_of_gt (h.increasing q p hlt hp))

/-- Below the largest number the increment does not wrap. -/
theorem Wf.next_eq (h : Wf s) (hroom : s.iCurrentSessionId < 2 ^ 31 - 1) :
    s.next = s.iCurrentSessionId + 1 := by
  have hcounter := h.counter
  rw [State.next]
  exact Int.bmod_eq_of_le (by omega) (by omega)

/-- The next number is in nobody's hands. -/
theorem Wf.session_next (h : Wf s) (hroom : s.iCurrentSessionId < 2 ^ 31 - 1) :
    s.session s.next = none := by
  cases hfind : s.session s.next with
  | none => rfl
  | some p =>
    obtain ⟨hp, hid⟩ := h.own _ _ hfind
    have hle := (h.given p hp).2
    rw [hid, h.next_eq hroom] at hle
    omega

theorem State.session_addSession (s : State) (i : ℤ) :
    s.addSession.session i = if i = s.next then some s.added else s.session i :=
  OrdMap.find_put _ _ _ _

theorem State.session_closeSession (h : Wf s) (i j : ℤ) :
    (s.closeSession j).session i = if i = j then none else s.session i :=
  OrdMap.find_erase h.sorted _ _

theorem State.sessionId_addSession (hp : p < s.added) : s.addSession.sessionId p = s.sessionId p :=
  Function.update_of_ne (ne_of_lt hp) _ _

theorem State.sessionId_addSession_self (s : State) : s.addSession.sessionId s.added = s.next :=
  Function.update_self _ _ _

theorem wf_addSession (h : Wf s) (hroom : s.iCurrentSessionId < 2 ^ 31 - 1) : Wf s.addSession := by
  have hnext := h.next_eq hroom
  have hcounter := h.counter
  have hcurrent : s.addSession.iCurrentSessionId = s.iCurrentSessionId + 1 := hnext
  refine ⟨by rw [hcurrent]; omega, h.sorted.put _ _, ?_, ?_, ?_⟩
  · intro p hp
    rw [hcurrent]
    rcases Nat.lt_succ_iff_lt_or_eq.1 hp with hp | rfl
    · rw [State.sessionId_addSession hp]
      have hgiven := h.given p hp
      omega
    · rw [State.sessionId_addSession_self, hnext]
      omega
  · intro p q hpq hq
    rcases Nat.lt_succ_iff_lt_or_eq.1 hq with hq | rfl
    · rw [State.sessionId_addSession hq, State.sessionId_addSession (hpq.trans hq)]
      exact h.increasing p q hpq hq
    · rw [State.sessionId_addSession_self, State.sessionId_addSession hpq, hnext]
      have hgiven := h.given p hpq
      omega
  · intro i p hfind
    rw [State.session_addSession] at hfind
    split at hfind
    · rename_i hi
      obtain rfl := Option.some.inj hfind
      exact ⟨Nat.lt_succ_self _, by rw [State.sessionId_addSession_self, hi]⟩
    · obtain ⟨hp, hid⟩ := h.own i p hfind
      exact ⟨hp.trans (Nat.lt_succ_self _), by rw [State.sessionId_addSession hp, hid]⟩

theorem wf_abortSession (h : Wf s) (hroom : s.iCurrentSessionId < 2 ^ 31 - 1) :
    Wf s.abortSession := by
  have hcounter := h.counter
  have hcurrent : s.abortSession.iCurrentSessionId = s.iCurrentSessionId + 1 := h.next_eq hroom
  refine { h with counter := by rw [hcurrent]; omega, given := fun p hp => ?_ }
  rw [hcurrent]
  have hgiven := h.given p hp
  exact ⟨hgiven.1, hgiven.2.trans (by omega)⟩

theorem wf_closeSession (h : Wf s) (i : ℤ) : Wf (s.closeSession i) := by
  refine { h with sorted := h.sorted.erase _, own := fun j p hfind => ?_ }
  rw [State.session_closeSession h] at hfind
  obtain ⟨_, hfind⟩ := Option.ite_none_left_eq_some.1 hfind
  exact h.own j p hfind

theorem wf_step {e : Event} (h : Wf s) (hroom : HasRoom s e) (hstep : step s e = some s') :
    Wf s' := by
  cases e with
  | addSession =>
    obtain rfl := Option.some.inj hstep
    exact wf_addSession h hroom
  | abortSession =>
    obtain rfl := Option.some.inj hstep
    exact wf_abortSession h hroom
  | closeSession i =>
    obtain rfl := Option.some.inj hstep
    exact wf_closeSession h i

theorem wf_run {run : List Event} (h : Wf s) (hroom : Along step HasRoom s run)
    (hrun : runFrom step s run = some s') : Wf s' :=
  runFrom_invariant_along (fun _ _ _ h hP hstep => wf_step h hP hstep) h hroom hrun

/-- A step keeps the sessions of the other numbers. -/
theorem session_step {e : Event} (h : Wf s) (hroom : HasRoom s e) (hstep : step s e = some s')
    {i : ℤ} (hfind : s.session i = some p) (hclose : e ≠ .closeSession i) :
    s'.session i = some p := by
  cases e with
  | addSession =>
    obtain rfl := Option.some.inj hstep
    rw [State.session_addSession, if_neg, hfind]
    rintro rfl
    rw [h.session_next hroom] at hfind
    cases hfind
  | abortSession =>
    obtain rfl := Option.some.inj hstep
    exact hfind
  | closeSession j =>
    obtain rfl := Option.some.inj hstep
    rw [State.session_closeSession h, if_neg, hfind]
    rintro rfl
    exact hclose rfl

/-- A session keeps the number it was given. -/
theorem sessionId_run {run : List Event} (hp : p < s.added) (hrun : runFrom step s run = some s') :
    p < s'.added ∧ s'.sessionId p = s.sessionId p := by
  refine runFrom_invariant (I := fun t => p < t.added ∧ t.sessionId p = s.sessionId p) ?_
    ⟨hp, rfl⟩ hrun
  intro t e t' ⟨hadded, hid⟩ hstep
  cases e with
  | addSession =>
    obtain rfl := Option.some.inj hstep
    exact ⟨hadded.trans (Nat.lt_succ_self _), by rw [State.sessionId_addSession hadded, hid]⟩
  | abortSession | closeSession i =>
    obtain rfl := Option.some.inj hstep
    exact ⟨hadded, hid⟩

/-- **Numbers name one session each.** In every run that never increments the counter at its largest
value, each added session gets a valid number not in use, no session is lost or replaced, and a
number that was given to a session never finds another. -/
theorem ids_unique {run : List Event} (hroom : Along step HasRoom init run) :
    FreshIds init run ∧ KeepsSessions init run ∧ ReachesIssued init run := by
  refine ⟨?_, ?_, ?_⟩
  · intro es es' t hsplit ht
    rw [hsplit, along_append] at hroom
    have hwf := wf_run wf_init hroom.1 ht
    have hnow : t.iCurrentSessionId < 2 ^ 31 - 1 := (hroom.2 t ht).1
    refine ⟨?_, hwf.session_next hnow⟩
    have hcounter := hwf.counter
    rw [hwf.next_eq hnow, INVALID_SID]
    omega
  · intro es e es' t t' i p hsplit ht hstep hfind hclose
    rw [hsplit, along_append] at hroom
    exact session_step (wf_run wf_init hroom.1 ht) (hroom.2 t ht).1 hstep hfind hclose
  · intro es₁ es₂ es₃ t₁ t₂ p q hsplit ht₁ ht₂ hp hfind
    rw [hsplit, along_append] at hroom
    have hwf₁ := wf_run wf_init hroom.1 ht₁
    have hwf₂ := wf_run hwf₁ (along_append.1 (hroom.2 t₁ ht₁)).1 ht₂
    obtain ⟨hp₂, hid⟩ := sessionId_run hp ht₂
    obtain ⟨hq, hqid⟩ := hwf₂.own _ _ hfind
    exact hwf₂.sessionId_injective hq hp₂ (by rw [hqid, hid])

/-! ## Beyond it -/

/-- Failed connects let the counter run on, around the end of its range. -/
theorem abort_many (n : ℕ) (s : State) :
    ∃ s', runFrom step s (List.replicate n .abortSession) = some s' ∧
      s'.mSessionMap = s.mSessionMap ∧ s'.added = s.added ∧
        s'.next = Int.bmod (s.iCurrentSessionId + n + 1) (2 ^ 32) := by
  induction n generalizing s with
  | zero => exact ⟨s, rfl, rfl, rfl, by rw [State.next, Int.natCast_zero, Int.add_zero]⟩
  | succ n ih =>
    obtain ⟨s', hrun, hmap, hadded, hnext⟩ := ih s.abortSession
    refine ⟨s', runFrom_cons.2 ⟨s.abortSession, rfl, hrun⟩, hmap, hadded, ?_⟩
    have hwrap : s.abortSession.iCurrentSessionId + n + 1 =
        Int.bmod (s.iCurrentSessionId + 1) (2 ^ 32) + (n + 1) := add_assoc _ _ _
    rw [hnext, hwrap, Int.bmod_add_bmod]
    congr 1
    push_cast
    omega

/-- A session is added; then so many connects fail that the counter comes round, and a second
session is added while the first is still there. -/
def comesRound : List Event :=
  .addSession :: (List.replicate (2 ^ 32 - 1) .abortSession ++ [.addSession])

/-- **The counter comes round.** The second session gets the number of the first and takes its place
in the table. -/
theorem comesRound_not_unique :
    ¬ FreshIds init comesRound ∧ ¬ KeepsSessions init comesRound := by
  obtain ⟨t, ht, hmap, hadded, hnext⟩ := abort_many (2 ^ 32 - 1) init.addSession
  have hrun : runFrom step init (.addSession :: List.replicate (2 ^ 32 - 1) .abortSession) =
      some t := runFrom_cons.2 ⟨_, rfl, ht⟩
  have hone : t.next = 1 := by
    rw [hnext]
    decide
  have hfirst : t.session 1 = some 0 := by
    rw [State.session, hmap]
    decide
  refine ⟨fun hfresh => ?_, fun hkeeps => ?_⟩
  · have hnone := (hfresh (.addSession :: List.replicate (2 ^ 32 - 1) .abortSession) [] t rfl
      hrun).2
    rw [hone, hfirst] at hnone
    cases hnone
  · have hstill := hkeeps (.addSession :: List.replicate (2 ^ 32 - 1) .abortSession) .addSession []
      t t.addSession 1 0 rfl hrun rfl hfirst (by decide)
    rw [State.session_addSession, if_pos hone.symm, hadded] at hstill
    cases hstill

/-- Two sessions and a failed connect between them, well below the largest number. -/
theorem ids_unique_twoSessions :
    Along step HasRoom init [.addSession, .abortSession, .addSession, .closeSession 1] ∧
      FreshIds init [.addSession, .abortSession, .addSession, .closeSession 1] ∧
      KeepsSessions init [.addSession, .abortSession, .addSession, .closeSession 1] ∧
      ReachesIssued init [.addSession, .abortSession, .addSession, .closeSession 1] := by
  have hroom : Along step HasRoom init [.addSession, .abortSession, .addSession, .closeSession 1] := by
    decide
  exact ⟨hroom, ids_unique hroom⟩

end OpenIdea.Net.SessionTable
