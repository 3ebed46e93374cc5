import Mathlib.Data.List.Count
import OpenIdea.Lib.Tally
import OpenIdea.Rpc.RouteConnection

/-!
# The steps of a routed connection

The poll thread works on one attempt to connect at a time: it resolves the address, waits for a
connector, or is in between (`Link.attempts`). `Link.Wf` says so, and what each flag promises. A
connection that is being retired has lost its connector, and `Finish` is the last thing that
`Retire` does to it (`Link.retiring`).

`Moves` lists what one step of any thread can do. A step of a task starts from the state with the
task first in the list; the order of the list does not matter (`step_moves`).
-/

set_option autoImplicit false

namespace OpenIdea.Rpc.RouteConnection

open OpenIdea.Lib OpenIdea.Lib.Runs OpenIdea.Lib.Tally

/-! ## The poll thread -/

namespace PollTask

/-- The poll thread is working on an attempt to connect. -/
def attempts : PollTask → ℕ
  | .begin | .onResolved _ | .connect | .adopt | .finish _ => 1
  | .retire _ | .closeSession _ | .activeClose _ | .retired => 0

/-- The poll thread is in `Retire`, before its `Finish`. -/
def retiring : PollTask → Bool
  | .retire _ | .closeSession _ | .activeClose _ | .retired => true
  | _ => false

/-- `Retire` has still to take the connector back. -/
def cancels : PollTask → Bool
  | .retire _ => true
  | _ => false

/-- A retired connection can come to this, but to no session. -/
def quiet : PollTask → Bool
  | .begin | .connect | .adopt => false
  | .finish iSessionId => decide (iSessionId = invalidSid)
  | _ => true

end PollTask

namespace Link

/-- The attempts to resolve or connect that have begun and not ended. -/
def attempts (l : Link) : ℕ := l.resolves + l.pConnector.toNat + l.poll.elim 0 PollTask.attempts

/-- `Retire` is between its lock and its `Finish`. -/
def retiring (l : Link) : Bool := l.poll.elim false PollTask.retiring

/-- **What the poll thread does and what the flags say.** `pending` counts the threads that are
about to post a `Begin`. -/
structure Wf (l : Link) (pending : ℕ) : Prop where
  once : l.attempts ≤ 1
  connecting : l.bConnecting = true → l.attempts = 1 ∨ l.retiring = true
  working : 0 < l.attempts → l.bConnecting = true ∨ l.bRetired = true
  posted : l.bPosted.toNat = pending + l.begins
  retire : l.retiring = true → l.bRetired = true
  quiet : l.bRetired = true → ∀ t ∈ l.poll, t.quiet = true
  cancelled : l.bRetired = true → l.poll.elim false PollTask.cancels = false → l.pConnector = false
  /-- What `Retire` leaves behind. -/
  done : l.bRetired = true → l.retiring = false →
    l.iSessionId = invalidSid ∧ l.bConnecting = false

theorem retiring_eq_false {t : PollTask} (ht : t.attempts = 1) : t.retiring = false := by
  cases t <;> first | rfl | cases ht

theorem wf_init : init.Wf 0 where
  once := by decide
  connecting := by decide
  working := by decide
  posted := rfl
  retire := by decide
  quiet := by decide
  cancelled := by decide
  done := by decide

namespace Wf

variable {l l' : Link} {pending : ℕ}

/-- The poll thread goes on with an attempt. -/
theorem work (h : l.Wf pending) (hattempts : l'.attempts = l.attempts)
    (hflags : l'.bConnecting = l.bConnecting ∧ l'.bPosted = l.bPosted ∧ l'.bRetired = l.bRetired)
    (hbegins : l'.begins = l.begins) (hsession : l'.iSessionId = l.iSessionId)
    (hbusy : l.retiring = false) (hbusy' : l'.retiring = false)
    (hquiet : l.bRetired = true → (∀ t ∈ l'.poll, t.quiet = true) ∧ l'.pConnector = false) :
    l'.Wf pending := by
  obtain ⟨hconnecting, hposted, hretired⟩ := hflags
  refine ⟨hattempts.trans_le h.once, ?_, ?_, ?_, ?_, ?_, ?_, ?_⟩
  · rw [hconnecting, hattempts]
    intro hc
    exact Or.inl ((h.connecting hc).resolve_right (by simp [hbusy]))
  · rw [hattempts, hconnecting, hretired]
    exact h.working
  · rw [hposted, hbegins]
    exact h.posted
  · intro hr
    rw [hbusy'] at hr
    cases hr
  · rw [hretired]
    exact fun hr => (hquiet hr).1
  · rw [hretired]
    exact fun hr _ => (hquiet hr).2
  · rw [hretired, hsession, hconnecting]
    exact fun hr _ => h.done hr hbusy

/-- Where the poll thread has nothing to do or is at an attempt, `Retire` is over or yet to come. -/
theorem connector (h : l.Wf pending) (hbusy : l.retiring = false) (hr : l.bRetired = true) :
    l.pConnector = false := by
  refine h.cancelled hr ?_
  cases hpoll : l.poll with
  | none => rfl
  | some t =>
    rw [retiring, hpoll] at hbusy
    cases t with
    | retire => cases hbusy
    | _ => rfl

theorem next (h : l.Wf pending) {t t' : PollTask} (hpoll : l.poll = some t)
    (ht : t.attempts = 1) (ht' : t'.attempts = 1) (hquiet : l.bRetired = true → t'.quiet = true) :
    (l.next t').Wf pending := by
  have hbusy : l.retiring = false := by
    rw [retiring, hpoll]
    exact retiring_eq_false ht
  refine h.work ?_ ⟨rfl, rfl, rfl⟩ rfl rfl hbusy (retiring_eq_false ht') fun hr =>
    ⟨?_, h.connector hbusy hr⟩
  · simp only [attempts, Link.next, hpoll, Option.elim_some, ht, ht']
  · intro u hu
    obtain rfl := Option.some.inj hu
    exact hquiet hr

theorem begin (h : l.Wf pending) (hpoll : l.poll = none) (hbegins : 0 < l.begins) :
    l.begin.Wf pending := by
  have hposted : 0 = pending + (l.begins - 1) := by
    have hsum := h.posted
    have hle := Bool.toNat_le l.bPosted
    omega
  have hbusy : l.retiring = false := by
    rw [retiring, hpoll]
    rfl
  rw [Link.begin]
  split
  · exact ⟨h.once, h.connecting, h.working, hposted, h.retire, h.quiet, h.cancelled, h.done⟩
  · rename_i hfree
    simp only [Bool.or_eq_true, not_or, Bool.not_eq_true] at hfree
    obtain ⟨⟨hretired, hconnecting⟩, -⟩ := hfree
    -- nothing is under way, so this is the only attempt
    have hzero : l.attempts = 0 := by
      by_contra hne
      rcases h.working (Nat.pos_of_ne_zero hne) with hc | hr
      · rw [hc] at hconnecting
        cases hconnecting
      · rw [hr] at hretired
        cases hretired
    have hone : l.resolves + l.pConnector.toNat + 1 = 1 := by
      rw [attempts, hpoll] at hzero
      simp only [Option.elim_none, Nat.add_zero] at hzero
      rw [hzero]
    refine ⟨Nat.le_of_eq hone, fun _ => Or.inl hone, fun _ => Or.inl rfl, hposted, fun hr => ?_,
      fun hr => ?_, fun hr => ?_, fun hr => ?_⟩
    · cases hr
    · exact absurd (hr.symm.trans hretired) (by decide)
    · exact absurd (hr.symm.trans hretired) (by decide)
    · exact absurd (hr.symm.trans hretired) (by decide)

theorem retireNext (h : l.Wf pending) {t t' : PollTask} (hpoll : l.poll = some t)
    (ht : t.retiring = true) (ht' : t'.retiring = true) (hconnector : l'.pConnector = false)
    (heq : l' = { l with
      iSessionId := l'.iSessionId, pConnector := l'.pConnector, poll := some t' }) :
    l'.Wf pending := by
  have hretired := h.retire (by rw [retiring, hpoll]; exact ht)
  have hzero : ∀ {u : PollTask}, u.retiring = true → u.attempts = 0 ∧ u.quiet = true := by
    intro u hu
    cases u <;> first | exact ⟨rfl, rfl⟩ | cases hu
  have hle : l'.attempts ≤ l.attempts := by
    rw [heq, attempts, attempts, hpoll, hconnector]
    simp only [Option.elim_some, (hzero ht).1, (hzero ht').1, Bool.toNat_false]
    omega
  have hbusy' : l'.retiring = true := by
    rw [heq]
    exact ht'
  have hretired' : l'.bRetired = true := by
    rw [heq]
    exact hretired
  refine ⟨hle.trans h.once, fun _ => Or.inr hbusy', fun _ => Or.inr hretired', ?_, fun _ => hretired',
    fun _ u hu => ?_, fun _ _ => hconnector, fun _ hr => ?_⟩
  · rw [heq]
    exact h.posted
  · rw [heq] at hu
    obtain rfl := Option.some.inj hu
    exact (hzero ht').2
  · rw [hbusy'] at hr
    cases hr

theorem retired (h : l.Wf pending) (hpoll : l.poll = none) :
    ({ l with bRetired := true }.next (.retire l.iSessionId)).Wf pending where
  once := by
    have honce := h.once
    rw [attempts, hpoll] at honce
    exact honce
  connecting := fun _ => Or.inr rfl
  working := fun _ => Or.inr rfl
  posted := h.posted
  retire := fun _ => rfl
  quiet := fun _ t ht => by
    obtain rfl := Option.some.inj ht
    rfl
  cancelled := fun _ hc => by cases hc
  done := fun _ hr => by cases hr

theorem disconnected (h : l.Wf pending) (i : ℤ) : (l.disconnected i).Wf pending := by
  rw [Link.disconnected]
  split
  · exact ⟨h.once, h.connecting, h.working, h.posted, h.retire, h.quiet, h.cancelled,
      fun hr hb => ⟨rfl, (h.done hr hb).2⟩⟩
  · exact h

/-- `Finish` ends the attempt, or the retirement. -/
theorem finish (h : l.Wf pending) {i : ℤ} (hfinishing : l.finishing = some i) :
    (l.finish i).Wf pending := by
  have hend : l.poll = some (.finish i) ∨ (l.poll = some .retired ∧ i = invalidSid) := by
    rw [finishing] at hfinishing
    split at hfinishing
    · rename_i hpoll
      obtain rfl := Option.some.inj hfinishing
      exact Or.inl hpoll
    · rename_i hpoll
      exact Or.inr ⟨hpoll, (Option.some.inj hfinishing).symm⟩
    · cases hfinishing
  have honce := h.once
  have hinvalid : l.bRetired = true → i = invalidSid := by
    intro hr
    rcases hend with hpoll | ⟨-, rfl⟩
    · simpa [PollTask.quiet] using h.quiet hr _ hpoll
    · rfl
  have hconnector : l.bRetired = true → l.pConnector = false := by
    intro hr
    refine h.cancelled hr ?_
    rcases hend with hpoll | ⟨hpoll, -⟩ <;> rw [hpoll] <;> rfl
  have hattempts : (l.finish i).attempts = l.resolves + l.pConnector.toNat := rfl
  refine ⟨?_, fun hc => ?_, fun hpos => ?_, h.posted, fun hr => ?_, fun _ t ht => ?_,
    fun hr _ => hconnector hr, fun hr _ => ⟨hinvalid hr, rfl⟩⟩
  · rw [hattempts]
    rw [attempts] at honce
    omega
  · cases hc
  · -- only a resolve that a retirement has left behind goes on
    rcases hend with hpoll | ⟨hpoll, -⟩
    · rw [attempts, hpoll] at honce
      rw [hattempts] at hpos
      simp only [Option.elim_some, PollTask.attempts] at honce
      omega
    · exact Or.inr (h.retire (by rw [retiring, hpoll]; rfl))
  · cases hr
  · cases ht

end Wf

/-- What a step of the poll thread can do. -/
inductive Moves (l : Link) : Link → Prop where
  | begin (hpoll : l.poll = none) (hbegins : 0 < l.begins) : Moves l l.begin
  /-- From one part of an attempt to the next; only `OnResolved` comes back to a retired
  connection. -/
  | next (t t' : PollTask) (hpoll : l.poll = some t) (ht : t.attempts = 1) (ht' : t'.attempts = 1)
      (hquiet : l.bRetired = true → t.quiet = true → t'.quiet = true) : Moves l (l.next t')
  | resolving (hpoll : l.poll = some .begin) :
      Moves l { l with poll := none, resolves := l.resolves + 1 }
  | onResolved (bOk : Bool) (hpoll : l.poll = none) (hresolves : 0 < l.resolves) :
      Moves l ({ l with resolves := l.resolves - 1 }.next (.onResolved bOk))
  | connecting (hpoll : l.poll = some .connect) : Moves l { l with poll := none, pConnector := true }
  | dataOut (t : PollTask) (hpoll : l.poll = none) (hconnector : l.pConnector = true)
      (ht : t.attempts = 1) : Moves l ({ l with pConnector := false }.next t)
  | retire (hpoll : l.poll = none) :
      Moves l ({ l with bRetired := true }.next (.retire l.iSessionId))
  /-- A step of `Retire` after its lock. -/
  | retiring (t t' : PollTask) (iSessionId : ℤ) (pConnector : Bool) (hpoll : l.poll = some t)
      (ht : t.retiring = true) (ht' : t'.retiring = true)
      (hsession : iSessionId = l.iSessionId ∨ iSessionId = invalidSid)
      (hconnector : pConnector = false ∨ (t.cancels = false ∧ pConnector = l.pConnector)) :
      Moves l { l with iSessionId := iSessionId, pConnector := pConnector, poll := some t' }

variable {l l' : Link}

theorem pollStep_moves {cfg : Config} {inMap : ℤ → Bool} {iNewId : ℤ} {stStep : PollStep}
    (hstep : l.pollStep cfg inMap iNewId stStep = some l') : Moves l l' := by
  cases stStep with
  | begin =>
    obtain ⟨hready, rfl⟩ := of_guard hstep
    exact .begin hready.1 hready.2
  | resolve outcome =>
    rw [pollStep.eq_def] at hstep
    dsimp only at hstep
    split at hstep
    · cases hstep
    rename_i hpoll
    rw [not_not] at hpoll
    split at hstep
    · obtain rfl := Option.some.inj hstep
      exact .next _ _ hpoll rfl rfl fun _ _ => rfl
    · cases outcome with
      | ok | failed =>
        obtain rfl := Option.some.inj hstep
        exact .next _ _ hpoll rfl rfl fun _ _ => rfl
      | pending =>
        obtain rfl := Option.some.inj hstep
        exact .resolving hpoll
  | onResolved bOk =>
    obtain ⟨hready, rfl⟩ := of_guard hstep
    exact .onResolved bOk hready.1 hready.2
  | checkRetired =>
    rw [pollStep] at hstep
    split at hstep
    · rename_i bOk hpoll
      split at hstep
      · obtain rfl := Option.some.inj hstep
        exact .next _ _ hpoll rfl rfl fun _ _ => rfl
      · rename_i hcheck
        obtain rfl := Option.some.inj hstep
        exact .next _ _ hpoll rfl rfl fun hr => absurd (by rw [hr, Bool.or_true]) hcheck
    · cases hstep
  | connect outcome =>
    rw [pollStep.eq_def] at hstep
    dsimp only at hstep
    split at hstep
    · cases hstep
    rename_i hpoll
    rw [not_not] at hpoll
    cases outcome with
    | ok | failed =>
      obtain rfl := Option.some.inj hstep
      exact .next _ _ hpoll rfl rfl fun _ hq => by cases hq
    | pending =>
      obtain rfl := Option.some.inj hstep
      exact .connecting hpoll
  | dataOut bOk =>
    obtain ⟨hready, rfl⟩ := of_guard hstep
    refine .dataOut _ hready.1 hready.2 ?_
    split <;> rfl
  | adopt bOk =>
    rw [pollStep] at hstep
    split at hstep
    · cases hstep
    rename_i hpoll
    rw [not_not] at hpoll
    obtain rfl := Option.some.inj hstep
    exact .next _ _ hpoll rfl rfl fun _ hq => by cases hq
  | retire =>
    obtain ⟨hpoll, rfl⟩ := of_guard hstep
    exact .retire hpoll
  | cancel =>
    rw [pollStep] at hstep
    split at hstep
    · rename_i i hpoll
      obtain rfl := Option.some.inj hstep
      exact .retiring _ _ l.iSessionId false hpoll rfl rfl (Or.inl rfl) (Or.inl rfl)
    · cases hstep
  | closeSession =>
    rw [pollStep] at hstep
    split at hstep
    · rename_i i hpoll
      obtain rfl := Option.some.inj hstep
      refine .retiring _ _ l.iSessionId l.pConnector hpoll rfl ?_ (Or.inl rfl)
        (Or.inr ⟨rfl, rfl⟩)
      split <;> rfl
    · cases hstep
  | activeClose =>
    rw [pollStep] at hstep
    split at hstep
    · rename_i i hpoll
      obtain rfl := Option.some.inj hstep
      rw [Link.disconnected]
      split
      · exact .retiring _ .retired _ l.pConnector hpoll rfl rfl (Or.inr rfl) (Or.inr ⟨rfl, rfl⟩)
      · exact .retiring _ .retired _ l.pConnector hpoll rfl rfl (Or.inl rfl) (Or.inr ⟨rfl, rfl⟩)
    · cases hstep

/-- A step of the poll thread keeps the invariant. -/
theorem Wf.moves {pending : ℕ} (h : l.Wf pending) (hmoves : Moves l l') : l'.Wf pending := by
  have honce := h.once
  cases hmoves with
  | begin hpoll hbegins => exact h.begin hpoll hbegins
  | next t t' hpoll ht ht' hquiet =>
    exact h.next hpoll ht ht' fun hr => hquiet hr (h.quiet hr _ hpoll)
  | resolving hpoll =>
    have hactive : l.bRetired ≠ true := fun hr => by cases h.quiet hr _ hpoll
    refine h.work ?_ ⟨rfl, rfl, rfl⟩ rfl rfl (by rw [retiring, hpoll]; rfl) rfl
      fun hr => absurd hr hactive
    simp only [attempts, hpoll, Option.elim_some, Option.elim_none, PollTask.attempts]
    omega
  | onResolved bOk hpoll hresolves =>
    have hbusy : l.retiring = false := by rw [retiring, hpoll]; rfl
    refine h.work ?_ ⟨rfl, rfl, rfl⟩ rfl rfl hbusy rfl fun hr =>
      ⟨fun t ht => ?_, h.connector hbusy hr⟩
    · simp only [attempts, Link.next, hpoll, Option.elim_some, Option.elim_none,
        PollTask.attempts]
      omega
    · obtain rfl := Option.some.inj ht
      rfl
  | connecting hpoll =>
    have hactive : l.bRetired ≠ true := fun hr => by cases h.quiet hr _ hpoll
    refine h.work ?_ ⟨rfl, rfl, rfl⟩ rfl rfl (by rw [retiring, hpoll]; rfl) rfl
      fun hr => absurd hr hactive
    -- the poll thread was at an attempt, so there was no connector
    simp only [attempts, hpoll, Option.elim_some, Option.elim_none, PollTask.attempts,
      Bool.toNat_true] at honce ⊢
    omega
  | dataOut t hpoll hconnector ht =>
    have hbusy : l.retiring = false := by rw [retiring, hpoll]; rfl
    have hactive : l.bRetired ≠ true := fun hr => by
      have hnone := h.connector hbusy hr
      rw [hconnector] at hnone
      cases hnone
    refine h.work ?_ ⟨rfl, rfl, rfl⟩ rfl rfl hbusy (retiring_eq_false ht) fun hr =>
      absurd hr hactive
    simp only [attempts, Link.next, hpoll, hconnector, Option.elim_some, Option.elim_none, ht,
      Bool.toNat_true, Bool.toNat_false]
  | retire hpoll => exact h.retired hpoll
  | retiring t t' i c hpoll ht ht' _ hconnector =>
    refine h.retireNext hpoll ht ht' ?_ rfl
    rcases hconnector with rfl | ⟨hcancels, rfl⟩
    · rfl
    · refine h.cancelled (h.retire (by rw [Link.retiring, hpoll]; exact ht)) ?_
      rw [hpoll]
      exact hcancels

/-- Apart from `Begin`, a step of the poll thread keeps the flags of waiting calls, and does not
leave `Retire`. -/
theorem Moves.frame (hmoves : Moves l l') :
    (l.poll = none ∧ l' = l.begin) ∨
      (l'.bPosted = l.bPosted ∧ l'.bConnecting = l.bConnecting ∧
        (l'.iSessionId = l.iSessionId ∨ l'.iSessionId = invalidSid) ∧
        (l'.bRetired = l.bRetired ∨ l'.retiring = true) ∧
        (l.retiring = true → l'.retiring = true)) := by
  have hidle : l.poll = none → l.retiring = true → l'.retiring = true := by
    intro hpoll hr
    rw [Link.retiring, hpoll] at hr
    cases hr
  have hworks : ∀ {t : PollTask}, l.poll = some t → t.attempts = 1 → l.retiring = true →
      l'.retiring = true := by
    intro t hpoll ht hr
    rw [Link.retiring, hpoll] at hr
    exact absurd hr (by simpa using retiring_eq_false ht)
  cases hmoves with
  | begin hpoll => exact Or.inl ⟨hpoll, rfl⟩
  | next t t' hpoll ht => exact Or.inr ⟨rfl, rfl, Or.inl rfl, Or.inl rfl, hworks hpoll ht⟩
  | resolving hpoll => exact Or.inr ⟨rfl, rfl, Or.inl rfl, Or.inl rfl, hworks hpoll rfl⟩
  | onResolved _ hpoll => exact Or.inr ⟨rfl, rfl, Or.inl rfl, Or.inl rfl, hidle hpoll⟩
  | connecting hpoll => exact Or.inr ⟨rfl, rfl, Or.inl rfl, Or.inl rfl, hworks hpoll rfl⟩
  | dataOut _ hpoll => exact Or.inr ⟨rfl, rfl, Or.inl rfl, Or.inl rfl, hidle hpoll⟩
  | retire => exact Or.inr ⟨rfl, rfl, Or.inl rfl, Or.inr rfl, fun _ => rfl⟩
  | retiring t t' i c _ _ ht' hsession =>
    exact Or.inr ⟨rfl, rfl, hsession, Or.inl rfl, fun _ => ht'⟩

end Link

/-! ## What a step can do -/

variable {s s' : State}

theorem claimRpcSend_some {iCallId : ℕ} {iSessionId : ℤ}
    (hclaim : s.claimRpcSend iCallId iSessionId = some s') :
    s.calls iCallId ≠ none ∧
      s' = { s with
        calls := Function.update s.calls iCallId (some ⟨false, iSessionId⟩)
        claimed := (iCallId, iSessionId) :: s.claimed } := by
  obtain ⟨calls, hcalls, rfl⟩ := Option.map_eq_some_iff.1 hclaim
  obtain ⟨stSlot, hslot, rfl⟩ := Option.map_eq_some_iff.1 hcalls
  exact ⟨by rw [hslot]; exact Option.some_ne_none _, rfl⟩

theorem claimRpcSend_none {iCallId : ℕ} {iSessionId : ℤ}
    (hclaim : s.claimRpcSend iCallId iSessionId = none) : s.calls iCallId = none :=
  Option.map_eq_none_iff.1 (Option.map_eq_none_iff.1 hclaim)

/-- A send either hands the call over, or gives the code of an error and does nothing. -/
theorem sendCall_cases (s : State) (c : HeldCall) (sid : ℤ) :
    ((s.sendCall c sid).1 = oiOk ∧ ∃ sessions, (s.sendCall c sid).2 =
      { s with sessions := sessions, handed := s.handed ++ [(c.callId, sid)] }) ∨
      ((s.sendCall c sid).1 ≠ oiOk ∧ (s.sendCall c sid).2 = s) := by
  simp only [State.sendCall]
  split
  · rename_i hok
    exact Or.inl ⟨hok, _, rfl⟩
  · rename_i hbad
    exact Or.inr ⟨hbad, rfl⟩

/-- The call has been given to `Submit`. -/
def State.given (s : State) (iCallId : ℕ) : State :=
  { s with submitted := iCallId :: s.submitted }

/-- What one step can do. -/
inductive Moves (cfg : Config) : Event → State → State → Prop where
  | bind (s : State) : Moves cfg .bindRpcCall s
      { s with
        bound := s.bound + 1
        calls := Function.update s.calls s.bound (some ⟨false, invalidSid⟩) }
  | refused (s : State) (c : HeldCall) (iCode : ℤ) (hbound : c.callId < s.bound)
      (hnew : c.callId ∉ s.submitted) (hcode : iCode ≠ oiOk) :
      Moves cfg (.submit c) s ((s.given c.callId).spawn (.wake c.callId iCode))
  | missed (s : State) (c : HeldCall) (hbound : c.callId < s.bound) (hnew : c.callId ∉ s.submitted)
      (hslot : s.calls c.callId = none) : Moves cfg (.submit c) s (s.given c.callId)
  | claimed (s : State) (c : HeldCall) (hbound : c.callId < s.bound) (hnew : c.callId ∉ s.submitted)
      (hslot : s.calls c.callId ≠ none) :
      Moves cfg (.submit c) s
        ({ s.given c.callId with
          calls := Function.update s.calls c.callId (some ⟨false, s.link.iSessionId⟩)
          claimed := (c.callId, s.link.iSessionId) :: s.claimed }.spawn
            (.submit c s.link.iSessionId))
  | held (s : State) (c : HeldCall) (stSlot : CallSlot) (hbound : c.callId < s.bound)
      (hnew : c.callId ∉ s.submitted) (hslot : s.calls c.callId = some stSlot)
      (hactive : s.link.bRetired = false) (hnone : s.link.iSessionId = invalidSid)
      (hroom : s.hold.full cfg.iHeldCount cfg.iHeldBytes c.size = false) :
      Moves cfg (.submit c) s
        ({ s.given c.callId with
          calls := Function.update s.calls c.callId (some { stSlot with bAwaitingConnect := true })
          hold := s.hold.push c }.spawn .ensure)
  | takeSlot (s : State) (i : ℕ) : Moves cfg (.takeSlot i) s (s.takeSlot i)
  | sessions (e : Event) (s : State) (sessions : ℤ → SessionState) (n : ℕ) :
      Moves cfg e s { s with sessions := sessions, iCurrentSessionId := n }
  | disconnected (s : State) (sid : ℤ) :
      Moves cfg (.disconnected sid) s { s with link := s.link.disconnected sid }
  | poll (s : State) (stStep : PollStep) (l : Link) (inMap : ℤ → Bool) (iNewId : ℤ)
      (sessions : ℤ → SessionState) (n : ℕ) (hpoll : s.link.pollStep cfg inMap iNewId stStep = some l) :
      Moves cfg (.poll stStep) s { s with link := l, sessions := sessions, iCurrentSessionId := n }
  | finish (s : State) (sid : ℤ) (hfinishing : s.link.finishing = some sid) :
      Moves cfg .finish s (s.finish sid)
  | sent (s : State) (c : HeldCall) (sid : ℤ) (sessions : ℤ → SessionState) :
      Moves cfg (.run (.submit c sid)) (s.spawn (.submit c sid))
        { s with sessions := sessions, handed := s.handed ++ [(c.callId, sid)] }
  | sendFailed (s : State) (c : HeldCall) (sid iCode : ℤ) (hcode : iCode ≠ oiOk) :
      Moves cfg (.run (.submit c sid)) (s.spawn (.submit c sid)) (s.spawn (.wake c.callId iCode))
  | ensured (s : State) (hbusy : s.link.bRetired = true ∨ s.link.bConnecting = true ∨
        s.link.bPosted = true ∨ s.link.iSessionId ≠ invalidSid) :
      Moves cfg (.run .ensure) (s.spawn .ensure) s
  | posted (s : State) (hnot : s.link.bPosted = false) :
      Moves cfg (.run .ensure) (s.spawn .ensure)
        ({ s with link := { s.link with bPosted := true } }.spawn .callOnLoop)
  | called (s : State) :
      Moves cfg (.run .callOnLoop) (s.spawn .callOnLoop)
        { s with link := { s.link with begins := s.link.begins + 1 } }
  | wake (s : State) (i : ℕ) (iCode : ℤ) :
      Moves cfg (.run (.wake i iCode)) (s.spawn (.wake i iCode)) (s.wakeRpcCall i iCode)
  | finished (s : State) (i : ℕ) :
      Moves cfg (.run (.finishSlot i false)) (s.spawn (.finishSlot i false)) s
  | dropped (s : State) (i : ℕ) (hold : HoldList) (hdrop : s.hold.drop i = some hold) :
      Moves cfg (.run (.finishSlot i true)) (s.spawn (.finishSlot i true)) { s with hold := hold }
  | flushDone (s : State) (sid : ℤ) :
      Moves cfg (.run (.flush sid [])) (s.spawn (.flush sid [])) s
  | flushWoken (s : State) (sid : ℤ) (c : HeldCall) (v : List HeldCall) :
      Moves cfg (.run (.flush sid (c :: v))) (s.spawn (.flush sid (c :: v)))
        ((s.spawn (.flush sid v)).wakeRpcCall c.callId oiErrConnect)
  | flushMissed (s : State) (sid : ℤ) (c : HeldCall) (v : List HeldCall)
      (hslot : s.calls c.callId = none) :
      Moves cfg (.run (.flush sid (c :: v))) (s.spawn (.flush sid (c :: v)))
        (s.spawn (.flush sid v))
  | flushClaimed (s : State) (sid : ℤ) (c : HeldCall) (v : List HeldCall)
      (hslot : s.calls c.callId ≠ none) :
      Moves cfg (.run (.flush sid (c :: v))) (s.spawn (.flush sid (c :: v)))
        ({ s with
          calls := Function.update s.calls c.callId (some ⟨false, sid⟩)
          claimed := (c.callId, sid) :: s.claimed }.spawn (.flushSend sid c v))
  | flushSent (s : State) (sid : ℤ) (c : HeldCall) (v : List HeldCall)
      (sessions : ℤ → SessionState) :
      Moves cfg (.run (.flushSend sid c v)) (s.spawn (.flushSend sid c v))
        ({ s with sessions := sessions, handed := s.handed ++ [(c.callId, sid)] }.spawn
          (.flush sid v))
  | flushFailed (s : State) (sid iCode : ℤ) (c : HeldCall) (v : List HeldCall)
      (hcode : iCode ≠ oiOk) :
      Moves cfg (.run (.flushSend sid c v)) (s.spawn (.flushSend sid c v))
        ((s.spawn (.wake c.callId iCode)).spawn (.flush sid v))

theorem runTask_moves (cfg : Config) {t : Task} (hrun : runTask s t = some s') :
    Moves cfg (.run t) (s.spawn t) s' := by
  cases t with
  | submit c sid =>
    rw [runTask] at hrun
    rcases sendCall_cases s c sid with ⟨hok, sessions, heq⟩ | ⟨hbad, heq⟩
    · simp only [hok, if_true, heq] at hrun
      obtain rfl := Option.some.inj hrun
      exact .sent s c sid sessions
    · simp only [if_neg hbad, heq] at hrun
      obtain rfl := Option.some.inj hrun
      exact .sendFailed s c sid _ hbad
  | ensure =>
    obtain rfl := Option.some.inj hrun
    rw [State.ensure]
    split
    · rename_i hbusy
      refine .ensured s ?_
      simpa [Bool.or_eq_true, or_assoc] using hbusy
    · rename_i hfree
      refine .posted s ?_
      simp only [Bool.or_eq_true, not_or, Bool.not_eq_true] at hfree
      exact hfree.1.2
  | callOnLoop =>
    obtain rfl := Option.some.inj hrun
    exact .called s
  | wake i iCode =>
    obtain rfl := Option.some.inj hrun
    exact .wake s i iCode
  | finishSlot i bAwaitingConnect =>
    cases bAwaitingConnect with
    | false =>
      obtain rfl := Option.some.inj hrun
      exact .finished s i
    | true =>
      rw [runTask] at hrun
      obtain ⟨hold, hdrop, rfl⟩ := Option.map_eq_some_iff.1 hrun
      exact .dropped s i hold hdrop
  | flush sid vReady =>
    cases vReady with
    | nil =>
      obtain rfl := Option.some.inj hrun
      exact .flushDone s sid
    | cons c v =>
      rw [runTask] at hrun
      split at hrun
      · obtain rfl := Option.some.inj hrun
        exact .flushWoken s sid c v
      · cases hclaim : s.claimRpcSend c.callId sid with
        | none =>
          simp only [hclaim] at hrun
          obtain rfl := Option.some.inj hrun
          exact .flushMissed s sid c v (claimRpcSend_none hclaim)
        | some s₁ =>
          simp only [hclaim] at hrun
          obtain rfl := Option.some.inj hrun
          obtain ⟨hslot, rfl⟩ := claimRpcSend_some hclaim
          exact .flushClaimed s sid c v hslot
  | flushSend sid c v =>
    rw [runTask] at hrun
    rcases sendCall_cases s c sid with ⟨hok, sessions, heq⟩ | ⟨hbad, heq⟩
    · simp only [hok, if_true, heq] at hrun
      obtain rfl := Option.some.inj hrun
      exact .flushSent s sid c v sessions
    · simp only [if_neg hbad, heq] at hrun
      obtain rfl := Option.some.inj hrun
      exact .flushFailed s sid _ c v hbad

theorem submit_moves {cfg : Config} {c : HeldCall} (hbound : c.callId < s.bound)
    (hnew : c.callId ∉ s.submitted) : Moves cfg (.submit c) s (s.submit cfg c) := by
  simp only [State.submit]
  split
  · exact .refused s c _ hbound hnew (by decide)
  rename_i hactive
  split
  · cases hclaim : (s.given c.callId).claimRpcSend c.callId s.link.iSessionId with
    | none =>
      have hslot := claimRpcSend_none hclaim
      rw [State.given] at hclaim
      simp only [hclaim]
      exact .missed s c hbound hnew hslot
    | some s₁ =>
      obtain ⟨hslot, heq⟩ := claimRpcSend_some hclaim
      rw [State.given] at hclaim
      simp only [hclaim, heq]
      exact .claimed s c hbound hnew hslot
  rename_i hnone
  split
  · exact .refused s c _ hbound hnew (by decide)
  rename_i hroom
  cases hslot : s.calls c.callId with
  | none =>
    simp only [CallTable.mark, hslot, Option.map_none]
    exact .missed s c hbound hnew hslot
  | some stSlot =>
    simp only [CallTable.mark, hslot, Option.map_some]
    exact .held s c stSlot hbound hnew hslot (by simpa using hactive) (by simpa using hnone)
      (by simpa using hroom)

theorem withSessions_eq (cfg : Config) (s : State) (stStep : PollStep) :
    ∃ sessions n, s.withSessions cfg stStep =
      { s with sessions := sessions, iCurrentSessionId := n } := by
  cases stStep with
  | adopt bOk => exact ⟨_, _, rfl⟩
  | closeSession | activeClose =>
    rw [State.withSessions]
    split <;> exact ⟨_, _, rfl⟩
  | _ => exact ⟨_, _, rfl⟩

/-- **What a step can do.** The task of a step that runs one is taken to stand first. -/
theorem step_moves {cfg : Config} {e : Event} (hstep : step cfg s e = some s') :
    ∃ tasks, tasks.Perm s.tasks ∧ Moves cfg e { s with tasks := tasks } s' := by
  cases e with
  | run t =>
    obtain ⟨hmem, hstep⟩ := Option.ite_none_right_eq_some.1 hstep
    exact ⟨t :: s.tasks.erase t, (List.perm_cons_erase hmem).symm, runTask_moves cfg hstep⟩
  | bindRpcCall =>
    obtain rfl := Option.some.inj hstep
    exact ⟨s.tasks, .refl _, .bind s⟩
  | submit c =>
    obtain ⟨hcan, rfl⟩ := of_guard hstep
    exact ⟨s.tasks, .refl _, submit_moves hcan.1 hcan.2⟩
  | takeSlot i =>
    obtain rfl := Option.some.inj hstep
    exact ⟨s.tasks, .refl _, .takeSlot s i⟩
  | disconnected sid =>
    obtain rfl := Option.some.inj hstep
    exact ⟨s.tasks, .refl _, .disconnected s sid⟩
  | addSession | closeSession sid | onBytesSent sid n =>
    obtain rfl := Option.some.inj hstep
    exact ⟨s.tasks, .refl _, .sessions _ s _ _⟩
  | poll stStep =>
    obtain ⟨l, hpoll, rfl⟩ := Option.map_eq_some_iff.1 hstep
    obtain ⟨sessions, n, heq⟩ := withSessions_eq cfg s stStep
    refine ⟨s.tasks, .refl _, ?_⟩
    rw [heq]
    exact .poll s stStep l _ _ sessions n hpoll
  | finish =>
    obtain ⟨sid, hfinishing, rfl⟩ := Option.map_eq_some_iff.1 hstep
    exact ⟨s.tasks, .refl _, .finish s sid hfinishing⟩

end OpenIdea.Rpc.RouteConnection
