import Mathlib.Algebra.Order.Ring.Int
import OpenIdea.Lib.OrdMap
import OpenIdea.Lib.Runs

/-!
# The pool of routed connections (oi_rpc_route.cpp)

`RoutePool` keeps one `RouteConnection` for each address and policy. A business reference to a
connection is a lease: `pLease` is a weak pointer, so whether a lease exists is the use count of the
shared pointer behind it. `ClientFor` and the inbound handlers (`RouteSession::HoldTask`) take
leases, their holders copy and drop them on any thread, and `SweepRoutePool` evicts the entries that
it has found idle for `iIdleMilliseconds`.

`ClientFor` is one step: what it reads and writes is guarded by the pool lock, and a connection's
lease count only grows in it. A sweep is several: it reads the clock, takes the pool lock, visits
one entry after the other, releases the lock and retires what it took out. It runs on the poll
thread, as `HoldTask` does; every other step may fall between two of its steps. No leased connection
is evicted, and where the sweep notices each release of a last lease, what it evicts has been idle
for long enough (`evicts_only_idle`); a use that it does not notice is in `evicts_after_request`.
-/

set_option autoImplicit false

namespace OpenIdea.Rpc.RoutePool

open OpenIdea.Lib OpenIdea.Lib.Runs

/-- **The configuration of the pool.** Its constructor throws on other values. -/
structure Config where
  iMaxClients : ℕ
  iIdleMilliseconds : ℤ
  max_pos : 0 < iMaxClients
  idle_pos : 0 < iIdleMilliseconds

/-- `RoutePool::Entry`. The connections are numbered in the order of their construction. -/
structure Entry where
  pClient : ℕ
  iIdleSinceMilliseconds : ℤ
  deriving DecidableEq, Repr

/-- Where the sweep is. -/
inductive Sweep (K : Type) where
  | idle
  /-- It has read `iNow` and waits for the pool lock. -/
  | clockRead (bStop : Bool) (iNow : ℤ)
  /-- It holds the pool lock; `rest` is what its iterator has still to come to. -/
  | scanning (bStop : Bool) (iNow : ℤ) (rest : List K) (vRetired : List ℕ)
  /-- It has released the pool lock and retires the connections one by one. -/
  | retiring (vRetired : List ℕ)

/-- The pool, the use counts of the leases and the clock. -/
structure State (K : Type) where
  mClients : List (K × Entry)
  iEvicted : ℕ
  bStopped : Bool
  /-- The number of connections constructed so far. -/
  created : ℕ
  /-- The use count behind the `pLease` of each connection. -/
  leases : ℕ → ℕ
  sweep : Sweep K
  now : ℤ

def init (K : Type) (now : ℤ) : State K where
  mClients := []
  iEvicted := 0
  bStopped := false
  created := 0
  leases := fun _ => 0
  sweep := .idle
  now := now

variable {K : Type}

/-- `RouteConnection::HasLease`. -/
def State.hasLease (s : State K) (c : ℕ) : Bool := s.leases c != 0

/-- `RouteConnection::AcquireLease`: the current lease is shared, and one is made where there is
none. -/
def State.acquireLease (s : State K) (c : ℕ) : State K :=
  { s with leases := Function.update s.leases c (s.leases c + 1) }

/-- One shared pointer to the lease is dropped. -/
def State.releaseLease (s : State K) (c : ℕ) : State K :=
  { s with leases := Function.update s.leases c (s.leases c - 1) }

variable [LinearOrder K]

/-- `ClientFor`. Nothing changes where it returns no lease. -/
def clientFor (cfg : Config) (s : State K) (stKey : K) (stopRequested : Bool) : State K :=
  if s.bStopped || stopRequested then s
  else
    match OrdMap.find s.mClients stKey with
    | some stEntry =>
        { s.acquireLease stEntry.pClient with
          mClients := OrdMap.put s.mClients stKey { stEntry with iIdleSinceMilliseconds := 0 } }
    | none =>
        if s.mClients.length ≥ cfg.iMaxClients then s
        else
          { s.acquireLease s.created with
            created := s.created + 1
            mClients := OrdMap.put s.mClients stKey ⟨s.created, 0⟩ }

/-- What a sweep makes of one entry; `none` is an eviction. -/
def sweepEntry (cfg : Config) (bStop : Bool) (iNow : ℤ) (hasLease : Bool) (stEntry : Entry) :
    Option Entry :=
  if !bStop && hasLease then some { stEntry with iIdleSinceMilliseconds := 0 }
  else
    let since := if stEntry.iIdleSinceMilliseconds = 0 then iNow
      else stEntry.iIdleSinceMilliseconds
    if !bStop && decide (iNow - since < cfg.iIdleMilliseconds) then
      some { stEntry with iIdleSinceMilliseconds := since }
    else none

/-- One round of the sweep's loop. -/
def sweepVisit (cfg : Config) (s : State K) (bStop : Bool) (iNow : ℤ) (k : K) (rest : List K)
    (vRetired : List ℕ) : State K :=
  match OrdMap.find s.mClients k with
  | none => { s with sweep := .scanning bStop iNow rest vRetired }
  | some stEntry =>
      match sweepEntry cfg bStop iNow (s.hasLease stEntry.pClient) stEntry with
      | some stEntry' =>
          { s with
            mClients := OrdMap.put s.mClients k stEntry'
            sweep := .scanning bStop iNow rest vRetired }
      | none =>
          { s with
            mClients := OrdMap.erase s.mClients k
            iEvicted := s.iEvicted + 1
            sweep := .scanning bStop iNow rest (vRetired ++ [stEntry.pClient]) }

/-- What can happen to the pool. -/
inductive Event (K : Type) where
  | clientFor (stKey : K) (stopRequested : Bool)
  /-- A holder copies its lease. -/
  | share (c : ℕ)
  /-- A holder drops its lease. -/
  | release (c : ℕ)
  /-- A request arrives on a session of the connection: `RouteSession::HoldTask`. -/
  | holdTask (c : ℕ)
  | sweepRoutePool (bStop : Bool)
  | sweepLock
  | sweepNext
  | tick (d : ℕ)
  deriving DecidableEq

/-- One step; `none` where the event cannot happen. -/
def step (cfg : Config) (s : State K) : Event K → Option (State K)
  | .clientFor stKey stopRequested =>
      match s.sweep with
      -- the sweep holds the pool lock
      | .scanning .. => none
      | _ => some (clientFor cfg s stKey stopRequested)
  | .share c => if s.leases c = 0 then none else some (s.acquireLease c)
  | .release c => if s.leases c = 0 then none else some (s.releaseLease c)
  | .holdTask c =>
      match s.sweep with
      | .idle => if c < s.created then some (s.acquireLease c) else none
      -- the poll thread is in the sweep
      | _ => none
  | .sweepRoutePool bStop =>
      match s.sweep with
      | .idle => some { s with sweep := .clockRead bStop s.now }
      | _ => none
  | .sweepLock =>
      match s.sweep with
      | .clockRead bStop iNow =>
          some { s with
            bStopped := s.bStopped || bStop
            sweep := .scanning bStop iNow (s.mClients.map Prod.fst) [] }
      | _ => none
  | .sweepNext =>
      match s.sweep with
      | .scanning bStop iNow (k :: rest) vRetired =>
          some (sweepVisit cfg s bStop iNow k rest vRetired)
      | .scanning _ _ [] vRetired => some { s with sweep := .retiring vRetired }
      -- `Retire` works on the connection, which the pool no longer knows
      | .retiring (_ :: vRetired) => some { s with sweep := .retiring vRetired }
      | .retiring [] => some { s with sweep := .idle }
      | _ => none
  | .tick d => some { s with now := s.now + d }

/-- The connection has an entry in the pool. -/
def Pooled (s : State K) (c : ℕ) : Prop := ∃ p ∈ s.mClients, p.2.pClient = c

/-- The step takes the connection out of the pool. -/
def Evicts (s s' : State K) (c : ℕ) : Prop := Pooled s c ∧ ¬ Pooled s' c

/-! ## What one step does to the entries

A step makes an entry, keeps it, clears its idle time, or stamps it with the clock of its sweep. -/

namespace Sweep

/-- The time the sweep in progress may still write to the entry under `k`. -/
def mayStamp : Sweep K → K → Option ℤ
  | .clockRead _ iNow, _ => some iNow
  | .scanning _ iNow rest _, k => if k ∈ rest then some iNow else none
  | _, _ => none

/-- The sweep in progress is the one of the idle timer, not the one that stops the pool. -/
def periodic : Sweep K → Bool
  | .clockRead bStop _ => !bStop
  | .scanning bStop _ _ _ => !bStop
  | _ => true

end Sweep

/-- How the entry under `k` comes out of a step that leaves it in the pool. -/
inductive EntryStep (s s' : State K) (k : K) (stEntry' : Entry) : Prop where
  /-- `ClientFor` constructs the connection and hands out its first lease. -/
  | made (hnew : stEntry' = ⟨s.created, 0⟩) (hcreated : s'.created = s.created + 1)
      (hlease : s'.leases s.created ≠ 0)
  | kept (hentry : OrdMap.find s.mClients k = some stEntry')
  /-- A lease has been seen. -/
  | reset (stEntry : Entry) (hentry : OrdMap.find s.mClients k = some stEntry)
      (hnew : stEntry' = { stEntry with iIdleSinceMilliseconds := 0 })
  /-- A sweep has found it without a lease for the first time. -/
  | stamped (stEntry : Entry) (iNow : ℤ) (hentry : OrdMap.find s.mClients k = some stEntry)
      (hnew : stEntry' = { stEntry with iIdleSinceMilliseconds := iNow })
      (hsweep : s.sweep.mayStamp k = some iNow)

omit [LinearOrder K] in
theorem acquireLease_ne_zero (s : State K) (c : ℕ) : (s.acquireLease c).leases c ≠ 0 := by
  show Function.update s.leases c (s.leases c + 1) c ≠ 0
  rw [Function.update_self]
  exact Nat.succ_ne_zero _

variable {cfg : Config} {k : K} {s s' : State K} {stEntry' : Entry} {e : Event K} {c : ℕ}

theorem clientFor_entry {stKey : K} {stopRequested : Bool}
    (hfind : OrdMap.find (clientFor cfg s stKey stopRequested).mClients k = some stEntry') :
    EntryStep s (clientFor cfg s stKey stopRequested) k stEntry' := by
  unfold clientFor at hfind ⊢
  by_cases hstop : (s.bStopped || stopRequested) = true
  · rw [if_pos hstop] at hfind ⊢
    exact .kept hfind
  · rw [if_neg hstop] at hfind ⊢
    cases hkey : OrdMap.find s.mClients stKey with
    | some stEntry =>
      simp only [hkey, OrdMap.find_put] at hfind ⊢
      by_cases hk : k = stKey
      · rw [if_pos hk] at hfind
        exact .reset stEntry (by rw [hk, hkey]) (Option.some.inj hfind).symm
      · rw [if_neg hk] at hfind
        exact .kept hfind
    | none =>
      simp only [hkey] at hfind ⊢
      by_cases hfull : s.mClients.length ≥ cfg.iMaxClients
      · rw [if_pos hfull] at hfind ⊢
        exact .kept hfind
      · rw [if_neg hfull] at hfind ⊢
        simp only [OrdMap.find_put] at hfind
        by_cases hk : k = stKey
        · rw [if_pos hk] at hfind
          exact .made (Option.some.inj hfind).symm rfl (acquireLease_ne_zero s s.created)
        · rw [if_neg hk] at hfind
          exact .kept hfind

variable {iNow : ℤ} {stEntry : Entry}

/-- What a sweep leaves of an entry that it does not evict. -/
theorem sweepEntry_some {bStop hasLease : Bool}
    (hkept : sweepEntry cfg bStop iNow hasLease stEntry = some stEntry') :
    stEntry' = { stEntry with iIdleSinceMilliseconds := 0 } ∨
      stEntry' = { stEntry with iIdleSinceMilliseconds := iNow } ∨ stEntry' = stEntry := by
  unfold sweepEntry at hkept
  split at hkept
  · exact Or.inl (Option.some.inj hkept).symm
  · by_cases hzero : stEntry.iIdleSinceMilliseconds = 0
    · simp only [if_pos hzero] at hkept
      obtain ⟨_, hkept⟩ := Option.ite_none_right_eq_some.1 hkept
      exact Or.inr (Or.inl (Option.some.inj hkept).symm)
    · simp only [if_neg hzero] at hkept
      obtain ⟨_, hkept⟩ := Option.ite_none_right_eq_some.1 hkept
      exact Or.inr (Or.inr (Option.some.inj hkept).symm)

/-- **What the idle timer's sweep evicts.** No lease exists, and the idle time written earlier lies
`iIdleMilliseconds` back. -/
theorem sweepEntry_none {hasLease : Bool}
    (hevict : sweepEntry cfg false iNow hasLease stEntry = none) :
    hasLease = false ∧ stEntry.iIdleSinceMilliseconds ≠ 0 ∧
      stEntry.iIdleSinceMilliseconds + cfg.iIdleMilliseconds ≤ iNow := by
  have hpos := cfg.idle_pos
  unfold sweepEntry at hevict
  cases hasLease with
  | true => simp at hevict
  | false =>
    refine ⟨rfl, ?_⟩
    by_cases hzero : stEntry.iIdleSinceMilliseconds = 0
    · -- the time is written in this very round
      simp [hzero, hpos] at hevict
    · refine ⟨hzero, ?_⟩
      simp [hzero] at hevict
      omega

theorem sweepVisit_entry {bStop : Bool} {k₀ : K} {rest : List K} {vRetired : List ℕ}
    (hsorted : OrdMap.Sorted s.mClients)
    (hsweep : s.sweep = .scanning bStop iNow (k₀ :: rest) vRetired)
    (hfind : OrdMap.find (sweepVisit cfg s bStop iNow k₀ rest vRetired).mClients k =
      some stEntry') : EntryStep s (sweepVisit cfg s bStop iNow k₀ rest vRetired) k stEntry' := by
  have hstamp : s.sweep.mayStamp k₀ = some iNow := by
    rw [hsweep]
    exact if_pos List.mem_cons_self
  unfold sweepVisit at hfind ⊢
  cases hkey : OrdMap.find s.mClients k₀ with
  | none =>
    simp only [hkey] at hfind ⊢
    exact .kept hfind
  | some stEntry =>
    simp only [hkey] at hfind ⊢
    cases hvisit : sweepEntry cfg bStop iNow (s.hasLease stEntry.pClient) stEntry with
    | none =>
      simp only [hvisit, OrdMap.find_erase hsorted] at hfind ⊢
      by_cases hk : k = k₀
      · rw [if_pos hk] at hfind
        cases hfind
      · rw [if_neg hk] at hfind
        exact .kept hfind
    | some stEntry₁ =>
      simp only [hvisit, OrdMap.find_put] at hfind ⊢
      by_cases hk : k = k₀
      · subst hk
        rw [if_pos rfl] at hfind
        obtain rfl := Option.some.inj hfind
        rcases sweepEntry_some hvisit with h | h | h
        · exact .reset stEntry hkey h
        · exact .stamped stEntry iNow hkey h hstamp
        · exact .kept (h ▸ hkey)
      · rw [if_neg hk] at hfind
        exact .kept hfind

/-! ## What one step leaves alone -/

omit [LinearOrder K] in
theorem leases_le_acquireLease (s : State K) (c c' : ℕ) :
    s.leases c' ≤ (s.acquireLease c).leases c' := by
  show s.leases c' ≤ Function.update s.leases c (s.leases c + 1) c'
  by_cases hc : c' = c
  · rw [hc, Function.update_self]
    exact Nat.le_succ _
  · rw [Function.update_of_ne hc]

/-- `ClientFor` does not touch the sweep and the clock, and it takes no lease away. -/
theorem clientFor_frame (cfg : Config) (s : State K) (stKey : K) (stopRequested : Bool) :
    (clientFor cfg s stKey stopRequested).sweep = s.sweep ∧
      (clientFor cfg s stKey stopRequested).now = s.now ∧
      s.created ≤ (clientFor cfg s stKey stopRequested).created ∧
      ∀ c, s.leases c ≤ (clientFor cfg s stKey stopRequested).leases c := by
  unfold clientFor
  split
  · exact ⟨rfl, rfl, le_refl _, fun _ => le_refl _⟩
  · split
    · exact ⟨rfl, rfl, le_refl _, leases_le_acquireLease s _⟩
    · split
      · exact ⟨rfl, rfl, le_refl _, fun _ => le_refl _⟩
      · exact ⟨rfl, rfl, Nat.le_succ _, leases_le_acquireLease s _⟩

/-- A round of the sweep touches the entries only. -/
theorem sweepVisit_frame (cfg : Config) (s : State K) (bStop : Bool) (iNow : ℤ) (k : K)
    (rest : List K) (vRetired : List ℕ) :
    (∃ vRetired', (sweepVisit cfg s bStop iNow k rest vRetired).sweep =
        .scanning bStop iNow rest vRetired') ∧
      (sweepVisit cfg s bStop iNow k rest vRetired).now = s.now ∧
      (sweepVisit cfg s bStop iNow k rest vRetired).created = s.created ∧
      (sweepVisit cfg s bStop iNow k rest vRetired).leases = s.leases := by
  unfold sweepVisit
  split
  · exact ⟨⟨_, rfl⟩, rfl, rfl, rfl⟩
  · split
    · exact ⟨⟨_, rfl⟩, rfl, rfl, rfl⟩
    · exact ⟨⟨_, rfl⟩, rfl, rfl, rfl⟩

/-- The steps by what they change. -/
inductive Moves (cfg : Config) (s : State K) : Event K → State K → Prop where
  | clientFor (stKey : K) (stopRequested : Bool) :
      Moves cfg s (.clientFor stKey stopRequested) (clientFor cfg s stKey stopRequested)
  | acquire (e : Event K) (c : ℕ) (hmade : s.leases c ≠ 0 ∨ c < s.created) :
      Moves cfg s e (s.acquireLease c)
  | release (c : ℕ) (hheld : s.leases c ≠ 0) : Moves cfg s (.release c) (s.releaseLease c)
  | begin (bStop : Bool) :
      Moves cfg s (.sweepRoutePool bStop) { s with sweep := .clockRead bStop s.now }
  | lock (bStop : Bool) (iNow : ℤ) (hsweep : s.sweep = .clockRead bStop iNow) :
      Moves cfg s .sweepLock
        { s with
          bStopped := s.bStopped || bStop
          sweep := .scanning bStop iNow (s.mClients.map Prod.fst) [] }
  | visit (bStop : Bool) (iNow : ℤ) (k : K) (rest : List K) (vRetired : List ℕ)
      (hsweep : s.sweep = .scanning bStop iNow (k :: rest) vRetired) :
      Moves cfg s .sweepNext (sweepVisit cfg s bStop iNow k rest vRetired)
  | unlocked (sweep : Sweep K) (hidle : sweep.mayStamp = fun _ => none)
      (hperiodic : sweep.periodic = true) : Moves cfg s .sweepNext { s with sweep := sweep }
  | tick (d : ℕ) : Moves cfg s (.tick d) { s with now := s.now + d }

/-- **Each step is one of these.** -/
theorem step_moves (hstep : step cfg s e = some s') : Moves cfg s e s' := by
  cases e with
  | clientFor stKey stopRequested =>
    rw [step] at hstep
    split at hstep
    · cases hstep
    · obtain rfl := Option.some.inj hstep
      exact .clientFor stKey stopRequested
  | share c =>
    obtain ⟨hheld, rfl⟩ := of_guard_not hstep
    exact .acquire _ c (Or.inl hheld)
  | release c =>
    obtain ⟨hheld, rfl⟩ := of_guard_not hstep
    exact .release c hheld
  | holdTask c =>
    rw [step] at hstep
    split at hstep
    · obtain ⟨hmade, rfl⟩ := of_guard hstep
      exact .acquire _ c (Or.inr hmade)
    · cases hstep
  | sweepRoutePool bStop =>
    rw [step] at hstep
    split at hstep
    · obtain rfl := Option.some.inj hstep
      exact .begin bStop
    · cases hstep
  | sweepLock =>
    rw [step] at hstep
    split at hstep
    · rename_i bStop iNow hsweep
      obtain rfl := Option.some.inj hstep
      exact .lock bStop iNow hsweep
    · cases hstep
  | sweepNext =>
    rw [step] at hstep
    split at hstep
    · rename_i bStop iNow k rest vRetired hsweep
      obtain rfl := Option.some.inj hstep
      exact .visit bStop iNow k rest vRetired hsweep
    · obtain rfl := Option.some.inj hstep
      exact .unlocked _ rfl rfl
    · obtain rfl := Option.some.inj hstep
      exact .unlocked _ rfl rfl
    · obtain rfl := Option.some.inj hstep
      exact .unlocked _ rfl rfl
    · cases hstep
  | tick d =>
    obtain rfl := Option.some.inj hstep
    exact .tick d

/-- **What a step does to an entry that is in the pool after it.** -/
theorem step_entry (hsorted : OrdMap.Sorted s.mClients) (hstep : step cfg s e = some s')
    (hfind : OrdMap.find s'.mClients k = some stEntry') : EntryStep s s' k stEntry' := by
  cases step_moves hstep with
  | clientFor stKey stopRequested => exact clientFor_entry hfind
  | acquire _ c _ => exact .kept hfind
  | release c _ => exact .kept hfind
  | begin bStop => exact .kept hfind
  | lock bStop iNow _ => exact .kept hfind
  | visit bStop iNow k₀ rest vRetired hsweep => exact sweepVisit_entry hsorted hsweep hfind
  | unlocked _ _ _ => exact .kept hfind
  | tick d => exact .kept hfind

/-- The time a sweep may still write was read before the step, unless the step reads it. -/
theorem step_mayStamp {t : ℤ} (hstep : step cfg s e = some s')
    (hnext : s'.sweep.mayStamp k = some t) : s.sweep.mayStamp k = some t ∨ t = s.now := by
  cases step_moves hstep with
  | clientFor stKey stopRequested =>
    rw [(clientFor_frame cfg s stKey stopRequested).1] at hnext
    exact Or.inl hnext
  | acquire _ c _ => exact Or.inl hnext
  | release c _ => exact Or.inl hnext
  | begin bStop => exact Or.inr (Option.some.inj hnext).symm
  | lock bStop iNow hsweep =>
    left
    rw [hsweep]
    simp only [Sweep.mayStamp] at hnext ⊢
    obtain ⟨_, hnext⟩ := Option.ite_none_right_eq_some.1 hnext
    exact hnext
  | visit bStop iNow k₀ rest vRetired hsweep =>
    left
    obtain ⟨vRetired', hsweep'⟩ := (sweepVisit_frame cfg s bStop iNow k₀ rest vRetired).1
    rw [hsweep'] at hnext
    rw [hsweep]
    simp only [Sweep.mayStamp] at hnext ⊢
    obtain ⟨hrest, hnext⟩ := Option.ite_none_right_eq_some.1 hnext
    rw [if_pos (List.mem_cons_of_mem _ hrest)]
    exact hnext
  | unlocked _ hidle _ =>
    rw [hidle] at hnext
    cases hnext
  | tick d => exact Or.inl hnext

/-! ## The invariant -/

/-- **What holds of the pool in every state.** -/
structure Wf (cfg : Config) (s : State K) : Prop where
  sorted : OrdMap.Sorted s.mClients
  size : s.mClients.length ≤ cfg.iMaxClients
  made : ∀ p ∈ s.mClients, p.2.pClient < s.created
  leased : ∀ c, s.leases c ≠ 0 → c < s.created
  /-- A sweep writes no time that is still to come. -/
  clock : ∀ k t, s.sweep.mayStamp k = some t → t ≤ s.now

theorem wf_init (cfg : Config) (now : ℤ) : Wf cfg (init K now) where
  sorted := List.Pairwise.nil
  size := Nat.zero_le _
  made := fun p hp => by cases hp
  leased := fun c hc => absurd rfl hc
  clock := fun k t ht => by cases ht

theorem sweepVisit_sorted (cfg : Config) (hsorted : OrdMap.Sorted s.mClients) (bStop : Bool)
    (iNow : ℤ) (k : K) (rest : List K) (vRetired : List ℕ) :
    OrdMap.Sorted (sweepVisit cfg s bStop iNow k rest vRetired).mClients := by
  unfold sweepVisit
  split
  · exact hsorted
  · split
    · exact hsorted.put _ _
    · exact hsorted.erase _

theorem clientFor_sorted (cfg : Config) (hsorted : OrdMap.Sorted s.mClients) (stKey : K)
    (stopRequested : Bool) : OrdMap.Sorted (clientFor cfg s stKey stopRequested).mClients := by
  unfold clientFor
  split
  · exact hsorted
  · split
    · exact hsorted.put _ _
    · split
      · exact hsorted
      · exact hsorted.put _ _

/-- `ClientFor` inserts only below `iMaxClients`. -/
theorem clientFor_size (hsorted : OrdMap.Sorted s.mClients)
    (hsize : s.mClients.length ≤ cfg.iMaxClients) (stKey : K) (stopRequested : Bool) :
    (clientFor cfg s stKey stopRequested).mClients.length ≤ cfg.iMaxClients := by
  unfold clientFor
  split
  · exact hsize
  · split
    · rename_i stEntry hfind
      show (OrdMap.put s.mClients stKey _).length ≤ _
      rw [OrdMap.length_put_of_find hsorted hfind]
      exact hsize
    · split
      · exact hsize
      · rename_i hfull
        have hroom := OrdMap.length_put_le s.mClients stKey (⟨s.created, 0⟩ : Entry)
        exact hroom.trans (by omega)

theorem sweepVisit_size (cfg : Config) (hsorted : OrdMap.Sorted s.mClients) (bStop : Bool)
    (iNow : ℤ) (k : K) (rest : List K) (vRetired : List ℕ) :
    (sweepVisit cfg s bStop iNow k rest vRetired).mClients.length ≤ s.mClients.length := by
  unfold sweepVisit
  split
  · exact le_refl _
  · rename_i stEntry hfind
    split
    · exact le_of_eq (OrdMap.length_put_of_find hsorted hfind _)
    · exact OrdMap.length_erase_le _ _

omit [LinearOrder K] in
/-- An acquired lease is one of a connection that has been constructed. -/
theorem leased_acquireLease {n : ℕ} (hleased : ∀ c, s.leases c ≠ 0 → c < n) (hc : c < n) :
    ∀ c', (s.acquireLease c).leases c' ≠ 0 → c' < n := by
  intro c' hheld
  by_cases hcc : c' = c
  · exact hcc ▸ hc
  · refine hleased c' ?_
    rw [← Function.update_of_ne hcc (s.leases c + 1) s.leases]
    exact hheld

theorem clientFor_leased (h : Wf cfg s) (stKey : K) (stopRequested : Bool) :
    ∀ c, (clientFor cfg s stKey stopRequested).leases c ≠ 0 →
      c < (clientFor cfg s stKey stopRequested).created := by
  unfold clientFor
  split
  · exact h.leased
  · split
    · rename_i stEntry hfind
      exact leased_acquireLease h.leased (h.made _ (OrdMap.mem_of_find hfind))
    · split
      · exact h.leased
      · exact leased_acquireLease (fun c hc => (h.leased c hc).trans (Nat.lt_succ_self _))
          (Nat.lt_succ_self _)

/-- The entries name constructed connections after a step as before it. -/
theorem made_step (h : Wf cfg s) (hstep : step cfg s e = some s')
    (hsorted : OrdMap.Sorted s'.mClients) (hcreated : s.created ≤ s'.created) :
    ∀ p ∈ s'.mClients, p.2.pClient < s'.created := by
  rintro ⟨k, stEntry'⟩ hp
  have hold : ∀ stEntry, OrdMap.find s.mClients k = some stEntry →
      stEntry.pClient < s'.created := fun stEntry hfind =>
    (h.made _ (OrdMap.mem_of_find hfind)).trans_le hcreated
  cases step_entry h.sorted hstep (OrdMap.find_of_mem hsorted hp) with
  | made hnew hmade hlease =>
    rw [hnew, hmade]
    exact Nat.lt_succ_self _
  | kept hentry => exact hold stEntry' hentry
  | reset stEntry hentry hnew | stamped stEntry iNow hentry hnew hsweep =>
    rw [hnew]
    exact hold stEntry hentry

theorem wf_step (h : Wf cfg s) (hstep : step cfg s e = some s') : Wf cfg s' := by
  have hmade := made_step h hstep
  have hclock : ∀ k t, s'.sweep.mayStamp k = some t → t ≤ s.now := fun k t ht =>
    (step_mayStamp hstep ht).elim (h.clock k t) le_of_eq
  cases step_moves hstep with
  | clientFor stKey stopRequested =>
    obtain ⟨-, hnow, hcreated, -⟩ := clientFor_frame cfg s stKey stopRequested
    have hsorted := clientFor_sorted cfg h.sorted stKey stopRequested
    exact ⟨hsorted, clientFor_size h.sorted h.size stKey stopRequested, hmade hsorted hcreated,
      clientFor_leased h stKey stopRequested, hnow.symm ▸ hclock⟩
  | acquire _ c hc =>
    exact { h with leased := leased_acquireLease h.leased (hc.elim (h.leased c) id) }
  | release c hheld =>
    refine { h with leased := fun c' hc' => ?_ }
    by_cases hcc : c' = c
    · exact hcc ▸ h.leased c hheld
    · refine h.leased c' ?_
      rw [← Function.update_of_ne hcc (s.leases c - 1) s.leases]
      exact hc'
  | begin bStop => exact { h with clock := hclock }
  | lock bStop iNow hsweep => exact { h with clock := hclock }
  | visit bStop iNow k₀ rest vRetired hsweep =>
    obtain ⟨-, hnow, hcreated, hleases⟩ := sweepVisit_frame cfg s bStop iNow k₀ rest vRetired
    have hsorted := sweepVisit_sorted cfg h.sorted bStop iNow k₀ rest vRetired
    refine ⟨hsorted, (sweepVisit_size cfg h.sorted bStop iNow k₀ rest vRetired).trans h.size,
      hmade hsorted (le_of_eq hcreated.symm), ?_, hnow.symm ▸ hclock⟩
    rw [hleases, hcreated]
    exact h.leased
  | unlocked _ _ _ => exact { h with clock := hclock }
  | tick d =>
    refine { h with clock := fun k t ht => (hclock k t ht).trans ?_ }
    exact Int.le_add_of_nonneg_right (Int.natCast_nonneg d)

/-! ## Evictions -/

/-- A step that leaves the entry's connection in its place does not evict it. -/
theorem pooled_of_find (hfind : OrdMap.find s.mClients k = some stEntry) (hc : stEntry.pClient = c)
    : Pooled s c :=
  ⟨_, OrdMap.mem_of_find hfind, hc⟩

theorem clientFor_pooled (h : Wf cfg s) {stKey : K} {stopRequested : Bool} (hpooled : Pooled s c) :
    Pooled (clientFor cfg s stKey stopRequested) c := by
  obtain ⟨⟨k, stEntry⟩, hmem, hc⟩ := hpooled
  have hfind := OrdMap.find_of_mem h.sorted hmem
  unfold clientFor
  split
  · exact ⟨_, hmem, hc⟩
  · split
    · rename_i stEntry₀ hkey
      -- the entry of `stKey` keeps its connection
      by_cases hk : k = stKey
      · subst hk
        obtain rfl := Option.some.inj (hkey.symm.trans hfind)
        exact ⟨(k, { stEntry₀ with iIdleSinceMilliseconds := 0 }),
          OrdMap.mem_of_find (by rw [OrdMap.find_put, if_pos rfl]), hc⟩
      · exact pooled_of_find (k := k) (by rw [OrdMap.find_put, if_neg hk, hfind]) hc
    · split
      · exact ⟨_, hmem, hc⟩
      · rename_i hkey _
        have hk : k ≠ stKey := by
          rintro rfl
          rw [hfind] at hkey
          cases hkey
        exact pooled_of_find (k := k) (by rw [OrdMap.find_put, if_neg hk, hfind]) hc

/-- **What an eviction finds.** The sweep of the idle timer evicts a connection without a lease, and
only where an earlier sweep has written the time since when it is idle. -/
theorem evicts_cases (h : Wf cfg s) (hperiodic : s.sweep.periodic = true)
    (hstep : step cfg s e = some s') (hevicts : Evicts s s' c) :
    ∃ k stEntry iNow, OrdMap.find s.mClients k = some stEntry ∧ stEntry.pClient = c ∧
      s.leases c = 0 ∧ s.sweep.mayStamp k = some iNow ∧ stEntry.iIdleSinceMilliseconds ≠ 0 ∧
      stEntry.iIdleSinceMilliseconds + cfg.iIdleMilliseconds ≤ iNow := by
  obtain ⟨hpooled, hgone⟩ := hevicts
  cases step_moves hstep with
  | clientFor stKey stopRequested => exact absurd (clientFor_pooled h hpooled) hgone
  | acquire _ c' _ => exact absurd hpooled hgone
  | release c' _ => exact absurd hpooled hgone
  | begin bStop => exact absurd hpooled hgone
  | lock bStop iNow _ => exact absurd hpooled hgone
  | unlocked _ _ _ => exact absurd hpooled hgone
  | tick d => exact absurd hpooled hgone
  | visit bStop iNow k₀ rest vRetired hsweep =>
    obtain ⟨⟨k, stEntry⟩, hmem, hc⟩ := hpooled
    have hfind := OrdMap.find_of_mem h.sorted hmem
    obtain rfl : bStop = false := by
      rw [hsweep] at hperiodic
      exact (Bool.not_eq_true' bStop).mp hperiodic
    unfold sweepVisit at hgone
    cases hkey : OrdMap.find s.mClients k₀ with
    | none =>
      simp only [hkey] at hgone
      exact absurd ⟨_, hmem, hc⟩ hgone
    | some stEntry₀ =>
      simp only [hkey] at hgone
      cases hvisit : sweepEntry cfg false iNow (s.hasLease stEntry₀.pClient) stEntry₀ with
      | some stEntry₁ =>
        simp only [hvisit] at hgone
        refine absurd ?_ hgone
        by_cases hk : k = k₀
        · subst hk
          obtain rfl := Option.some.inj (hkey.symm.trans hfind)
          have hclient : stEntry₁.pClient = c := by
            rcases sweepEntry_some hvisit with h₁ | h₁ | h₁ <;> rw [h₁] <;> exact hc
          exact pooled_of_find (k := k) (by rw [OrdMap.find_put, if_pos rfl]) hclient
        · exact pooled_of_find (k := k) (by rw [OrdMap.find_put, if_neg hk, hfind]) hc
      | none =>
        simp only [hvisit] at hgone
        by_cases hk : k = k₀
        · subst hk
          obtain rfl := Option.some.inj (hkey.symm.trans hfind)
          obtain ⟨hlease, hzero, hlong⟩ := sweepEntry_none hvisit
          refine ⟨k, stEntry₀, iNow, hfind, hc, ?_, ?_, hzero, hlong⟩
          · rw [State.hasLease, hc] at hlease
            exact of_not_not fun hne => by simp [hne] at hlease
          · rw [hsweep]
            exact if_pos List.mem_cons_self
        · refine absurd ?_ hgone
          exact pooled_of_find (k := k)
            (by rw [OrdMap.find_erase h.sorted, if_neg hk, hfind]) hc

/-! ## Runs of the idle timer's sweep

Where a last lease is dropped, the entry must have no idle time from before, and no sweep under way
may still write one. -/

theorem periodic_step (hperiodic : s.sweep.periodic = true) (he : e ≠ .sweepRoutePool true)
    (hstep : step cfg s e = some s') : s'.sweep.periodic = true := by
  cases step_moves hstep with
  | clientFor stKey stopRequested =>
    rw [(clientFor_frame cfg s stKey stopRequested).1]
    exact hperiodic
  | acquire _ c _ => exact hperiodic
  | release c _ => exact hperiodic
  | begin bStop =>
    cases bStop with
    | true => exact absurd rfl he
    | false => rfl
  | lock bStop iNow hsweep =>
    rw [hsweep] at hperiodic
    exact hperiodic
  | visit bStop iNow k₀ rest vRetired hsweep =>
    obtain ⟨vRetired', hsweep'⟩ := (sweepVisit_frame cfg s bStop iNow k₀ rest vRetired).1
    rw [hsweep'] at *
    rw [hsweep] at hperiodic
    exact hperiodic
  | unlocked _ _ hidle => exact hidle
  | tick d => exact hperiodic

/-- A lease on `c` that existed at `m` has been noticed: no idle time before `m` stands in the pool
for `c`, unless a lease still exists, and no sweep is about to write one. -/
structure Noticed (m : ℤ) (c : ℕ) (s : State K) : Prop where
  past : m ≤ s.now
  made : c < s.created
  since : s.leases c = 0 → ∀ k stEntry, OrdMap.find s.mClients k = some stEntry →
    stEntry.pClient = c →
      (stEntry.iIdleSinceMilliseconds = 0 ∨ m ≤ stEntry.iIdleSinceMilliseconds) ∧
        ∀ t, s.sweep.mayStamp k = some t → m ≤ t

/-- **The condition.** Where the last lease of a pooled connection is dropped, the entry carries no
idle time from before, and no sweep that read the clock earlier has the entry still before it. -/
def NoticedRelease (s : State K) : Event K → Prop
  | .release c => s.leases c = 1 → ∀ p ∈ s.mClients, p.2.pClient = c →
      (p.2.iIdleSinceMilliseconds = 0 ∨ s.now ≤ p.2.iIdleSinceMilliseconds) ∧
        ∀ t ∈ s.sweep.mayStamp p.1, s.now ≤ t
  | _ => True

instance (s : State K) (e : Event K) : Decidable (NoticedRelease s e) := by
  cases e <;> unfold NoticedRelease <;> infer_instance

theorem step_grows (hstep : step cfg s e = some s') : s.now ≤ s'.now ∧ s.created ≤ s'.created := by
  cases step_moves hstep with
  | clientFor stKey stopRequested =>
    obtain ⟨-, hnow, hcreated, -⟩ := clientFor_frame cfg s stKey stopRequested
    exact ⟨le_of_eq hnow.symm, hcreated⟩
  | visit bStop iNow k₀ rest vRetired hsweep =>
    obtain ⟨-, hnow, hcreated, -⟩ := sweepVisit_frame cfg s bStop iNow k₀ rest vRetired
    exact ⟨le_of_eq hnow.symm, le_of_eq hcreated.symm⟩
  | tick d => exact ⟨Int.le_add_of_nonneg_right (Int.natCast_nonneg d), le_refl _⟩
  | acquire _ c _ => exact ⟨le_refl _, le_refl _⟩
  | release c _ => exact ⟨le_refl _, le_refl _⟩
  | begin bStop => exact ⟨le_refl _, le_refl _⟩
  | lock bStop iNow _ => exact ⟨le_refl _, le_refl _⟩
  | unlocked _ _ _ => exact ⟨le_refl _, le_refl _⟩

/-- Only the drop of a last lease leaves a connection without one. -/
theorem step_unleased (hstep : step cfg s e = some s') (hnone : s'.leases c = 0) :
    s.leases c = 0 ∨ (e = .release c ∧ s.leases c = 1 ∧ s' = s.releaseLease c) := by
  cases step_moves hstep with
  | clientFor stKey stopRequested =>
    have hle := (clientFor_frame cfg s stKey stopRequested).2.2.2 c
    exact Or.inl (Nat.le_zero.1 (hnone ▸ hle))
  | acquire _ c' _ => exact Or.inl (Nat.le_zero.1 (hnone ▸ leases_le_acquireLease s c' c))
  | release c' hheld =>
    by_cases hcc : c = c'
    · subst hcc
      have hpred : Function.update s.leases c (s.leases c - 1) c = 0 := hnone
      rw [Function.update_self] at hpred
      exact Or.inr ⟨rfl, by omega, rfl⟩
    · have hsame : Function.update s.leases c' (s.leases c' - 1) c = 0 := hnone
      rw [Function.update_of_ne hcc] at hsame
      exact Or.inl hsame
  | visit bStop iNow k₀ rest vRetired hsweep =>
    rw [(sweepVisit_frame cfg s bStop iNow k₀ rest vRetired).2.2.2] at hnone
    exact Or.inl hnone
  | begin bStop => exact Or.inl hnone
  | lock bStop iNow _ => exact Or.inl hnone
  | unlocked _ _ _ => exact Or.inl hnone
  | tick d => exact Or.inl hnone

theorem noticed_step {m : ℤ} (h : Wf cfg s) (hm : Noticed m c s) (hrelease : NoticedRelease s e)
    (hstep : step cfg s e = some s') : Noticed m c s' := by
  obtain ⟨hnow, hcreated⟩ := step_grows hstep
  refine ⟨hm.past.trans hnow, hm.made.trans_le hcreated, ?_⟩
  intro hnone k stEntry' hfind hc
  rcases step_unleased hstep hnone with hbefore | ⟨rfl, hlast, rfl⟩
  · -- no lease before the step: the entry comes from one that satisfied the bound, or is new
    have hstamp : ∀ stEntry, OrdMap.find s.mClients k = some stEntry → stEntry.pClient = c →
        ∀ t, s'.sweep.mayStamp k = some t → m ≤ t := by
      intro stEntry hentry hclient t ht
      rcases step_mayStamp hstep ht with ht | rfl
      · exact (hm.since hbefore k stEntry hentry hclient).2 t ht
      · exact hm.past
    cases step_entry h.sorted hstep hfind with
    | made hnew _ _ =>
      rw [hnew] at hc
      exact absurd hm.made (by rw [← hc]; exact lt_irrefl _)
    | kept hentry =>
      exact ⟨(hm.since hbefore k stEntry' hentry hc).1, hstamp stEntry' hentry hc⟩
    | reset stEntry hentry hnew =>
      rw [hnew] at hc ⊢
      exact ⟨Or.inl rfl, hstamp stEntry hentry hc⟩
    | stamped stEntry iNow hentry hnew hsweep =>
      rw [hnew] at hc ⊢
      exact ⟨Or.inr ((hm.since hbefore k stEntry hentry hc).2 iNow hsweep),
        hstamp stEntry hentry hc⟩
  · -- the last lease is dropped now
    obtain ⟨hzero, hstamp⟩ := hrelease hlast (k, stEntry') (OrdMap.mem_of_find hfind) hc
    exact ⟨hzero.imp_right hm.past.trans, fun t ht => hm.past.trans (hstamp t ht)⟩

/-! ## What holds of runs -/

/-- No step of the run evicts a connection on which a lease exists. -/
def EvictsUnleased (cfg : Config) (s : State K) (run : List (Event K)) : Prop :=
  ∀ es e es' t t' c, run = es ++ e :: es' → runFrom (step cfg) s es = some t →
    step cfg t e = some t' → Evicts t t' c → t.leases c = 0

/-- A connection that a step of the run evicts had no lease in any state of the run that lies less
than `iIdleMilliseconds` before the eviction. -/
def EvictsIdle (cfg : Config) (s : State K) (run : List (Event K)) : Prop :=
  ∀ es₁ es₂ e es₃ t₁ t₂ t₃ c, run = es₁ ++ (es₂ ++ e :: es₃) →
    runFrom (step cfg) s es₁ = some t₁ → runFrom (step cfg) t₁ es₂ = some t₂ →
      step cfg t₂ e = some t₃ → Evicts t₂ t₃ c → t₂.now < t₁.now + cfg.iIdleMilliseconds →
        t₁.leases c = 0

theorem wf_run {run : List (Event K)} (h : Wf cfg s) (hrun : runFrom (step cfg) s run = some s') :
    Wf cfg s' :=
  runFrom_invariant (fun _ _ _ h hstep => wf_step h hstep) h hrun

theorem periodic_run {run : List (Event K)} (hperiodic : s.sweep.periodic = true)
    (hno : Event.sweepRoutePool true ∉ run) (hrun : runFrom (step cfg) s run = some s') :
    s'.sweep.periodic = true := by
  refine runFrom_invariant_along (I := fun s => s.sweep.periodic = true)
    (P := fun _ e => e ≠ .sweepRoutePool true)
    (fun _ _ _ h he hstep => periodic_step h he hstep) hperiodic ?_ hrun
  exact along_of_forall s fun e he h => hno (h ▸ he)

theorem noticed_run {run : List (Event K)} {m : ℤ} (h : Wf cfg s) (hm : Noticed m c s)
    (hnoticed : Along (step cfg) NoticedRelease s run) (hrun : runFrom (step cfg) s run = some s') :
    Noticed m c s' := by
  refine (runFrom_invariant_along (I := fun s => Wf cfg s ∧ Noticed m c s) ?_ ⟨h, hm⟩ hnoticed
    hrun).2
  intro s e s' hI hP hstep
  exact ⟨wf_step hI.1 hstep, noticed_step hI.1 hI.2 hP hstep⟩

/-- A state with a lease starts the bound at its own time. -/
theorem noticed_of_leased (h : Wf cfg s) (hleased : s.leases c ≠ 0) : Noticed s.now c s where
  past := le_refl _
  made := h.leased c hleased
  since := fun hnone => absurd hnone hleased

/-- **The pool under the idle timer's sweep.** In every run the pool holds at most `iMaxClients`
entries and evicts no connection on which a lease exists. In every run whose dropped last leases are
noticed, it evicts only connections that had no lease for `iIdleMilliseconds`. -/
theorem evicts_only_idle {cfg : Config} {now : ℤ} {run : List (Event K)} {s : State K}
    (hno : Event.sweepRoutePool true ∉ run)
    (hrun : runFrom (step cfg) (init K now) run = some s) :
    s.mClients.length ≤ cfg.iMaxClients ∧ EvictsUnleased cfg (init K now) run ∧
      (Along (step cfg) NoticedRelease (init K now) run → EvictsIdle cfg (init K now) run) := by
  refine ⟨(wf_run (wf_init cfg now) hrun).size, ?_, ?_⟩
  · intro es e es' t t' c hsplit ht hstep hevicts
    have hpre : Event.sweepRoutePool true ∉ es := fun he =>
      hno (hsplit ▸ List.mem_append_left _ he)
    obtain ⟨_, _, _, -, -, hnone, -⟩ := evicts_cases (wf_run (wf_init cfg now) ht)
      (periodic_run rfl hpre ht) hstep hevicts
    exact hnone
  · intro hnoticed es₁ es₂ e es₃ t₁ t₂ t₃ c hsplit ht₁ ht₂ hstep hevicts hrecent
    by_contra hleased
    have hwf₁ := wf_run (wf_init cfg now) ht₁
    have hwf₂ := wf_run hwf₁ ht₂
    rw [hsplit, along_append] at hnoticed
    have hm := noticed_run hwf₁ (noticed_of_leased hwf₁ hleased)
      (along_append.1 (hnoticed.2 t₁ ht₁)).1 ht₂
    have hpre : Event.sweepRoutePool true ∉ es₁ ++ es₂ := fun he => hno (by
      rw [hsplit, ← List.append_assoc]
      exact List.mem_append_left _ he)
    obtain ⟨k, stEntry, iNow, hfind, hc, hnone, hstamp, hzero, hlong⟩ := evicts_cases hwf₂
      (periodic_run rfl hpre (runFrom_append.2 ⟨t₁, ht₁, ht₂⟩)) hstep hevicts
    have hclock := hwf₂.clock k iNow hstamp
    rcases (hm.since hnone k stEntry hfind hc).1 with h₀ | hsince
    · exact hzero h₀
    · omega

/-! ## Short uses between two sweeps -/

/-- The defaults of the configuration. -/
def defaults : Config where
  iMaxClients := 1024
  iIdleMilliseconds := 60000
  max_pos := by decide
  idle_pos := by decide

/-- A sweep of a pool with one entry that stays. -/
def quietSweep : List (Event ℕ) :=
  [.sweepRoutePool false, .sweepLock, .sweepNext, .sweepNext, .sweepNext]

/-- A client is used and given back in the first second. The timer sweeps every second; ten
milliseconds before the sixty-first sweep a request arrives and is handled in five. -/
def requestUnseen : List (Event ℕ) :=
  [.clientFor 0 false, .release 0] ++
    (List.replicate 60 (.tick 1000 :: quietSweep)).flatten ++ [.tick 990, .holdTask 0]

/-- The rest of that run: the handler ends, and the next sweep evicts the connection. -/
def requestEnds : List (Event ℕ) := [.tick 5, .release 0, .tick 5, .sweepRoutePool false, .sweepLock]

/-- **A handled request does not keep a connection.** It is evicted ten milliseconds after a lease
on it existed, with an idle period of a minute. -/
theorem evicts_after_request :
    ¬ EvictsIdle defaults (init ℕ 0) (requestUnseen ++ (requestEnds ++ Event.sweepNext :: [])) := by
  have hrun₁ : (runFrom (step defaults) (init ℕ 0) requestUnseen).map (fun t =>
      decide (t.now = 60990 ∧ t.leases 0 = 1 ∧
        (runFrom (step defaults) t requestEnds).map (fun t₂ => decide (t₂.now = 61000 ∧
          t₂.mClients.map (fun p => p.2.pClient) = [0] ∧
            (step defaults t₂ .sweepNext).map (fun t₃ => t₃.mClients) = some [])) =
          some true)) = some true := by
    decide +kernel
  obtain ⟨t₁, ht₁, hfacts₁⟩ := Option.map_eq_some_iff.1 hrun₁
  obtain ⟨hnow₁, hlease₁, hrun₂⟩ := of_decide_eq_true hfacts₁
  obtain ⟨t₂, ht₂, hfacts₂⟩ := Option.map_eq_some_iff.1 hrun₂
  obtain ⟨hnow₂, hpool₂, hrun₃⟩ := of_decide_eq_true hfacts₂
  obtain ⟨t₃, ht₃, hpool₃⟩ := Option.map_eq_some_iff.1 hrun₃
  intro hidle
  have hpooled : Pooled t₂ 0 := by
    obtain ⟨p, hp, hclient⟩ := List.mem_map.1 (hpool₂ ▸ List.mem_singleton_self 0)
    exact ⟨p, hp, hclient⟩
  have hgone : ¬ Pooled t₃ 0 := by
    rintro ⟨p, hp, -⟩
    rw [hpool₃] at hp
    cases hp
  have hnone := hidle requestUnseen requestEnds .sweepNext [] t₁ t₂ t₃ 0 rfl ht₁ ht₂ ht₃
    ⟨hpooled, hgone⟩ (by rw [hnow₁, hnow₂]; decide)
  rw [hlease₁] at hnone
  cases hnone

/-- A minute without a lease: the sixty-second sweep evicts. -/
def idleMinute : List (Event ℕ) :=
  [.clientFor 0 false, .release 0] ++ (List.replicate 60 (.tick 1000 :: quietSweep)).flatten ++
    [.tick 1000, .sweepRoutePool false, .sweepLock, .sweepNext]

theorem evicts_only_idle_idleMinute :
    ∃ s, runFrom (step defaults) (init ℕ 0) idleMinute = some s ∧
      (s.mClients.length ≤ defaults.iMaxClients ∧ EvictsUnleased defaults (init ℕ 0) idleMinute ∧
        (Along (step defaults) NoticedRelease (init ℕ 0) idleMinute →
          EvictsIdle defaults (init ℕ 0) idleMinute)) ∧
      Along (step defaults) NoticedRelease (init ℕ 0) idleMinute ∧ s.iEvicted = 1 := by
  have hrun : (runFrom (step defaults) (init ℕ 0) idleMinute).map (fun s =>
      decide (s.iEvicted = 1)) = some true := by
    decide +kernel
  have hnoticed : Along (step defaults) NoticedRelease (init ℕ 0) idleMinute := by
    decide +kernel
  obtain ⟨s, hs, hfacts⟩ := Option.map_eq_some_iff.1 hrun
  exact ⟨s, hs, evicts_only_idle (by decide +kernel) hs, hnoticed, of_decide_eq_true hfacts⟩

end OpenIdea.Rpc.RoutePool
