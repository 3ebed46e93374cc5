import OpenIdea.Rpc.CallMany

/-!
# The slots of a call to many zones

The zone ids, the zone names, the clients, the calls and the results of `CallMany` share one index.
`Routed` says what the client of a slot is, `BuiltSlot` what its call is and `Collected` what its
result is; `Progress` puts them together for each place of the coroutine. Every step keeps it
(`inv_step`); the main result is `callMany_slots`.
-/

set_option autoImplicit false

namespace OpenIdea.Rpc.CallMany

open OpenIdea.Lib OpenIdea.Lib.Runs
open OpenIdea.Registry (Text Instance)

/-! ## Zones and instances -/

theorem zoneNames_eq {vZoneIds : List ℤ} {vZones : List Text}
    (h : zoneNames vZoneIds = some vZones) : vZones = vZoneIds.map zoneName := by
  induction vZoneIds generalizing vZones with
  | nil => exact (Option.some.inj h).symm
  | cons iZoneId vZoneIds ih =>
    rw [zoneNames] at h
    split at h
    · exact absurd h nofun
    · obtain ⟨rest, hrest, rfl⟩ := Option.map_eq_some_iff.1 h
      rw [ih hrest, List.map_cons]

variable {sName : Text}

theorem prepareZones_eq {vZoneIds : List ℤ} {vZones : List Text}
    (h : prepareZones sName vZoneIds = some vZones) : vZones = vZoneIds.map zoneName := by
  rw [prepareZones] at h
  split at h
  · exact absurd h nofun
  · exact zoneNames_eq h

/-- The instance of the service in the zone with the smallest id. -/
structure IsBest (sName sZone : Text) (vList : List Instance) (best : Instance) : Prop where
  mem : best ∈ vList
  registered : Registered sName sZone best
  least : ∀ x ∈ vList, Registered sName sZone x → best.id ≤ x.id

/-- What the inner loop of `FinishZones` makes of the best instance so far. -/
theorem foldl_betterOf (sName sZone : Text) (vList : List Instance) :
    ∀ pBest : Option Instance,
      match vList.foldl (betterOf sName sZone) pBest with
      | none => pBest = none ∧ ∀ x ∈ vList, ¬ Registered sName sZone x
      | some best => (pBest = some best ∨ best ∈ vList ∧ Registered sName sZone best) ∧
          (∀ p, pBest = some p → best.id ≤ p.id) ∧
          ∀ x ∈ vList, Registered sName sZone x → best.id ≤ x.id := by
  induction vList with
  | nil =>
    intro pBest
    cases pBest with
    | none => exact ⟨rfl, nofun⟩
    | some p =>
      refine ⟨Or.inl rfl, fun q hq => ?_, nofun⟩
      rw [Option.some.inj hq]
  | cons y ys ih =>
    intro pBest
    rw [List.foldl_cons]
    have hrest := ih (betterOf sName sZone pBest y)
    by_cases hy : Registered sName sZone y
    · -- the round keeps the smaller of the two ids
      have hround : ∃ q, betterOf sName sZone pBest y = some q ∧
          (pBest = some q ∨ q = y) ∧ (∀ p, pBest = some p → q.id ≤ p.id) ∧ q.id ≤ y.id := by
        rw [betterOf.eq_def, if_neg (by rw [not_or, not_not, not_not]; exact hy)]
        cases pBest with
        | none => exact ⟨y, rfl, Or.inr rfl, nofun, le_refl _⟩
        | some p =>
          by_cases hlt : y.id < p.id
          · refine ⟨y, if_pos hlt, Or.inr rfl, fun q hq => ?_, le_refl _⟩
            rw [← Option.some.inj hq]
            exact le_of_lt hlt
          · refine ⟨p, if_neg hlt, Or.inl rfl, fun q hq => ?_, not_lt.1 hlt⟩
            rw [Option.some.inj hq]
      obtain ⟨q, hq, hfrom, hle, hley⟩ := hround
      rw [hq] at hrest ⊢
      cases hfold : ys.foldl (betterOf sName sZone) (some q) with
      | none =>
        rw [hfold] at hrest
        exact absurd hrest.1 nofun
      | some best =>
        rw [hfold] at hrest
        obtain ⟨hmem, hleq, hleast⟩ := hrest
        have hbq := hleq q rfl
        refine ⟨?_, fun p hp => hbq.trans (hle p hp), fun x hx hreg => ?_⟩
        · rcases hmem with hsame | ⟨hin, hreg⟩
          · obtain rfl := Option.some.inj hsame
            rcases hfrom with hp | rfl
            · exact Or.inl hp
            · exact Or.inr ⟨List.mem_cons_self, hy⟩
          · exact Or.inr ⟨List.mem_cons_of_mem y hin, hreg⟩
        · rcases List.mem_cons.1 hx with rfl | hin
          · exact hbq.trans hley
          · exact hleast x hin hreg
    · have hround : betterOf sName sZone pBest y = pBest := by
        rw [betterOf.eq_def, if_pos]
        by_contra hno
        rw [not_or, not_not, not_not] at hno
        exact hy hno
      rw [hround] at hrest ⊢
      cases hfold : ys.foldl (betterOf sName sZone) pBest with
      | none =>
        rw [hfold] at hrest
        refine ⟨hrest.1, fun x hx => ?_⟩
        rcases List.mem_cons.1 hx with rfl | hin
        · exact hy
        · exact hrest.2 x hin
      | some best =>
        rw [hfold] at hrest
        obtain ⟨hmem, hle, hleast⟩ := hrest
        refine ⟨hmem.imp_right fun h => ⟨List.mem_cons_of_mem y h.1, h.2⟩, hle,
          fun x hx hreg => ?_⟩
        rcases List.mem_cons.1 hx with rfl | hin
        · exact absurd hreg hy
        · exact hleast x hin hreg

theorem bestOf_none {sZone : Text} {vList : List Instance} (h : bestOf sName sZone vList = none) :
    ∀ x ∈ vList, ¬ Registered sName sZone x := by
  have hfold := foldl_betterOf sName sZone vList none
  rw [bestOf] at h
  rw [h] at hfold
  exact hfold.2

/-- **The inner loop of `FinishZones` finds the instance with the smallest id.** -/
theorem bestOf_some {sZone : Text} {vList : List Instance} {best : Instance}
    (h : bestOf sName sZone vList = some best) : IsBest sName sZone vList best := by
  have hfold := foldl_betterOf sName sZone vList none
  rw [bestOf] at h
  rw [h] at hfold
  obtain ⟨hmem, -, hleast⟩ := hfold
  obtain ⟨hin, hreg⟩ := hmem.resolve_left nofun
  exact ⟨hin, hreg, hleast⟩

/-! ## The connections of the pool -/

section Pool

variable {K : Type} [LinearOrder K]

/-- Every connection in the pool was constructed for the key it is found under. -/
def Keyed (made : ℕ → K) (s : RoutePool.State K) : Prop :=
  ∀ k stEntry, OrdMap.find s.mClients k = some stEntry → made stEntry.pClient = k

omit [LinearOrder K] in
/-- A step that constructs nothing. -/
theorem madeAfter_same {made : ℕ → K} {before after : RoutePool.State K} {e : RoutePool.Event K}
    (h : after.created = before.created) : madeAfter made before after e = made := by
  cases e with
  | clientFor stKey stop => exact if_pos h
  | _ => rfl

omit [LinearOrder K] in
theorem madeAfter_new {made : ℕ → K} {before after : RoutePool.State K} {stKey : K} {stop : Bool}
    (h : after.created = before.created + 1) :
    madeAfter made before after (.clientFor stKey stop) =
      Function.update made before.created stKey :=
  if_neg (by rw [h]; exact Nat.succ_ne_self _)

/-- `ClientFor` refuses, finds a connection, or constructs one. -/
theorem clientFor_cases (cfg : RoutePool.Config) (s : RoutePool.State K) (stKey : K) (stop : Bool) :
    (leaseOf cfg s stKey stop = none ∧ RoutePool.clientFor cfg s stKey stop = s) ∨
    (∃ stEntry, OrdMap.find s.mClients stKey = some stEntry ∧
      leaseOf cfg s stKey stop = some stEntry.pClient ∧
      RoutePool.clientFor cfg s stKey stop =
        { s.acquireLease stEntry.pClient with
          mClients := OrdMap.put s.mClients stKey { stEntry with iIdleSinceMilliseconds := 0 } }) ∨
    (leaseOf cfg s stKey stop = some s.created ∧
      RoutePool.clientFor cfg s stKey stop =
        { s.acquireLease s.created with
          created := s.created + 1
          mClients := OrdMap.put s.mClients stKey ⟨s.created, 0⟩ }) := by
  rw [leaseOf, RoutePool.clientFor]
  split
  · exact Or.inl ⟨rfl, rfl⟩
  · cases hkey : OrdMap.find s.mClients stKey with
    | some stEntry => exact Or.inr (Or.inl ⟨stEntry, rfl, rfl, rfl⟩)
    | none =>
      dsimp only
      split
      · exact Or.inl ⟨rfl, rfl⟩
      · exact Or.inr (Or.inr ⟨rfl, rfl⟩)

variable {cfg : RoutePool.Config}

theorem keyed_clientFor {s : RoutePool.State K} {made : ℕ → K} (hwf : RoutePool.Wf cfg s)
    (hkeyed : Keyed made s) (stKey : K) (stop : Bool) :
    Keyed (madeAfter made s (RoutePool.clientFor cfg s stKey stop) (.clientFor stKey stop))
      (RoutePool.clientFor cfg s stKey stop) := by
  rcases clientFor_cases cfg s stKey stop with ⟨-, heq⟩ | ⟨stEntry, hkey, -, heq⟩ | ⟨-, heq⟩
  · rw [heq, madeAfter_same]
    · exact hkeyed
    · rfl
  · rw [heq, madeAfter_same]
    · intro k stEntry' hfind
      simp only [OrdMap.find_put] at hfind
      split at hfind
      · next hk =>
          rw [← Option.some.inj hfind, hk]
          exact hkeyed stKey stEntry hkey
      · exact hkeyed k stEntry' hfind
    · rfl
  · rw [heq, madeAfter_new]
    · intro k stEntry' hfind
      simp only [OrdMap.find_put] at hfind
      split at hfind
      · next hk =>
          rw [← Option.some.inj hfind, hk]
          exact Function.update_self _ _ _
      · -- the other entries have older connections, which keep their keys
        have hlt := hwf.made _ (OrdMap.mem_of_find hfind)
        rw [Function.update_of_ne (Nat.ne_of_lt hlt)]
        exact hkeyed k stEntry' hfind
    · rfl

/-- A step that constructs nothing leaves every connection under its key. -/
theorem keyed_of_created {s s' : RoutePool.State K} {e : RoutePool.Event K} {made : ℕ → K}
    (hwf : RoutePool.Wf cfg s) (hkeyed : Keyed made s) (hstep : RoutePool.step cfg s e = some s')
    (hcreated : s'.created = s.created) : Keyed made s' := by
  intro k stEntry' hfind
  -- every entry is an old one, up to the time since which it is idle
  cases RoutePool.step_entry hwf.sorted hstep hfind with
  | made hnew hmade hlease =>
    rw [hcreated] at hmade
    exact absurd hmade.symm (Nat.succ_ne_self _)
  | kept hentry => exact hkeyed k stEntry' hentry
  | reset stEntry hentry hnew | stamped stEntry iNow hentry hnew hsweep =>
    rw [hnew]
    exact hkeyed k stEntry hentry

/-- What a step of the pool does to the connections: none is renamed, and each has its key. -/
theorem keyed_step {s s' : RoutePool.State K} {e : RoutePool.Event K} {made : ℕ → K}
    (hwf : RoutePool.Wf cfg s) (hkeyed : Keyed made s) (hstep : RoutePool.step cfg s e = some s') :
    Keyed (madeAfter made s s' e) s' ∧ s.created ≤ s'.created ∧
      ∀ c, c < s.created → madeAfter made s s' e c = made c := by
  have hmoves := RoutePool.step_moves hstep
  cases hmoves with
  | clientFor stKey stop =>
    obtain ⟨-, -, hcreated, -⟩ := RoutePool.clientFor_frame cfg s stKey stop
    refine ⟨keyed_clientFor hwf hkeyed stKey stop, hcreated, fun c hc => ?_⟩
    rw [madeAfter]
    split
    · rfl
    · rw [Function.update_of_ne (Nat.ne_of_lt hc)]
  | acquire e c hmade =>
    rw [madeAfter_same]
    · exact ⟨keyed_of_created hwf hkeyed hstep rfl, le_refl _, fun _ _ => rfl⟩
    · rfl
  | release c hheld =>
    exact ⟨keyed_of_created hwf hkeyed hstep rfl, le_refl _, fun _ _ => rfl⟩
  | begin bStop => exact ⟨keyed_of_created hwf hkeyed hstep rfl, le_refl _, fun _ _ => rfl⟩
  | lock bStop iNow hsweep =>
    exact ⟨keyed_of_created hwf hkeyed hstep rfl, le_refl _, fun _ _ => rfl⟩
  | visit bStop iNow k rest vRetired hsweep =>
    obtain ⟨-, -, hcreated, -⟩ := RoutePool.sweepVisit_frame cfg s bStop iNow k rest vRetired
    exact ⟨keyed_of_created hwf hkeyed hstep hcreated, le_of_eq hcreated.symm, fun _ _ => rfl⟩
  | unlocked sweep hidle hperiodic =>
    exact ⟨keyed_of_created hwf hkeyed hstep rfl, le_refl _, fun _ _ => rfl⟩
  | tick d => exact ⟨keyed_of_created hwf hkeyed hstep rfl, le_refl _, fun _ _ => rfl⟩

/-- **`ClientFor` returns a connection to the address it is asked for.** -/
theorem leaseOf_made {s : RoutePool.State K} {made : ℕ → K} (hwf : RoutePool.Wf cfg s)
    (hkeyed : Keyed made s) {stKey : K} {stop : Bool} {c : ℕ}
    (h : leaseOf cfg s stKey stop = some c) :
    c < (RoutePool.clientFor cfg s stKey stop).created ∧
      madeAfter made s (RoutePool.clientFor cfg s stKey stop) (.clientFor stKey stop) c =
        stKey := by
  rcases clientFor_cases cfg s stKey stop with ⟨hno, -⟩ | ⟨stEntry, hkey, hc, heq⟩ | ⟨hc, heq⟩
  · exact absurd (hno.symm.trans h) nofun
  · obtain rfl := Option.some.inj (h.symm.trans hc)
    rw [heq, madeAfter_same]
    · exact ⟨hwf.made _ (OrdMap.mem_of_find hkey), hkeyed stKey stEntry hkey⟩
    · rfl
  · obtain rfl := Option.some.inj (h.symm.trans hc)
    rw [heq, madeAfter_new]
    · exact ⟨Nat.lt_succ_self _, Function.update_self _ _ _⟩
    · rfl

end Pool

/-! ## The slots

One notion for each array of the source, by the index that they share. -/

section Slots

variable {K Res : Type}

/-- The client of a slot: none where the zone has no instance, else a connection to the address of
its instance with the smallest id. -/
def Routed (b : Batch K) (s : State K Res) (sZone : Text) : Option ℕ → Prop
  | none => ∀ x ∈ s.vList, ¬ Registered b.sName sZone x
  | some c => c < s.pool.created ∧
      ∃ best, IsBest b.sName sZone s.vList best ∧ s.made c = b.stKey best.ip best.port

/-- The route as a whole has succeeded: each zone has its client. -/
structure Routes (b : Batch K) (s : State K Res) : Prop where
  code : s.iCode = oiOk
  zoned : hasGlobal b.sName s.vList = false
  zones : prepareZones b.sName b.vZoneIds = some s.vZoneNames
  clients : List.Forall₂ (Routed b s) s.vZoneNames s.vClients

/-- Why the route as a whole has failed. -/
inductive RoutingFailed (b : Batch K) (s : State K Res) : ServiceRouteStatus → Prop
  | badName (h : prepareZones b.sName b.vZoneIds = none) : RoutingFailed b s .badName
  | expired (iNow : ℤ) (hnow : iNow ∈ s.checks) (h : b.stDeadline.expired iNow = true) :
      RoutingFailed b s .timeout
  | unanswered (h : s.iCode = oiErrTimeout) : RoutingFailed b s .timeout
  | answeredBusy (h : s.iCode = oiErrBusy) : RoutingFailed b s .busy
  | refused (h : s.refused = true) : RoutingFailed b s .busy
  | offline (h : s.iCode ≠ oiOk) : RoutingFailed b s .offline
  | wrongKind (h : hasGlobal b.sName s.vList = true) : RoutingFailed b s .wrongKind

theorem RoutingFailed.ne_ok {b : Batch K} {s : State K Res} {status : ServiceRouteStatus}
    (h : RoutingFailed b s status) : status ≠ .ok := by
  cases h <;> exact nofun

/-- The call of a slot: there is none where there is no client or the deadline had passed, and the
code of the slot says which. -/
def BuiltSlot (b : Batch K) (s : State K Res) (i : ℕ) : Option ℕ → Option (Call Res) → Prop
  | none, stCall => stCall = none ∧ s.vSkipped[i]? = some oiErrConnect
  | some _, none => s.vSkipped[i]? = some oiErrTimeout ∧
      ∃ iNow, s.readings[i]? = some iNow ∧ b.stDeadline.expired iNow = true
  | some c, some stCall => stCall.client = c ∧
      ∃ iNow, s.readings[i]? = some iNow ∧ b.stDeadline.expired iNow = false

/-- The first `n` slots have been built. -/
def Built (b : Batch K) (s : State K Res) (n : ℕ) : Prop :=
  ∀ i < n, ∃ pClient stCall, s.vClients[i]? = some pClient ∧ s.vCalls[i]? = some stCall ∧
    BuiltSlot b s i pClient stCall

/-- The result an outcome gives, unless it is an exception that goes through. -/
def Outcome.toResult [Inhabited Res] : Outcome Res → Option (ℤ × Res)
  | .result iCode stResponse => some (iCode, stResponse)
  | .stdException => some (oiErrFail, default)
  | .otherException => none

/-- The result of a slot: its code where there is no call, else what its call has given. -/
def Collected [Inhabited Res] (s : State K Res) (i : ℕ) (r : ℤ × Res) : Prop :=
  (s.vCalls[i]? = some none ∧ ∃ iCode, s.vSkipped[i]? = some iCode ∧ r = (iCode, default)) ∨
  ∃ stCall o, s.vCalls[i]? = some (some stCall) ∧ stCall.outcome = some o ∧ o.toResult = some r

/-- Nothing has been sent. -/
def Unsent (s : State K Res) : Prop := s.vCalls = [] ∧ s.readings = []

/-- **What holds at each place of the coroutine.** -/
inductive Progress [Inhabited Res] (b : Batch K) (s : State K Res) : Place Res → Prop
  | suspend (hcode : s.iCode = oiErrConnect) (hclients : s.vClients = []) (hunsent : Unsent s) :
      Progress b s .suspend
  | pulling (hzones : prepareZones b.sName b.vZoneIds = some s.vZoneNames)
      (hclients : s.vClients = []) (hunsent : Unsent s) : Progress b s .pulling
  | resolved (hfailed : RoutingFailed b s s.iStatus) (hcode : s.iCode = oiErrConnect) :
      Progress b s (.resume true)
  | answered (hzones : prepareZones b.sName b.vZoneIds = some s.vZoneNames)
      (hclients : s.vClients = []) (hunsent : Unsent s) : Progress b s (.resume false)
  | finishing (done vZones : List Text) (hcode : s.iCode = oiOk)
      (hzoned : hasGlobal b.sName s.vList = false)
      (hzones : prepareZones b.sName b.vZoneIds = some s.vZoneNames)
      (hsplit : s.vZoneNames = done ++ vZones)
      (hrouted : List.Forall₂ (Routed b s) done s.vClients) (hunsent : Unsent s) :
      Progress b s (.finishing vZones)
  | failed (hfailed : RoutingFailed b s s.iStatus) : Progress b s .sending
  | sending (hstatus : s.iStatus = .ok) (hroutes : Routes b s) (hunsent : Unsent s) :
      Progress b s .sending
  | building (vClients : List (Option ℕ)) (hroutes : Routes b s)
      (hrest : vClients = s.vClients.drop s.iSlot) (hslot : s.iSlot ≤ s.vClients.length)
      (hcalls : s.vCalls.length = s.iSlot) (hreadings : s.readings.length = s.iSlot)
      (hskipped : s.vSkipped.length = s.vClients.length) (hbuilt : Built b s s.iSlot)
      (hopen : ∀ i, s.iSlot ≤ i → i < s.vClients.length → s.vSkipped[i]? = some oiErrConnect) :
      Progress b s (.building vClients)
  | cleaning (i : ℕ) : Progress b s (.cleaning i)
  | collecting (vResults : List (ℤ × Res)) (hroutes : Routes b s)
      (hcalls : s.vCalls.length = s.vClients.length) (hbuilt : Built b s s.vClients.length)
      (hlength : vResults.length ≤ s.vCalls.length)
      (hresults : ∀ i r, vResults[i]? = some r → Collected s i r) :
      Progress b s (.collecting vResults)
  | failedBatch (hfailed : RoutingFailed b s s.iStatus) :
      Progress b s (.returned (List.replicate b.vZoneIds.length (routeError s.iStatus, default)))
  | returned (vResults : List (ℤ × Res)) (hroutes : Routes b s)
      (hcalls : s.vCalls.length = s.vClients.length) (hbuilt : Built b s s.vClients.length)
      (hlength : vResults.length = s.vCalls.length)
      (hresults : ∀ i r, vResults[i]? = some r → Collected s i r) :
      Progress b s (.returned vResults)
  | thrown : Progress b s .thrown

/-! ## The pool and the calls move on -/

variable {pClient : Option ℕ}

/-- A connection a client has been chosen for stays the one it is. -/
theorem routed_pool {b : Batch K} {s : State K Res} {pool : RoutePool.State K} {made : ℕ → K}
    (hcreated : s.pool.created ≤ pool.created) (hmade : ∀ c, c < s.pool.created → made c = s.made c)
    {sZone : Text} (h : Routed b s sZone pClient) :
    Routed b { s with pool := pool, made := made } sZone pClient := by
  cases pClient with
  | none => exact h
  | some c =>
    obtain ⟨hlt, best, hbest, hkey⟩ := h
    exact ⟨hlt.trans_le hcreated, best, hbest, (hmade c hlt).trans hkey⟩

theorem routes_pool {b : Batch K} {s : State K Res} {pool : RoutePool.State K} {made : ℕ → K}
    (hcreated : s.pool.created ≤ pool.created)
    (hmade : ∀ c, c < s.pool.created → made c = s.made c) (h : Routes b s) :
    Routes b { s with pool := pool, made := made } :=
  ⟨h.code, h.zoned, h.zones, h.clients.imp fun _ _ hr => routed_pool hcreated hmade hr⟩

/-- A failure stays one while the answer and the checks stay. -/
theorem RoutingFailed.congr {b : Batch K} {s s' : State K Res} {status : ServiceRouteStatus}
    (h : RoutingFailed b s status) (hcode : s'.iCode = s.iCode) (hlist : s'.vList = s.vList)
    (hchecks : s.checks ⊆ s'.checks) (hrefused : s'.refused = s.refused) :
    RoutingFailed b s' status := by
  cases h with
  | badName h => exact .badName h
  | expired iNow hnow h => exact .expired iNow (hchecks hnow) h
  | unanswered h => exact .unanswered (hcode.trans h)
  | answeredBusy h => exact .answeredBusy (hcode.trans h)
  | refused h => exact .refused (hrefused.trans h)
  | offline h => exact .offline (hcode ▸ h)
  | wrongKind h => exact .wrongKind (hlist ▸ h)

variable [Inhabited Res]

/-- **The coroutine's progress survives what other threads do to the pool.** -/
theorem progress_pool {b : Batch K} {s : State K Res} {pool : RoutePool.State K} {made : ℕ → K}
    (hcreated : s.pool.created ≤ pool.created)
    (hmade : ∀ c, c < s.pool.created → made c = s.made c) {place : Place Res}
    (h : Progress b s place) : Progress b { s with pool := pool, made := made } place := by
  have hroutes' : Routes b s → Routes b { s with pool := pool, made := made } :=
    routes_pool hcreated hmade
  cases h with
  | suspend hcode hclients hunsent => exact .suspend hcode hclients hunsent
  | pulling hzones hclients hunsent => exact .pulling hzones hclients hunsent
  | resolved hfailed hcode => exact .resolved (hfailed.congr rfl rfl (List.Subset.refl _) rfl) hcode
  | answered hzones hclients hunsent => exact .answered hzones hclients hunsent
  | finishing done vZones hcode hzoned hzones hsplit hrouted hunsent =>
    exact .finishing done vZones hcode hzoned hzones hsplit
      (hrouted.imp fun _ _ hr => routed_pool hcreated hmade hr) hunsent
  | failed hfailed => exact .failed (hfailed.congr rfl rfl (List.Subset.refl _) rfl)
  | sending hstatus hroutes hunsent => exact .sending hstatus (hroutes' hroutes) hunsent
  | building vClients hroutes hrest hslot hcalls hreadings hskipped hbuilt hopen =>
    exact .building vClients (hroutes' hroutes) hrest hslot hcalls hreadings hskipped hbuilt hopen
  | cleaning i => exact .cleaning i
  | collecting vResults hroutes hcalls hbuilt hlength hresults =>
    exact .collecting vResults (hroutes' hroutes) hcalls hbuilt hlength hresults
  | failedBatch hfailed => exact .failedBatch (hfailed.congr rfl rfl (List.Subset.refl _) rfl)
  | returned vResults hroutes hcalls hbuilt hlength hresults =>
    exact .returned vResults (hroutes' hroutes) hcalls hbuilt hlength hresults
  | thrown => exact .thrown

/-- A call that completes stays in its slot, and the results collected do not change. -/
theorem progress_complete {b : Batch K} {s : State K Res} {i : ℕ} {stCall : Call Res}
    (o : Outcome Res) (hcall : s.vCalls[i]? = some (some stCall)) (hopen : stCall.outcome = none)
    {place : Place Res} (h : Progress b s place) :
    Progress b
      { s with vCalls := s.vCalls.set i (some { stCall with outcome := some o }) } place := by
  have hlt : i < s.vCalls.length := (List.getElem?_eq_some_iff.1 hcall).1
  -- there is a call, so the places before the first one are out of the question
  have hunsent' : ¬ Unsent s := fun hunsent => by
    rw [hunsent.1] at hlt
    exact absurd hlt (Nat.not_lt_zero i)
  have hbuilt' : ∀ n, Built b s n →
      Built b { s with vCalls := s.vCalls.set i (some { stCall with outcome := some o }) } n := by
    intro n hbuilt j hj
    obtain ⟨pClient, call, hclient, hcallj, hslot⟩ := hbuilt j hj
    by_cases hij : i = j
    · subst hij
      rw [hcall] at hcallj
      obtain rfl := Option.some.inj hcallj
      refine ⟨pClient, some { stCall with outcome := some o }, hclient,
        List.getElem?_set_self hlt, ?_⟩
      cases pClient with
      | none => exact absurd hslot.1 nofun
      | some c => exact hslot
    · exact ⟨pClient, call, hclient, (List.getElem?_set_ne hij).trans hcallj, hslot⟩
  have hcollected' : ∀ j r, Collected s j r →
      Collected { s with vCalls := s.vCalls.set i (some { stCall with outcome := some o }) } j r := by
    intro j r hr
    by_cases hij : i = j
    · -- a collected call was complete already
      subst hij
      rcases hr with ⟨hnone, -⟩ | ⟨call, o', hcall', ho', -⟩
      · exact absurd (hcall.symm.trans hnone) nofun
      · obtain rfl := Option.some.inj (Option.some.inj (hcall.symm.trans hcall'))
        exact absurd (hopen.symm.trans ho') nofun
    · rcases hr with ⟨hnone, hskipped⟩ | ⟨call, o', hcall', hrest⟩
      · exact Or.inl ⟨(List.getElem?_set_ne hij).trans hnone, hskipped⟩
      · exact Or.inr ⟨call, o', (List.getElem?_set_ne hij).trans hcall', hrest⟩
  cases h with
  | suspend hcode hclients hunsent => exact absurd hunsent hunsent'
  | pulling hzones hclients hunsent => exact absurd hunsent hunsent'
  | resolved hfailed hcode => exact .resolved (hfailed.congr rfl rfl (List.Subset.refl _) rfl) hcode
  | answered hzones hclients hunsent => exact absurd hunsent hunsent'
  | finishing done vZones hcode hzoned hzones hsplit hrouted hunsent =>
    exact absurd hunsent hunsent'
  | failed hfailed => exact .failed (hfailed.congr rfl rfl (List.Subset.refl _) rfl)
  | sending hstatus hroutes hunsent => exact absurd hunsent hunsent'
  | building vClients hroutes hrest hslot hcalls hreadings hskipped hbuilt hopen =>
    exact .building vClients ⟨hroutes.code, hroutes.zoned, hroutes.zones, hroutes.clients⟩ hrest
      hslot (by rw [List.length_set]; exact hcalls) hreadings hskipped (hbuilt' _ hbuilt) hopen
  | cleaning i => exact .cleaning i
  | collecting vResults hroutes hcalls hbuilt hlength hresults =>
    exact .collecting vResults ⟨hroutes.code, hroutes.zoned, hroutes.zones, hroutes.clients⟩
      (by rw [List.length_set]; exact hcalls) (hbuilt' _ hbuilt)
      (by rw [List.length_set]; exact hlength) (fun j r hj => hcollected' j r (hresults j r hj))
  | failedBatch hfailed => exact .failedBatch (hfailed.congr rfl rfl (List.Subset.refl _) rfl)
  | returned vResults hroutes hcalls hbuilt hlength hresults =>
    exact .returned vResults ⟨hroutes.code, hroutes.zoned, hroutes.zones, hroutes.clients⟩
      (by rw [List.length_set]; exact hcalls) (hbuilt' _ hbuilt)
      (by rw [List.length_set]; exact hlength) (fun j r hj => hcollected' j r (hresults j r hj))
  | thrown => exact .thrown

/-! ## Every step -/

theorem progress_awaitSuspend {b : Batch K} {s : State K Res} (h : Progress b s .suspend) :
    Progress b (awaitSuspend b s) (awaitSuspend b s).place := by
  cases h with
  | suspend hcode hclients hunsent =>
    rw [awaitSuspend]
    split
    · next hzones => exact .resolved (.badName hzones) hcode
    · next vZones hzones =>
        dsimp only
        split
        · next hexpired =>
            exact .resolved (.expired s.pool.now (by simp) hexpired) hcode
        · exact .pulling hzones hclients hunsent

theorem progress_awaitResume {b : Batch K} {s : State K Res} {bResolved : Bool}
    (h : Progress b s (.resume bResolved)) :
    Progress b (awaitResume b s bResolved) (awaitResume b s bResolved).place := by
  rw [awaitResume]
  dsimp only
  split
  · next hlate =>
      rcases hlate with hexpired | hcode
      · exact .failed (.expired s.pool.now (by simp) hexpired)
      · exact .failed (.unanswered hcode)
  · split
    · next hbusy => exact .failed (.answeredBusy hbusy)
    · cases h with
      | resolved hfailed hcode =>
        rw [if_pos rfl]
        exact .failed (hfailed.congr rfl rfl (List.subset_append_left _ _) rfl)
      | answered hzones hclients hunsent =>
        rw [if_neg Bool.false_ne_true]
        split
        · next hcode => exact .failed (.offline hcode)
        · next hcode =>
            split
            · next hglobal => exact .failed (.wrongKind hglobal)
            · next hglobal =>
                refine .finishing [] s.vZoneNames (not_not.1 hcode) (Bool.not_eq_true _ ▸ hglobal)
                  hzones rfl ?_ hunsent
                rw [hclients]
                exact List.Forall₂.nil

theorem progress_sendRouted {b : Batch K} {s : State K Res} (h : Progress b s .sending) :
    Progress b (sendRouted b s) (sendRouted b s).place := by
  rw [sendRouted]
  cases h with
  | failed hfailed =>
    rw [if_pos hfailed.ne_ok]
    exact .failedBatch (hfailed.congr rfl rfl (List.Subset.refl _) rfl)
  | sending hstatus hroutes hunsent =>
    rw [if_neg (not_not.2 hstatus)]
    refine .building s.vClients ⟨hroutes.code, hroutes.zoned, hroutes.zones, hroutes.clients⟩ rfl
      (Nat.zero_le _) ?_ ?_ List.length_replicate nofun (fun i _ hi => ?_)
    · exact congrArg List.length hunsent.1
    · exact congrArg List.length hunsent.2
    · exact List.getElem?_replicate_of_lt hi

omit [Inhabited Res] in
/-- One slot more is built, and the earlier ones stay as they are. -/
theorem built_succ {b : Batch K} {s s' : State K Res} {n : ℕ} {iNow : ℤ}
    {stCall : Option (Call Res)} (h : Built b s n) (hcalls : s.vCalls.length = n)
    (hreadings : s.readings.length = n) (hclients : s'.vClients = s.vClients)
    (hcalls' : s'.vCalls = s.vCalls ++ [stCall]) (hreadings' : s'.readings = s.readings ++ [iNow])
    (hskipped : ∀ i < n, s'.vSkipped[i]? = s.vSkipped[i]?) (hclient : s.vClients[n]? = some pClient)
    (hslot : BuiltSlot b s' n pClient stCall) : Built b s' (n + 1) := by
  intro i hi
  -- the new slot, or one of those before it
  by_cases hin : i = n
  · subst hin
    refine ⟨pClient, stCall, by rw [hclients, hclient], ?_, hslot⟩
    rw [hcalls', ← hcalls, List.getElem?_concat_length]
  · have hlt : i < n := by omega
    obtain ⟨pClient', stCall', hclient', hcall', hslot'⟩ := h i hlt
    have hread : s'.readings[i]? = s.readings[i]? := by
      rw [hreadings', List.getElem?_append_left (by omega)]
    refine ⟨pClient', stCall', by rw [hclients, hclient'], ?_, ?_⟩
    · rw [hcalls', List.getElem?_append_left (by omega), hcall']
    · cases pClient' with
      | none => exact ⟨hslot'.1, (hskipped i hlt).trans hslot'.2⟩
      | some c =>
        cases stCall' with
        | none => exact ⟨(hskipped i hlt).trans hslot'.1, by rw [hread]; exact hslot'.2⟩
        | some stCall' => exact ⟨hslot'.1, by rw [hread]; exact hslot'.2⟩

/-- **A round of the loop over the clients fills its own slot.** -/
theorem progress_buildCall {b : Batch K} {s s' : State K Res} {fault : Option BuildFault}
    (h : Progress b s s.place) (hstep : buildCall b s fault = some s') :
    Progress b s' s'.place := by
  rw [buildCall] at hstep
  split at hstep
  · next hplace =>
      rw [hplace] at h
      cases h with
      | building _ hroutes hrest hslot hcalls hreadings hskipped hbuilt hopen =>
        have hend : s.iSlot = s.vClients.length :=
          Nat.le_antisymm hslot (List.drop_eq_nil_iff.1 hrest.symm)
        rw [hend] at hcalls hbuilt
        rw [← Option.some.inj hstep]
        exact .collecting [] ⟨hroutes.code, hroutes.zoned, hroutes.zones, hroutes.clients⟩ hcalls
          hbuilt (Nat.zero_le _) nofun
  · next pClient vClients hplace =>
      rw [hplace] at h
      cases h with
      | building _ hroutes hrest hslot hcalls hreadings hskipped hbuilt hopen =>
        -- the client under the loop is the one of slot `iSlot`
        have hlt : s.iSlot < s.vClients.length := by
          by_contra hge
          rw [List.drop_eq_nil_of_le (Nat.not_lt.1 hge)] at hrest
          exact absurd hrest nofun
        have hclient : s.vClients[s.iSlot]? = some pClient := by
          rw [← List.head?_drop, ← hrest, List.head?_cons]
        have htail : vClients = s.vClients.drop (s.iSlot + 1) := by
          rw [← List.tail_drop, ← hrest, List.tail_cons]
        have hopen' : ∀ i, s.iSlot + 1 ≤ i → i < s.vClients.length →
            s.vSkipped[i]? = some oiErrConnect := fun i hi => hopen i (by omega)
        dsimp only at hstep
        split at hstep
        · -- no memory for the slot: the handler cleans up
          rw [← Option.some.inj hstep]
          exact .cleaning 0
        · cases pClient with
          | none =>
            rw [← Option.some.inj hstep]
            refine .building vClients
              ⟨hroutes.code, hroutes.zoned, hroutes.zones, hroutes.clients⟩ htail hlt
              (by simp [hcalls]) (by simp [hreadings]) hskipped ?_ hopen'
            exact built_succ hbuilt hcalls hreadings rfl rfl rfl (fun _ _ => rfl) hclient
              ⟨rfl, hopen s.iSlot (le_refl _) hlt⟩
          | some c =>
            dsimp only at hstep
            split at hstep
            · next hexpired =>
                rw [← Option.some.inj hstep]
                refine .building vClients
                  ⟨hroutes.code, hroutes.zoned, hroutes.zones, hroutes.clients⟩ htail hlt
                  (by simp [hcalls]) (by simp [hreadings])
                  (by rw [List.length_set]; exact hskipped) ?_ (fun i hi hi' => ?_)
                · refine built_succ hbuilt hcalls hreadings rfl rfl rfl
                    (fun i hi => List.getElem?_set_ne (Nat.ne_of_gt hi)) hclient ⟨?_, ?_⟩
                  · exact List.getElem?_set_self (by rw [hskipped]; exact hlt)
                  · refine ⟨s.pool.now, ?_, hexpired⟩
                    rw [← hreadings, List.getElem?_concat_length]
                · rw [← hopen' i hi hi']
                  exact List.getElem?_set_ne (Nat.ne_of_lt hi)
            · next hexpired =>
                by_cases hfault : fault = some .submit
                · rw [← Option.some.inj hstep]
                  simp only [hfault, ne_eq, not_true_eq_false, decide_false, if_false]
                  exact .cleaning 0
                · rw [← Option.some.inj hstep]
                  simp only [ne_eq, hfault, not_false_eq_true, decide_true, if_true]
                  refine .building vClients
                    ⟨hroutes.code, hroutes.zoned, hroutes.zones, hroutes.clients⟩ htail hlt
                    (by simp [hcalls]) (by simp [hreadings]) hskipped ?_ hopen'
                  refine built_succ hbuilt hcalls hreadings rfl rfl rfl (fun _ _ => rfl) hclient
                    ⟨rfl, s.pool.now, ?_, Bool.not_eq_true _ ▸ hexpired⟩
                  rw [← hreadings, List.getElem?_concat_length]
  · exact absurd hstep nofun

/-- One result more, for the slot whose turn it is. -/
theorem progress_collected {b : Batch K} {s : State K Res} {vResults : List (ℤ × Res)} {r : ℤ × Res}
    (hroutes : Routes b s) (hcalls : s.vCalls.length = s.vClients.length)
    (hbuilt : Built b s s.vClients.length)
    (hresults : ∀ i r, vResults[i]? = some r → Collected s i r)
    (hlt : vResults.length < s.vCalls.length) (hr : Collected s vResults.length r) :
    Progress b { s with place := .collecting (vResults ++ [r]) } (.collecting (vResults ++ [r])) := by
  refine .collecting (vResults ++ [r])
    ⟨hroutes.code, hroutes.zoned, hroutes.zones, hroutes.clients⟩ hcalls hbuilt ?_ (fun i x hi => ?_)
  · rw [List.length_append, List.length_singleton]
    exact hlt
  · by_cases hin : i < vResults.length
    · rw [List.getElem?_append_left hin] at hi
      exact hresults i x hi
    · have hlast : i = vResults.length := by
        have hlen := (List.getElem?_eq_some_iff.1 hi).1
        rw [List.length_append, List.length_singleton] at hlen
        omega
      subst hlast
      rw [List.getElem?_concat_length] at hi
      exact Option.some.inj hi ▸ hr

/-- **A round of the loop over the calls appends the result of its own slot.** -/
theorem progress_collectCall {b : Batch K} {s s' : State K Res} (h : Progress b s s.place)
    (hstep : collectCall s = some s') : Progress b s' s'.place := by
  rw [collectCall] at hstep
  split at hstep
  · next vResults hplace =>
      rw [hplace] at h
      cases h with
      | collecting _ hroutes hcalls hbuilt hlength hresults =>
        split at hstep
        · next hnone =>
            rw [← Option.some.inj hstep]
            exact .returned vResults ⟨hroutes.code, hroutes.zoned, hroutes.zones, hroutes.clients⟩
              hcalls hbuilt (Nat.le_antisymm hlength (List.getElem?_eq_none_iff.1 hnone)) hresults
        · next hnone =>
            have hlt := (List.getElem?_eq_some_iff.1 hnone).1
            obtain ⟨iCode, hcode, rfl⟩ := Option.map_eq_some_iff.1 hstep
            exact progress_collected hroutes hcalls hbuilt hresults hlt
              (Or.inl ⟨hnone, iCode, hcode, rfl⟩)
        · next stCall hcall =>
            have hlt := (List.getElem?_eq_some_iff.1 hcall).1
            obtain ⟨o, ho, rfl⟩ := Option.map_eq_some_iff.1 hstep
            cases o with
            | result iCode stResponse | stdException =>
              exact progress_collected hroutes hcalls hbuilt hresults hlt
                (Or.inr ⟨stCall, _, hcall, ho, rfl⟩)
            | otherException => exact .thrown
  · exact absurd hstep nofun

variable [LinearOrder K]

/-- The invariant: the pool is well formed, and the coroutine is where its variables say. -/
structure Inv (cfg : RoutePool.Config) (b : Batch K) (s : State K Res) : Prop where
  wf : RoutePool.Wf cfg s.pool
  keyed : Keyed s.made s.pool
  progress : Progress b s s.place

theorem inv_start (cfg : RoutePool.Config) (b : Batch K) (now : ℤ) (made : ℕ → K) :
    Inv cfg b (start now made : State K Res) where
  wf := RoutePool.wf_init cfg now
  keyed := nofun
  progress := .suspend rfl rfl ⟨rfl, rfl⟩

variable {cfg : RoutePool.Config}

/-- What other threads do to the pool, the clock included. -/
theorem inv_pool {b : Batch K} {s s' : State K Res} {e : RoutePool.Event K} (h : Inv cfg b s)
    (hstep : poolStep cfg s e = some s') : Inv cfg b s' := by
  obtain ⟨pool, hpool, rfl⟩ := Option.map_eq_some_iff.1 hstep
  obtain ⟨hkeyed, hcreated, hmade⟩ := keyed_step h.wf h.keyed hpool
  exact ⟨RoutePool.wf_step h.wf hpool, hkeyed, progress_pool hcreated hmade h.progress⟩

/-- **A round of `FinishZones` chooses the client of its own zone.** -/
theorem inv_finishZone {b : Batch K} {s s' : State K Res} {stop : Bool} (h : Inv cfg b s)
    (hstep : finishZone cfg b s stop = some s') : Inv cfg b s' := by
  have hprogress := h.progress
  rw [finishZone] at hstep
  split at hstep
  · next hplace =>
      rw [hplace] at hprogress
      cases hprogress with
      | finishing done _ hcode hzoned hzones hsplit hrouted hunsent =>
        rw [List.append_nil] at hsplit
        rw [← Option.some.inj hstep]
        exact ⟨h.wf, h.keyed,
          .sending rfl ⟨hcode, hzoned, hzones, hsplit ▸ hrouted⟩ hunsent⟩
  · next sZone vZones hplace =>
      rw [hplace] at hprogress
      cases hprogress with
      | finishing done _ hcode hzoned hzones hsplit hrouted hunsent =>
        have hsplit' : s.vZoneNames = (done ++ [sZone]) ++ vZones := by
          rw [hsplit, List.append_assoc, List.singleton_append]
        cases hbest : bestOf b.sName sZone s.vList with
        | none =>
          rw [hbest] at hstep
          rw [← Option.some.inj hstep]
          refine ⟨h.wf, h.keyed, .finishing (done ++ [sZone]) vZones hcode hzoned hzones hsplit'
            (List.rel_append hrouted (.cons ?_ .nil)) hunsent⟩
          exact bestOf_none hbest
        | some best =>
          rw [hbest] at hstep
          obtain ⟨s₁, hpool, rfl⟩ := Option.map_eq_some_iff.1 hstep
          have h₁ := inv_pool h hpool
          obtain ⟨pool, hclient, rfl⟩ := Option.map_eq_some_iff.1 hpool
          obtain ⟨-, hcreated, hmade⟩ := keyed_step h.wf h.keyed hclient
          cases hlease : leaseOf cfg s.pool (b.stKey best.ip best.port) stop with
          | none => exact ⟨h₁.wf, h₁.keyed, .failed (.refused rfl)⟩
          | some c =>
            have hfor : pool =
                RoutePool.clientFor cfg s.pool (b.stKey best.ip best.port) stop := by
              rw [RoutePool.step] at hclient
              split at hclient
              · cases hclient
              · exact (Option.some.inj hclient).symm
            obtain ⟨hlt, hkey⟩ := leaseOf_made h.wf h.keyed hlease
            rw [← hfor] at hlt hkey
            refine ⟨h₁.wf, h₁.keyed,
              .finishing (done ++ [sZone]) vZones hcode hzoned hzones hsplit'
                (List.rel_append (hrouted.imp fun _ _ hr => ?_) (.cons ?_ .nil)) hunsent⟩
            · -- the clients chosen before stay, since no connection is renamed
              exact routed_pool hcreated hmade hr
            · exact ⟨hlt, best, bestOf_some hbest, hkey⟩
  · cases hstep

/-- A step of the coroutine that leaves the pool alone. -/
theorem Inv.same {b : Batch K} {s s' : State K Res} (h : Inv cfg b s)
    (hpool : s'.pool = s.pool ∧ s'.made = s.made) (hprogress : Progress b s' s'.place) :
    Inv cfg b s' where
  wf := by
    rw [hpool.1]
    exact h.wf
  keyed := by
    rw [hpool.1, hpool.2]
    exact h.keyed
  progress := hprogress

omit [LinearOrder K] [Inhabited Res] in
theorem awaitSuspend_pool (b : Batch K) (s : State K Res) :
    (awaitSuspend b s).pool = s.pool ∧ (awaitSuspend b s).made = s.made := by
  rw [awaitSuspend]
  split
  · exact ⟨rfl, rfl⟩
  · dsimp only
    split <;> exact ⟨rfl, rfl⟩

omit [LinearOrder K] [Inhabited Res] in
theorem awaitResume_pool (b : Batch K) (s : State K Res) (bResolved : Bool) :
    (awaitResume b s bResolved).pool = s.pool ∧ (awaitResume b s bResolved).made = s.made := by
  rw [awaitResume]
  dsimp only
  split_ifs <;> exact ⟨rfl, rfl⟩

omit [LinearOrder K] in
theorem sendRouted_pool (b : Batch K) (s : State K Res) :
    (sendRouted b s).pool = s.pool ∧ (sendRouted b s).made = s.made := by
  rw [sendRouted]
  split <;> exact ⟨rfl, rfl⟩

omit [LinearOrder K] [Inhabited Res] in
theorem buildCall_pool {b : Batch K} {s s' : State K Res} {fault : Option BuildFault}
    (h : buildCall b s fault = some s') : s'.pool = s.pool ∧ s'.made = s.made := by
  rw [buildCall] at h
  dsimp only at h
  split at h
  · exact Option.some.inj h ▸ ⟨rfl, rfl⟩
  · split at h
    · exact Option.some.inj h ▸ ⟨rfl, rfl⟩
    · split at h
      · exact Option.some.inj h ▸ ⟨rfl, rfl⟩
      · split at h <;> exact Option.some.inj h ▸ ⟨rfl, rfl⟩
  · exact absurd h nofun

omit [LinearOrder K] in
theorem collectCall_pool {s s' : State K Res} (h : collectCall s = some s') :
    s'.pool = s.pool ∧ s'.made = s.made := by
  rw [collectCall] at h
  split at h
  · split at h
    · exact Option.some.inj h ▸ ⟨rfl, rfl⟩
    · obtain ⟨iCode, -, rfl⟩ := Option.map_eq_some_iff.1 h
      exact ⟨rfl, rfl⟩
    · obtain ⟨o, -, rfl⟩ := Option.map_eq_some_iff.1 h
      cases o <;> exact ⟨rfl, rfl⟩
  · exact absurd h nofun

theorem inv_step {b : Batch K} {s s' : State K Res} {e : Event K Res} (h : Inv cfg b s)
    (hstep : step cfg b s e = some s') : Inv cfg b s' := by
  have hprogress := h.progress
  cases e with
  | suspend =>
    rw [step] at hstep
    split at hstep
    · next hplace =>
        rw [hplace] at hprogress
        rw [← Option.some.inj hstep]
        exact h.same (awaitSuspend_pool b s) (progress_awaitSuspend hprogress)
    · exact absurd hstep nofun
  | answer iCode vList =>
    rw [step] at hstep
    split at hstep
    · next hplace =>
        rw [hplace] at hprogress
        rw [← Option.some.inj hstep]
        cases hprogress with
        | pulling hzones hclients hunsent =>
          exact ⟨h.wf, h.keyed, .answered hzones hclients hunsent⟩
    · exact absurd hstep nofun
  | resume =>
    rw [step] at hstep
    split at hstep
    · next bResolved hplace =>
        rw [hplace] at hprogress
        rw [← Option.some.inj hstep]
        exact h.same (awaitResume_pool b s bResolved) (progress_awaitResume hprogress)
    · exact absurd hstep nofun
  | finishZone stop => exact inv_finishZone h hstep
  | throwRoute =>
    rw [step] at hstep
    split at hstep
    · exact Option.some.inj hstep ▸ ⟨h.wf, h.keyed, .thrown⟩
    · exact Option.some.inj hstep ▸ ⟨h.wf, h.keyed, .thrown⟩
    · exact Option.some.inj hstep ▸ ⟨h.wf, h.keyed, .thrown⟩
    · exact Option.some.inj hstep ▸ ⟨h.wf, h.keyed, .thrown⟩
    · exact absurd hstep nofun
  | send =>
    rw [step] at hstep
    split at hstep
    · next hplace =>
        rw [hplace] at hprogress
        rw [← Option.some.inj hstep]
        exact h.same (sendRouted_pool b s) (progress_sendRouted hprogress)
    · exact absurd hstep nofun
  | build fault => exact h.same (buildCall_pool hstep) (progress_buildCall hprogress hstep)
  | complete i o =>
    rw [step, completeCall] at hstep
    split at hstep
    · next stCall hcall =>
        obtain ⟨hopen, hs⟩ := Option.ite_none_right_eq_some.1 hstep
        rw [← Option.some.inj hs]
        exact ⟨h.wf, h.keyed, progress_complete o hcall hopen.2 hprogress⟩
    · exact absurd hstep nofun
  | collect => exact h.same (collectCall_pool hstep) (progress_collectCall hprogress hstep)
  | clean =>
    rw [step, cleanCall] at hstep
    split at hstep
    · split at hstep
      · exact Option.some.inj hstep ▸ ⟨h.wf, h.keyed, .thrown⟩
      · exact Option.some.inj hstep ▸ ⟨h.wf, h.keyed, .cleaning _⟩
      · obtain ⟨o, -, rfl⟩ := Option.map_eq_some_iff.1 hstep
        exact ⟨h.wf, h.keyed, .cleaning _⟩
    · exact absurd hstep nofun
  | pool e => exact inv_pool h hstep

/-- **The invariant holds in every state of every run.** -/
theorem inv_run {b : Batch K} {now : ℤ} {made : ℕ → K} {events : List (Event K Res)}
    {s : State K Res} (hrun : runFrom (step cfg b) (start now made) events = some s) :
    Inv cfg b s :=
  runFrom_invariant (fun _ _ _ h hstep => inv_step h hstep) (inv_start cfg b now made) hrun

/-! ## The results -/

/-- The result of a slot for a zone. -/
inductive SlotResult (b : Batch K) (s : State K Res) (i : ℕ) (sZone : Text) (r : ℤ × Res) : Prop
  /-- the zone has no instance -/
  | noInstance (h : ∀ x ∈ s.vList, ¬ Registered b.sName sZone x) (hcall : s.vCalls[i]? = some none)
      (hr : r = (oiErrConnect, default))
  /-- the deadline had passed when it was the call's turn, and it was not sent -/
  | late (best : Instance) (hbest : IsBest b.sName sZone s.vList best) (iNow : ℤ)
      (hnow : s.readings[i]? = some iNow) (hexpired : b.stDeadline.expired iNow = true)
      (hcall : s.vCalls[i]? = some none) (hr : r = (oiErrTimeout, default))
  /-- the call was sent in time to the instance with the smallest id, and gave this -/
  | outcome (best : Instance) (hbest : IsBest b.sName sZone s.vList best) (stCall : Call Res)
      (o : Outcome Res) (iNow : ℤ) (hnow : s.readings[i]? = some iNow)
      (hexpired : b.stDeadline.expired iNow = false) (hcall : s.vCalls[i]? = some (some stCall))
      (hclient : s.made stCall.client = b.stKey best.ip best.port)
      (houtcome : stCall.outcome = some o) (hr : o.toResult = some r)

omit [LinearOrder K] in
/-- A slot that is routed, built and collected. -/
theorem slotResult_of {b : Batch K} {s : State K Res} {i : ℕ} {sZone : Text}
    {stCall : Option (Call Res)} {r : ℤ × Res} (hrouted : Routed b s sZone pClient)
    (hcall : s.vCalls[i]? = some stCall) (hslot : BuiltSlot b s i pClient stCall)
    (hr : Collected s i r) : SlotResult b s i sZone r := by
  cases pClient with
  | none =>
    obtain ⟨rfl, hskipped⟩ := hslot
    rcases hr with ⟨-, iCode, hcode, rfl⟩ | ⟨call, o, hcall', -⟩
    · obtain rfl := Option.some.inj (hcode.symm.trans hskipped)
      exact .noInstance hrouted hcall rfl
    · exact absurd (hcall.symm.trans hcall') nofun
  | some c =>
    obtain ⟨-, best, hbest, hmade⟩ := hrouted
    cases stCall with
    | none =>
      obtain ⟨hskipped, iNow, hnow, hexpired⟩ := hslot
      rcases hr with ⟨-, iCode, hcode, rfl⟩ | ⟨call, o, hcall', -⟩
      · obtain rfl := Option.some.inj (hcode.symm.trans hskipped)
        exact .late best hbest iNow hnow hexpired hcall rfl
      · exact absurd (hcall.symm.trans hcall') nofun
    | some stCall =>
      obtain ⟨rfl, iNow, hnow, hexpired⟩ := hslot
      rcases hr with ⟨hnone, -⟩ | ⟨call, o, hcall', houtcome, hresult⟩
      · exact absurd (hcall.symm.trans hnone) nofun
      · obtain rfl := Option.some.inj (Option.some.inj (hcall.symm.trans hcall'))
        exact .outcome best hbest stCall o iNow hnow hexpired hcall hmade houtcome hresult

/-- **`CallMany` keeps the caller's slots.** -/
theorem callMany_slots {cfg : RoutePool.Config} {b : Batch K} {now : ℤ} {made : ℕ → K}
    {events : List (Event K Res)} {s : State K Res} {vResults : List (ℤ × Res)}
    (hrun : runFrom (step cfg b) (start now made) events = some s)
    (hreturned : s.place = .returned vResults) :
    vResults.length = b.vZoneIds.length ∧
    ((∃ iStatus, RoutingFailed b s iStatus ∧
        vResults = List.replicate b.vZoneIds.length (routeError iStatus, default)) ∨
      (s.iCode = oiOk ∧ ∀ i iZoneId r, b.vZoneIds[i]? = some iZoneId → vResults[i]? = some r →
        SlotResult b s i (zoneName iZoneId) r)) := by
  have hprogress := (inv_run hrun).progress
  rw [hreturned] at hprogress
  cases hprogress with
  | failedBatch hfailed => exact ⟨List.length_replicate, Or.inl ⟨s.iStatus, hfailed, rfl⟩⟩
  | returned _ hroutes hcalls hbuilt hlength hresults =>
      have hzones := prepareZones_eq hroutes.zones
      have hclients := hroutes.clients.length_eq
      rw [hzones, List.length_map] at hclients
      refine ⟨by rw [hlength, hcalls, ← hclients], Or.inr ⟨hroutes.code, ?_⟩⟩
      intro i iZoneId r hzone hr
      have hlt : i < s.vClients.length := by
        rw [← hcalls, ← hlength]
        exact (List.getElem?_eq_some_iff.1 hr).1
      obtain ⟨pClient, stCall, hclient, hcall, hslot⟩ := hbuilt i hlt
      -- the zone at place `i` is the one whose client is at place `i`
      have hrouted : Routed b s (zoneName iZoneId) pClient := by
        obtain ⟨hi, hget⟩ := List.getElem?_eq_some_iff.1 hclient
        obtain ⟨hj, hzget⟩ := List.getElem?_eq_some_iff.1 hzone
        have hall := (List.forall₂_iff_get.1 hroutes.clients).2
        have hi' : i < s.vZoneNames.length := by
          rw [hzones, List.length_map]
          exact hj
        have hat := hall i hi' hi
        simp only [List.get_eq_getElem, hget] at hat
        have hname : s.vZoneNames[i] = zoneName iZoneId := by
          simp only [hzones, List.getElem_map, hzget]
        rw [hname] at hat
        exact hat
      exact slotResult_of hrouted hcall hslot (hresults i r hr)

end Slots

/-! ## A run -/

/-- Zones 1, 2 and 1 again; zone 2 has no instance. -/
def twiceAndMissing : Batch ℕ where
  sName := ['s', 'v', 'c']
  vZoneIds := [1, 2, 1]
  stDeadline := ⟨100⟩
  stKey := fun ip _ => ip.length

/-- Two instances of zone 1, the one with the larger id first. -/
def zoneOne : List Instance :=
  [⟨['s', 'v', 'c'], 5, ['b', 'b'], ['8'], ['1']⟩, ⟨['s', 'v', 'c'], 3, ['a'], ['8'], ['1']⟩]

/-- The first call is sent, the deadline passes, the reply comes; the last call is not sent. -/
def lateForTheLast : List (Event ℕ ℕ) :=
  [.suspend, .answer 0 zoneOne, .resume, .finishZone false, .finishZone false, .finishZone false,
    .finishZone false, .send, .build none, .build none, .pool (.tick 200), .build none, .build none,
    .complete 0 (.result 0 7), .collect, .collect, .collect, .collect]

/-- A zone given twice, a zone without an instance and a call that comes too late. -/
theorem callMany_slots_lateForTheLast : ∃ s,
    runFrom (step RoutePool.defaults twiceAndMissing) (start 0 fun _ => 0) lateForTheLast = some s ∧
    s.place = .returned [(0, 7), (oiErrConnect, 0), (oiErrTimeout, 0)] ∧
    ((∃ iStatus, RoutingFailed twiceAndMissing s iStatus ∧
        [((0 : ℤ), 7), (oiErrConnect, 0), (oiErrTimeout, 0)] =
          List.replicate 3 (routeError iStatus, 0)) ∨
      (s.iCode = oiOk ∧ ∀ i iZoneId r, twiceAndMissing.vZoneIds[i]? = some iZoneId →
        [(0, 7), (oiErrConnect, 0), (oiErrTimeout, 0)][i]? = some r →
          SlotResult twiceAndMissing s i (zoneName iZoneId) r)) := by
  have hruns : ((runFrom (step RoutePool.defaults twiceAndMissing) (start 0 fun _ => 0)
      lateForTheLast).map fun s => match s.place with
        | .returned vResults => decide (vResults = [(0, 7), (oiErrConnect, 0), (oiErrTimeout, 0)])
        | _ => false) = some true := by decide +kernel
  obtain ⟨s, hrun, hplace⟩ := Option.map_eq_some_iff.1 hruns
  have hreturned : s.place = .returned [(0, 7), (oiErrConnect, 0), (oiErrTimeout, 0)] := by
    split at hplace
    · next vResults hat => rw [hat, of_decide_eq_true hplace]
    · exact absurd hplace nofun
  exact ⟨s, hrun, hreturned, (callMany_slots hrun hreturned).2⟩

end OpenIdea.Rpc.CallMany
