import Mathlib.Data.Char
import Mathlib.Data.List.Lex
import Mathlib.Data.List.Sort
import Mathlib.Data.Prod.Lex
import OpenIdea.Rpc.CallManySlots

/-!
# One zone and many zones (oi_rpc_route.cpp, oi_rpc_coro.h)

`CallNamed` asks one instance of a service, `CallMany` one in each zone of a list. Both wait for the
registry's list of instances and pick from it with code of their own: `FinishRoute` filters the list
and sorts what is left, `FinishZones` looks for the smallest id of each zone. `finishRoute_zone` and
`finishZones_single` bring both to one form.

Both run from the list to the route without giving way; the pool lock is free whenever `ClientFor`
is inside. What other threads do to the pool between two clients of one route is left out.
-/

set_option autoImplicit false

namespace OpenIdea.Rpc.CallMany

open OpenIdea.Lib
open OpenIdea.Registry (Text Instance)

/-! ## The pool -/

/-- The pool while nobody holds its lock, with the key each connection was constructed for. -/
structure Pool (cfg : RoutePool.Config) (K : Type) [LinearOrder K] where
  state : RoutePool.State K
  made : ℕ → K
  wf : RoutePool.Wf cfg state
  keyed : Keyed made state
  unlocked : ∀ bStop iNow rest vRetired, state.sweep ≠ .scanning bStop iNow rest vRetired

section Pool

variable {cfg : RoutePool.Config} {K : Type} [LinearOrder K]

theorem Pool.step_clientFor (P : Pool cfg K) (stKey : K) (stopRequested : Bool) :
    RoutePool.step cfg P.state (.clientFor stKey stopRequested) =
      some (RoutePool.clientFor cfg P.state stKey stopRequested) := by
  rw [RoutePool.step]
  split
  · rename_i bStop iNow rest vRetired hsweep
    exact absurd hsweep (P.unlocked bStop iNow rest vRetired)
  · rfl

/-- `ClientFor`. -/
def Pool.clientFor (P : Pool cfg K) (stKey : K) (stopRequested : Bool) : Pool cfg K where
  state := RoutePool.clientFor cfg P.state stKey stopRequested
  made := madeAfter P.made P.state (RoutePool.clientFor cfg P.state stKey stopRequested)
    (.clientFor stKey stopRequested)
  wf := RoutePool.wf_step P.wf (P.step_clientFor stKey stopRequested)
  keyed := keyed_clientFor P.wf P.keyed stKey stopRequested
  unlocked := fun bStop iNow rest vRetired => by
    rw [(RoutePool.clientFor_frame cfg P.state stKey stopRequested).1]
    exact P.unlocked bStop iNow rest vRetired

/-- What routes share: the pool, and the `iCursor` of `FinishRoute`. -/
structure Routing (cfg : RoutePool.Config) (K : Type) [LinearOrder K] where
  pool : Pool cfg K
  iCursor : UInt32

end Pool

/-! ## Routes -/

/-- `ServicePick`. -/
inductive ServicePick
  | any
  | zone
  | all
  deriving DecidableEq, Repr

/-- `ServiceRoute`; `vOwners` owns what `vClients` points to. -/
structure ServiceRoute where
  iStatus : ServiceRouteStatus := .offline
  vClients : List (Option ℕ) := []
  deriving DecidableEq, Repr

/-- What the first loop of `FinishRoute` collects. -/
structure Matches where
  bGlobal : Bool := false
  bZoned : Bool := false
  vMatched : List Instance := []

/-- One round of the first loop of `FinishRoute`. -/
def Matches.add (sName : Text) (iPick : ServicePick) (sZone : Text) (m : Matches)
    (stInst : Instance) : Matches :=
  if stInst.name ≠ sName then m
  else
    let m := if stInst.zone.isEmpty then { m with bGlobal := true } else { m with bZoned := true }
    if iPick = .zone then
      if stInst.zone = sZone then { m with vMatched := m.vMatched ++ [stInst] } else m
    else { m with vMatched := m.vMatched ++ [stInst] }

/-- `std::sort` by id. It may leave instances with one id in any order. -/
structure SortById where
  run : List Instance → List Instance
  perm : ∀ l, (run l).Perm l
  sorted : ∀ l, (run l).Pairwise fun a b => a.id ≤ b.id

/-- One of them. -/
def sortById : SortById where
  run := List.insertionSort fun a b => a.id ≤ b.id
  perm := List.perm_insertionSort _
  sorted := by
    have : Std.Total fun a b : Instance => a.id ≤ b.id := ⟨fun a b => le_total a.id b.id⟩
    have : IsTrans Instance fun a b => a.id ≤ b.id := ⟨fun _ _ _ => le_trans⟩
    exact List.pairwise_insertionSort _

section Route

variable {cfg : RoutePool.Config} {K : Type} [LinearOrder K]

-- the key of an address, with the policy of the manager in it
variable (stKey : Text → Text → K)

-- `StopRequested` when the `i`-th client of the route is asked for
variable (stopRequested : ℕ → Bool)

/-- `AddRouteClient`; false where the pool gives no connection. -/
def addRouteClient (S : Routing cfg K) (stRoute : ServiceRoute) (sIp sPort : Text) :
    Routing cfg K × ServiceRoute × Bool :=
  let stop := stopRequested stRoute.vClients.length
  let S' := { S with pool := S.pool.clientFor (stKey sIp sPort) stop }
  match leaseOf cfg S.pool.state (stKey sIp sPort) stop with
  | none => (S', { iStatus := .busy, vClients := [] }, false)
  | some c => (S', { stRoute with vClients := stRoute.vClients ++ [some c] }, true)

/-- The loop of `FinishRoute` over all instances. -/
def addAll (S : Routing cfg K) (stRoute : ServiceRoute) :
    List Instance → Routing cfg K × ServiceRoute
  | [] => (S, { stRoute with iStatus := .ok })
  | stInst :: vMatched =>
      match addRouteClient stKey stopRequested S stRoute stInst.ip stInst.port with
      | (S', stRoute', true) => addAll S' stRoute' vMatched
      | (S', stRoute', false) => (S', stRoute')

/-- `FinishRoute`. -/
def finishRoute (sort : SortById) (S : Routing cfg K) (sName : Text) (iPick : ServicePick)
    (sZone : Text) (iCode : ℤ) (vList : List Instance) : Routing cfg K × ServiceRoute :=
  if iCode ≠ oiOk then (S, { iStatus := .offline })
  else
    let m := vList.foldl (Matches.add sName iPick sZone) {}
    if m.bGlobal && m.bZoned then (S, { iStatus := .wrongKind })
    else if iPick = .zone ∧ m.bGlobal then (S, { iStatus := .wrongKind })
    else if m.vMatched.isEmpty then (S, { iStatus := .offline })
    else
      let vMatched := sort.run m.vMatched
      if iPick = .all then addAll stKey stopRequested S {} vMatched
      else
        let draws := iPick = .any ∧ vMatched.length > 1
        let iPicked := if draws then S.iCursor.toNat % vMatched.length else 0
        let S := if draws then { S with iCursor := S.iCursor + 1 } else S
        match vMatched[iPicked]? with
        | some stInst =>
            match addRouteClient stKey stopRequested S {} stInst.ip stInst.port with
            | (S', stRoute, true) => (S', { stRoute with iStatus := .ok })
            | (S', stRoute, false) => (S', stRoute)
        -- not reached: the index is in range
        | none => (S, {})

/-- The loop of `FinishZones`. -/
def addZones (S : Routing cfg K) (stRoute : ServiceRoute) (sName : Text) (vList : List Instance) :
    List Text → Routing cfg K × ServiceRoute
  | [] => (S, { stRoute with iStatus := .ok })
  | sZone :: vZones =>
      match bestOf sName sZone vList with
      | none => addZones S { stRoute with vClients := stRoute.vClients ++ [none] } sName vList vZones
      | some best =>
          match addRouteClient stKey stopRequested S stRoute best.ip best.port with
          | (S', stRoute', true) => addZones S' stRoute' sName vList vZones
          | (S', stRoute', false) => (S', stRoute')

/-- `FinishZones`. -/
def finishZones (S : Routing cfg K) (sName : Text) (vZones : List Text) (iCode : ℤ)
    (vList : List Instance) : Routing cfg K × ServiceRoute :=
  if iCode ≠ oiOk then (S, { iStatus := .offline })
  else if hasGlobal sName vList then (S, { iStatus := .wrongKind })
  else addZones stKey stopRequested S {} sName vList vZones

end Route

/-- What `CallNamed` makes of its route: the connection it calls, or the code it returns. -/
def namedOutcome (stRoute : ServiceRoute) : Except ℤ ℕ :=
  if stRoute.iStatus ≠ .ok then .error (routeError stRoute.iStatus)
  else
    match stRoute.vClients with
    | [some c] => .ok c
    | _ => .error (routeError stRoute.iStatus)

/-- What `SendRouted` makes of its route, slot by slot. -/
def routedOutcomes (stRoute : ServiceRoute) (iFailureCount : ℕ) : List (Except ℤ ℕ) :=
  if stRoute.iStatus ≠ .ok then
    List.replicate iFailureCount (.error (routeError stRoute.iStatus))
  else
    stRoute.vClients.map fun pClient =>
      match pClient with
      | some c => .ok c
      | none => .error oiErrConnect

/-! ## The instance of a zone -/

/-- Two instances of a service with one id are one instance. -/
def OnePerId (vList : List Instance) : Prop :=
  ∀ x ∈ vList, ∀ y ∈ vList, x.name = y.name → x.id = y.id → x = y

instance (vList : List Instance) : Decidable (OnePerId vList) :=
  inferInstanceAs (Decidable (∀ x ∈ vList, ∀ y ∈ vList, _))

variable {sName sZone : Text} {vList : List Instance} {x : Instance}

theorem IsBest.unique (hone : OnePerId vList) {y : Instance} (hx : IsBest sName sZone vList x)
    (hy : IsBest sName sZone vList y) : x = y := by
  refine hone x hx.mem y hy.mem (hx.registered.1.trans hy.registered.1.symm) ?_
  exact le_antisymm (hx.least y hy.mem hy.registered) (hy.least x hx.mem hx.registered)

theorem IsBest.bestOf_eq (hone : OnePerId vList) (hx : IsBest sName sZone vList x) :
    bestOf sName sZone vList = some x := by
  cases hbest : bestOf sName sZone vList with
  | none => exact absurd hx.registered (bestOf_none hbest x hx.mem)
  | some best => rw [(bestOf_some hbest).unique hone hx]

/-- One round, with the zone given. -/
theorem add_zone (sName sZone : Text) (m : Matches) (x : Instance) :
    (m.add sName .zone sZone x).bGlobal =
        (m.bGlobal || (decide (x.name = sName) && x.zone.isEmpty)) ∧
      (m.add sName .zone sZone x).vMatched =
        m.vMatched ++ if Registered sName sZone x then [x] else [] := by
  by_cases hname : x.name = sName
  · rw [Matches.add, if_neg (not_not_intro hname), decide_eq_true hname, Bool.true_and]
    by_cases hzone : x.zone = sZone
    · rw [if_pos (show Registered sName sZone x from ⟨hname, hzone⟩)]
      cases hempty : x.zone.isEmpty <;> simp [hzone]
    · rw [if_neg (show ¬ Registered sName sZone x from fun hx => hzone hx.2)]
      cases hempty : x.zone.isEmpty <;> simp [hzone]
  · rw [Matches.add, if_pos hname, decide_eq_false hname, Bool.false_and, Bool.or_false,
      if_neg (show ¬ Registered sName sZone x from fun hx => hname hx.1), List.append_nil]
    exact ⟨rfl, rfl⟩

/-- With the zone given, the first loop of `FinishRoute` keeps the instances registered in it. -/
theorem foldl_add_zone (sName sZone : Text) (vList : List Instance) (m : Matches) :
    (vList.foldl (Matches.add sName .zone sZone) m).bGlobal =
        (m.bGlobal || hasGlobal sName vList) ∧
      (vList.foldl (Matches.add sName .zone sZone) m).vMatched =
        m.vMatched ++ vList.filter fun x => decide (Registered sName sZone x) := by
  induction vList generalizing m with
  | nil =>
    constructor
    · exact (Bool.or_false _).symm
    · exact (List.append_nil _).symm
  | cons x vList ih =>
    obtain ⟨hglobal, hmatched⟩ := ih (m.add sName .zone sZone x)
    obtain ⟨hglobal₁, hmatched₁⟩ := add_zone sName sZone m x
    rw [List.foldl_cons, hglobal, hmatched, hglobal₁, hmatched₁, Bool.or_assoc,
      List.append_assoc, List.filter_cons]
    refine ⟨rfl, ?_⟩
    by_cases hx : Registered sName sZone x
    · rw [if_pos hx, decide_eq_true hx]
      rfl
    · rw [if_neg hx, decide_eq_false hx]
      rfl

/-- The first of the instances sorted is the one with the smallest id. -/
theorem SortById.head_isBest (sort : SortById) {rest : List Instance}
    (h : sort.run (vList.filter fun x => decide (Registered sName sZone x)) = x :: rest) :
    IsBest sName sZone vList x := by
  have hmem : ∀ y, y ∈ x :: rest ↔ y ∈ vList ∧ Registered sName sZone y := by
    intro y
    rw [← h, (sort.perm _).mem_iff, List.mem_filter, decide_eq_true_eq]
  have hsorted := sort.sorted (vList.filter fun x => decide (Registered sName sZone x))
  rw [h, List.pairwise_cons] at hsorted
  obtain ⟨hin, hreg⟩ := (hmem x).1 List.mem_cons_self
  refine ⟨hin, hreg, fun y hy hyreg => ?_⟩
  rcases List.mem_cons.1 ((hmem y).2 ⟨hy, hyreg⟩) with rfl | hrest
  · exact le_refl _
  · exact hsorted.1 y hrest

/-! ## Both ways to one route -/

section Agree

variable {cfg : RoutePool.Config} {K : Type} [LinearOrder K]
variable (stKey : Text → Text → K) (stopRequested : ℕ → Bool)

/-- The route to one instance. -/
def routeTo (S : Routing cfg K) (stInst : Instance) : Routing cfg K × ServiceRoute :=
  match addRouteClient stKey stopRequested S {} stInst.ip stInst.port with
  | (S', stRoute, true) => (S', { stRoute with iStatus := .ok })
  | (S', stRoute, false) => (S', stRoute)

/-- The pool has refused, or gives a connection to the address of the instance. -/
theorem routeTo_cases (S : Routing cfg K) (stInst : Instance) :
    (routeTo stKey stopRequested S stInst).2 = { iStatus := .busy, vClients := [] } ∨
      ∃ c, (routeTo stKey stopRequested S stInst).2 = { iStatus := .ok, vClients := [some c] } ∧
        (routeTo stKey stopRequested S stInst).1.pool.made c = stKey stInst.ip stInst.port := by
  rw [routeTo, addRouteClient]
  cases hlease : leaseOf cfg S.pool.state (stKey stInst.ip stInst.port) (stopRequested 0) with
  | none => exact Or.inl rfl
  | some c => exact Or.inr ⟨c, rfl, (leaseOf_made S.pool.wf S.pool.keyed hlease).2⟩

theorem finishRoute_zone (sort : SortById) (S : Routing cfg K) {sName sZone : Text} {iCode : ℤ}
    {vList : List Instance} (hone : OnePerId vList) :
    finishRoute stKey stopRequested sort S sName .zone sZone iCode vList =
      if iCode ≠ oiOk then (S, { iStatus := .offline })
      else if hasGlobal sName vList then (S, { iStatus := .wrongKind })
      else
        match bestOf sName sZone vList with
        | none => (S, { iStatus := .offline })
        | some best => routeTo stKey stopRequested S best := by
  obtain ⟨hglobal, hmatched⟩ := foldl_add_zone sName sZone vList {}
  rw [Bool.false_or] at hglobal
  rw [List.nil_append] at hmatched
  rw [finishRoute]
  split
  · rfl
  · dsimp only
    rw [hglobal, hmatched]
    cases hkind : hasGlobal sName vList with
    | true =>
      rw [if_pos rfl]
      split
      · rfl
      · rw [if_pos ⟨rfl, rfl⟩]
    | false =>
      rw [Bool.false_and, if_neg Bool.false_ne_true, if_neg fun h => Bool.false_ne_true h.2,
        if_neg Bool.false_ne_true]
      cases hsorted : sort.run (vList.filter fun x => decide (Registered sName sZone x)) with
      | nil =>
        have hempty : vList.filter (fun x => decide (Registered sName sZone x)) = [] :=
          List.nil_perm.1 (hsorted ▸ sort.perm _)
        have hnone : bestOf sName sZone vList = none := by
          cases hbest : bestOf sName sZone vList with
          | none => rfl
          | some best =>
            have h := bestOf_some hbest
            have hin : best ∈ vList.filter fun x => decide (Registered sName sZone x) :=
              List.mem_filter.2 ⟨h.mem, decide_eq_true h.registered⟩
            rw [hempty] at hin
            cases hin
        rw [hempty, hnone]
        rfl
      | cons x rest =>
        have hfull : (vList.filter fun x => decide (Registered sName sZone x)).isEmpty =
            false := by
          refine List.isEmpty_eq_false_iff.2 fun hempty => ?_
          have hperm := sort.perm (vList.filter fun x => decide (Registered sName sZone x))
          rw [hsorted, hempty] at hperm
          cases hperm.eq_nil
        rw [hfull, (sort.head_isBest hsorted).bestOf_eq hone]
        rfl

theorem finishZones_single (S : Routing cfg K) (sName sZone : Text) (iCode : ℤ)
    (vList : List Instance) :
    finishZones stKey stopRequested S sName [sZone] iCode vList =
      if iCode ≠ oiOk then (S, { iStatus := .offline })
      else if hasGlobal sName vList then (S, { iStatus := .wrongKind })
      else
        match bestOf sName sZone vList with
        | none => (S, { iStatus := .ok, vClients := [none] })
        | some best => routeTo stKey stopRequested S best := by
  rw [finishZones]
  split
  · rfl
  · split
    · rfl
    · rw [addZones]
      cases bestOf sName sZone vList with
      | none => rfl
      | some best =>
        dsimp only [routeTo]
        split
        · rfl
        · rfl

/-- A call to one zone and a batch of that zone alone end alike: with one connection, to the address
of the instance with the smallest id in the zone, or with one code. -/
theorem zone_routes_agree (sort : SortById) (S : Routing cfg K) (sName sZone : Text) (iCode : ℤ)
    (vList : List Instance) (hone : OnePerId vList) :
    let named := finishRoute stKey stopRequested sort S sName .zone sZone iCode vList
    let zones := finishZones stKey stopRequested S sName [sZone] iCode vList
    routedOutcomes zones.2 1 = [namedOutcome named.2] ∧ zones.1 = named.1 ∧
      (∀ c, namedOutcome named.2 = .ok c → ∃ best, IsBest sName sZone vList best ∧
        named.1.pool.made c = stKey best.ip best.port) ∧
      (iCode = oiOk → hasGlobal sName vList = true →
        named.2.iStatus = .wrongKind ∧ zones.2.iStatus = .wrongKind) := by
  dsimp only
  rw [finishRoute_zone stKey stopRequested sort S hone, finishZones_single]
  split
  · rename_i hcode
    exact ⟨rfl, rfl, (fun c hc => by cases hc), fun hok => absurd hok hcode⟩
  · split
    · exact ⟨rfl, rfl, (fun c hc => by cases hc), fun _ _ => ⟨rfl, rfl⟩⟩
    · rename_i hkind
      cases hbest : bestOf sName sZone vList with
      | none => exact ⟨rfl, rfl, (fun c hc => by cases hc), fun _ h => absurd h hkind⟩
      | some best =>
          dsimp only
          rcases routeTo_cases stKey stopRequested S best with hbusy | ⟨c, hok, hmade⟩
          · rw [hbusy]
            exact ⟨rfl, rfl, (fun c hc => by cases hc), fun _ h => absurd h hkind⟩
          · rw [hok]
            refine ⟨rfl, rfl, fun c' hc' => ⟨best, bestOf_some hbest, ?_⟩, fun _ h => absurd h hkind⟩
            obtain rfl : c = c' := Except.ok.inj hc'
            exact hmade

end Agree

/-- A pool that nobody has used yet, with room for one connection. -/
def freshRouting : Routing ⟨1, 60000, Nat.one_pos, RoutePool.defaults.idle_pos⟩ (Text ×ₗ Text) where
  pool :=
    { state := RoutePool.init _ 0
      made := fun _ => toLex ([], [])
      wf := RoutePool.wf_init _ 0
      keyed := fun k stEntry h => by cases h
      unlocked := fun bStop iNow rest vRetired h => by cases h }
  iCursor := 0

/-- Two instances in zone 2, the one with the smaller id last, and one in zone 1. -/
def threeInstances : List Instance :=
  [⟨['g'], 3, ['c'], ['8'], ['2']⟩, ⟨['g'], 0, ['a'], ['8'], ['1']⟩,
    ⟨['g'], 1, ['b'], ['8'], ['2']⟩]

theorem zone_routes_agree_three :
    let named := finishRoute (fun ip port => toLex (ip, port)) (fun _ => false) sortById
      freshRouting ['g'] .zone ['2'] oiOk threeInstances
    let zones := finishZones (fun ip port => toLex (ip, port)) (fun _ => false) freshRouting ['g']
      [['2']] oiOk threeInstances
    namedOutcome named.2 = .ok 0 ∧ routedOutcomes zones.2 1 = [.ok 0] ∧
      named.1.pool.made 0 = toLex (['b'], ['8']) := by
  have h := zone_routes_agree (fun ip port => toLex (ip, port)) (fun _ => false) sortById
    freshRouting ['g'] ['2'] oiOk threeInstances (by decide)
  have hok : namedOutcome (finishRoute (fun ip port => toLex (ip, port)) (fun _ => false) sortById
      freshRouting ['g'] .zone ['2'] oiOk threeInstances).2 = .ok 0 := by
    rfl
  obtain ⟨hzones, -, hbest, -⟩ := h
  obtain ⟨best, hisBest, hmade⟩ := hbest 0 hok
  refine ⟨hok, by rw [hzones, hok], hmade.trans ?_⟩
  rw [hisBest.unique (by decide) (bestOf_some (show bestOf ['g'] ['2'] threeInstances =
    some ⟨['g'], 1, ['b'], ['8'], ['2']⟩ from rfl))]

end OpenIdea.Rpc.CallMany
