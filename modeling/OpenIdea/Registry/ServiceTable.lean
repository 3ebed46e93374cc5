import Mathlib.Algebra.Order.Ring.Int
import Mathlib.Data.Char
import Mathlib.Data.List.Lex
import OpenIdea.Lib.OrdMap
import OpenIdea.Registry.Store

/-!
# The table of watched services (oi_registry.cpp)

`ServiceTable` holds, for each name that a session manager watches, the instance selected for it.
`Apply` takes the list of instances that the registry has given for some names, selects anew for
each of them, and notifies the watchers of every name whose selection has changed.

`Pick` keeps the instance selected before, if the list still has it; what a name selects depends on
all lists so far. `settle` says what one list does to one name, `apply_settles` that `Apply` does it
to each of its names once, also to a name that it is given twice.
-/

set_option autoImplicit false

namespace OpenIdea.Registry.ServiceTable

open OpenIdea.Lib

/-! ## Picking an instance -/

/-- `pBest` after another instance of the service. -/
def smaller : Option Instance → Instance → Instance
  | none, stInst => stInst
  | some best, stInst => if stInst.id < best.id then stInst else best

/-- The loop of `Pick`. -/
def pickFrom (sName : Text) (iCurrent : ℤ) : Option Instance → List Instance → Option Instance
  | pBest, [] => pBest
  | pBest, stInst :: vList =>
      if stInst.name ≠ sName then pickFrom sName iCurrent pBest vList
      else if 0 < iCurrent ∧ stInst.id = iCurrent then some stInst
      else pickFrom sName iCurrent (some (smaller pBest stInst)) vList

/-- `Pick`; none where it returns false. -/
def pick (vList : List Instance) (sName : Text) (iCurrent : ℤ) : Option Instance :=
  pickFrom sName iCurrent none vList

/-! ## The table -/

/-- What a name has selected. An offline name has nothing. -/
structure ServiceState where
  iId : ℤ := 0
  sIp : Text := []
  sPort : Text := []
  bOnline : Bool := false
  vWatchers : List ℕ := []
  offline : bOnline = false → iId = 0 ∧ sIp = [] ∧ sPort = [] := by
    exact fun _ => ⟨rfl, rfl, rfl⟩
  watchedOnce : vWatchers.Nodup := by
    exact List.nodup_nil

namespace ServiceState

def select (stState : ServiceState) (stPick : Instance) : ServiceState where
  iId := stPick.id
  sIp := stPick.ip
  sPort := stPick.port
  bOnline := true
  vWatchers := stState.vWatchers
  offline := fun h => by cases h
  watchedOnce := stState.watchedOnce

def deselect (stState : ServiceState) : ServiceState where
  vWatchers := stState.vWatchers
  watchedOnce := stState.watchedOnce

/-- The part of `Watch` under the name. -/
def watch (stState : ServiceState) (pManager : ℕ) : ServiceState :=
  if h : pManager ∈ stState.vWatchers then stState
  else
    { stState with
      vWatchers := stState.vWatchers ++ [pManager]
      watchedOnce := List.nodup_append.2 ⟨stState.watchedOnce, List.nodup_singleton _, by
        rintro a ha b hb rfl
        exact h (List.mem_singleton.1 hb ▸ ha)⟩ }

/-- What the watchers of the name are to know. -/
def shown (stState : ServiceState) : Bool × ℤ × Text × Text :=
  (stState.bOnline, stState.iId, stState.sIp, stState.sPort)

end ServiceState

/-- One call of `ApplyService`, with the name it is made for. -/
structure Notice where
  pManager : ℕ
  sName : Text
  sIp : Text
  sPort : Text
  bOnline : Bool
  deriving DecidableEq

/-- What a watcher is told of the name. -/
def ServiceState.notice (stState : ServiceState) (sName : Text) (pManager : ℕ) : Notice :=
  ⟨pManager, sName, stState.sIp, stState.sPort, stState.bOnline⟩

/-- The notices that `Apply` makes of a changed name. -/
def ServiceState.notices (stState : ServiceState) (sName : Text) : List Notice :=
  stState.vWatchers.map (stState.notice sName)

/-- The table, and the notices made so far. -/
structure State where
  mServices : List (Text × ServiceState) := []
  notified : List Notice := []

/-- `Watch`. -/
def watch (S : State) (pManager : ℕ) (sName : Text) : State :=
  let stState := (OrdMap.find S.mServices sName).getD {}
  { S with mServices := OrdMap.put S.mServices sName (stState.watch pManager) }

/-- `Names`. -/
def names (S : State) : List Text :=
  (S.mServices.filter fun e => !e.2.vWatchers.isEmpty).map Prod.fst

/-- `Watchers`. -/
def watchers (S : State) (sName : Text) : List ℕ :=
  match OrdMap.find S.mServices sName with
  | none => []
  | some stState => stState.vWatchers

/-- One round of the loop of `Apply` over the names, with the table and `vChanged`. -/
def applyName (vList : List Instance) (acc : List (Text × ServiceState) × List Notice)
    (sName : Text) : List (Text × ServiceState) × List Notice :=
  match OrdMap.find acc.1 sName with
  | none => acc
  | some stState =>
      match pick vList sName (if stState.bOnline then stState.iId else 0) with
      | none =>
          if stState.bOnline = false then acc
          else
            (OrdMap.put acc.1 sName stState.deselect, acc.2 ++ stState.deselect.notices sName)
      | some stPick =>
          if stState.bOnline = true ∧ stPick.id = stState.iId ∧ stPick.ip = stState.sIp ∧
              stPick.port = stState.sPort then acc
          else
            (OrdMap.put acc.1 sName (stState.select stPick),
              acc.2 ++ (stState.select stPick).notices sName)

/-- `Apply`: the notices are made when the whole list has been worked through. -/
def apply (S : State) (vNames : List Text) (vList : List Instance) : State :=
  let r := vNames.foldl (applyName vList) (S.mServices, [])
  { mServices := r.1, notified := S.notified ++ r.2 }

inductive Event where
  | watch (pManager : ℕ) (sName : Text)
  | apply (vNames : List Text) (vList : List Instance)

def step (S : State) : Event → State
  | .watch pManager sName => watch S pManager sName
  | .apply vNames vList => apply S vNames vList

/-- The table after a sequence of calls. -/
def run (es : List Event) : State := es.foldl step {}

/-! ## What is picked -/

theorem smaller_le_new (pBest : Option Instance) (x : Instance) : (smaller pBest x).id ≤ x.id := by
  cases pBest with
  | none => exact le_refl _
  | some best =>
    rw [smaller]
    split
    · exact le_refl _
    · rename_i h
      exact not_lt.1 h

theorem smaller_le_old {pBest : Option Instance} {best : Instance} (x : Instance)
    (h : pBest = some best) : (smaller pBest x).id ≤ best.id := by
  rw [h, smaller]
  split
  · rename_i hlt
    exact hlt.le
  · exact le_refl _

/-- The new instance is taken where it is better than the best so far. -/
theorem smaller_cases (pBest : Option Instance) (x : Instance) :
    (smaller pBest x = x ∧ ∀ best, pBest = some best → (smaller pBest x).id < best.id) ∨
      pBest = some (smaller pBest x) := by
  cases pBest with
  | none => exact Or.inl ⟨rfl, fun best h => by cases h⟩
  | some b =>
    rw [smaller]
    split
    · rename_i hlt
      refine Or.inl ⟨rfl, fun best h => ?_⟩
      obtain rfl := Option.some.inj h
      exact hlt
    · exact Or.inr rfl

/-- The first instance in the list with the name and the id. -/
def firstOf (vList : List Instance) (sName : Text) (iId : ℤ) : Option Instance :=
  vList.find? fun x => decide (x.name = sName ∧ x.id = iId)

theorem firstOf_cons (x : Instance) (vList : List Instance) (sName : Text) (iId : ℤ) :
    firstOf (x :: vList) sName iId =
      if x.name = sName ∧ x.id = iId then some x else firstOf vList sName iId := by
  rw [firstOf, List.find?_cons]
  by_cases h : x.name = sName ∧ x.id = iId
  · rw [if_pos h, decide_eq_true h]
  · rw [if_neg h, decide_eq_false h]
    rfl

/-- The current id is a real one, and the list has it. -/
def Kept (vList : List Instance) (sName : Text) (iCurrent : ℤ) : Prop :=
  0 < iCurrent ∧ ∃ y ∈ vList, y.name = sName ∧ y.id = iCurrent

/-- The instance has the current id where that is kept, else the smallest one. -/
structure IsPick (vList : List Instance) (sName : Text) (iCurrent : ℤ) (x : Instance) : Prop where
  mem : x ∈ vList
  name : x.name = sName
  kept : Kept vList sName iCurrent → x.id = iCurrent
  least : ¬ Kept vList sName iCurrent → ∀ y ∈ vList, y.name = sName → x.id ≤ y.id
  first : firstOf vList sName x.id = some x

variable {iCurrent : ℤ} {sName : Text} {vList : List Instance} {x : Instance}

theorem IsPick.unique {y : Instance} (hx : IsPick vList sName iCurrent x)
    (hy : IsPick vList sName iCurrent y) : x = y := by
  -- two picks have one id, and `firstOf` goes by the id
  have hid : x.id = y.id := by
    by_cases hkept : Kept vList sName iCurrent
    · rw [hx.kept hkept, hy.kept hkept]
    · exact le_antisymm (hx.least hkept y hy.mem hy.name) (hy.least hkept x hx.mem hx.name)
  exact Option.some.inj (hx.first.symm.trans (hid ▸ hy.first))

/-- What is picked stays picked. -/
theorem IsPick.again (h : IsPick vList sName iCurrent x) : IsPick vList sName x.id x := by
  refine ⟨h.mem, h.name, fun _ => rfl, fun hnot => ?_, h.first⟩
  have hid : ¬ 0 < x.id := fun hpos => hnot ⟨hpos, x, h.mem, h.name, rfl⟩
  refine h.least fun hkept => ?_
  rw [h.kept hkept] at hid
  exact hid hkept.1

/-- The instance that the loop of `Pick` returns, from the best so far: the current one, the best so
far, or one that is better. -/
inductive Picked (vList : List Instance) (sName : Text) (iCurrent : ℤ) (pBest : Option Instance)
    (x : Instance) : Prop
  | current (hpos : 0 < iCurrent) (hname : x.name = sName) (hid : x.id = iCurrent)
      (hfirst : firstOf vList sName iCurrent = some x)
  | best (hnot : ¬ Kept vList sName iCurrent) (hbest : pBest = some x)
      (hleast : ∀ y ∈ vList, y.name = sName → x.id ≤ y.id)
  | better (hnot : ¬ Kept vList sName iCurrent) (hname : x.name = sName)
      (hfirst : firstOf vList sName x.id = some x)
      (hleast : ∀ y ∈ vList, y.name = sName → x.id ≤ y.id)
      (hbetter : ∀ best, pBest = some best → x.id < best.id)

theorem not_kept_cons (hx : ¬ (x.name = sName ∧ 0 < iCurrent ∧ x.id = iCurrent))
    (h : ¬ Kept vList sName iCurrent) : ¬ Kept (x :: vList) sName iCurrent := by
  rintro ⟨hpos, y, hy, hname, hid⟩
  rcases List.mem_cons.1 hy with rfl | hy
  · exact hx ⟨hname, hpos, hid⟩
  · exact h ⟨hpos, y, hy, hname, hid⟩

theorem pickFrom_picked {pBest : Option Instance} {p : Instance}
    (h : pickFrom sName iCurrent pBest vList = some p) : Picked vList sName iCurrent pBest p := by
  -- the induction is on the rest of the list, for any best so far
  induction vList generalizing pBest with
  | nil =>
    rw [pickFrom] at h
    refine .best ?_ h fun y hy => by cases hy
    rintro ⟨-, y, hy, -⟩
    cases hy
  | cons x vList ih =>
    rw [pickFrom] at h
    split at h
    · -- an instance of another service
      rename_i hname
      have hskip : ∀ {iId : ℤ}, firstOf (x :: vList) sName iId = firstOf vList sName iId := by
        intro iId
        rw [firstOf_cons, if_neg fun hx => hname hx.1]
      have hleast : (∀ y ∈ vList, y.name = sName → p.id ≤ y.id) →
          ∀ y ∈ x :: vList, y.name = sName → p.id ≤ y.id := by
        intro hl y hy hyname
        rcases List.mem_cons.1 hy with rfl | hy
        · exact absurd hyname hname
        · exact hl y hy hyname
      cases ih h with
      | current hpos hn hid hfirst => exact .current hpos hn hid (hskip.trans hfirst)
      | best hnot hbest hl => exact .best (not_kept_cons (fun hx => hname hx.1) hnot) hbest (hleast hl)
      | better hnot hn hfirst hl hbetter =>
        exact .better (not_kept_cons (fun hx => hname hx.1) hnot) hn (hskip.trans hfirst)
          (hleast hl) hbetter
    · rename_i hname
      have hname : x.name = sName := not_not.1 hname
      split at h
      · -- the current instance
        rename_i hcurrent
        obtain rfl := Option.some.inj h
        refine .current hcurrent.1 hname hcurrent.2 ?_
        rw [firstOf_cons, if_pos ⟨hname, hcurrent.2⟩]
      · -- another instance of the service: it or the best so far is the new best
        rename_i hcurrent
        have hcons : ∀ q : Instance, q.id ≤ x.id → (∀ y ∈ vList, y.name = sName → q.id ≤ y.id) →
            ∀ y ∈ x :: vList, y.name = sName → q.id ≤ y.id := by
          intro q hq hl y hy hyname
          rcases List.mem_cons.1 hy with rfl | hy
          · exact hq
          · exact hl y hy hyname
        have hnot' : ¬ (x.name = sName ∧ 0 < iCurrent ∧ x.id = iCurrent) := fun hx => hcurrent hx.2
        cases ih h with
        | current hpos hn hid hfirst =>
          refine .current hpos hn hid ?_
          rw [firstOf_cons, if_neg fun hx => hcurrent ⟨hpos, hx.2⟩]
          exact hfirst
        | best hnot hbest hl =>
          -- the rest has nothing smaller than the new best
          obtain rfl := Option.some.inj hbest
          have hleast := hcons _ (smaller_le_new pBest x) hl
          rcases smaller_cases pBest x with hnew | hold
          · refine .better (not_kept_cons hnot' hnot) ?_ ?_ hleast hnew.2
            · rw [hnew.1]
              exact hname
            · rw [hnew.1, firstOf_cons, if_pos ⟨hname, rfl⟩]
          · exact .best (not_kept_cons hnot' hnot) hold hleast
        | better hnot hn hfirst hl hbetter =>
          have hlt := hbetter _ rfl
          have hnew : p.id < x.id := lt_of_lt_of_le hlt (smaller_le_new pBest x)
          refine .better (not_kept_cons hnot' hnot) hn ?_ (hcons p hnew.le hl)
            fun best hbest => lt_of_lt_of_le hlt (smaller_le_old x hbest)
          rw [firstOf_cons, if_neg fun hx => hnew.ne hx.2.symm]
          exact hfirst

theorem pick_isPick (h : pick vList sName iCurrent = some x) : IsPick vList sName iCurrent x := by
  have hmem : ∀ {iId : ℤ}, firstOf vList sName iId = some x → x ∈ vList := fun hf =>
    List.mem_of_find?_eq_some hf
  cases pickFrom_picked h with
  | current hpos hname hid hfirst =>
    refine ⟨hmem hfirst, hname, fun _ => hid, fun hnot => ?_, hid ▸ hfirst⟩
    exact absurd ⟨hpos, x, hmem hfirst, hname, hid⟩ hnot
  | best hnot hbest hleast => cases hbest
  | better hnot hname hfirst hleast hbetter =>
    exact ⟨hmem hfirst, hname, fun hkept => absurd hkept hnot, fun _ => hleast, hfirst⟩

theorem pickFrom_isSome {vList : List Instance} {sName : Text} {iCurrent : ℤ}
    {pBest : Option Instance} (h : pBest.isSome ∨ ∃ x ∈ vList, x.name = sName) :
    (pickFrom sName iCurrent pBest vList).isSome := by
  induction vList generalizing pBest with
  | nil =>
    rcases h with h | ⟨x, hx, -⟩
    · exact h
    · cases hx
  | cons x vList ih =>
    rw [pickFrom]
    split
    · rename_i hname
      refine ih (h.imp_right ?_)
      rintro ⟨y, hy, hyname⟩
      rcases List.mem_cons.1 hy with rfl | hy
      · exact absurd hyname hname
      · exact ⟨y, hy, hyname⟩
    · split
      · rfl
      · exact ih (Or.inl rfl)

theorem pick_eq_none : pick vList sName iCurrent = none ↔ ∀ x ∈ vList, x.name ≠ sName := by
  constructor
  · intro h x hx hname
    have hsome := @pickFrom_isSome vList sName iCurrent none (Or.inr ⟨x, hx, hname⟩)
    rw [show pickFrom sName iCurrent none vList = none from h] at hsome
    cases hsome
  · intro h
    cases hpick : pick vList sName iCurrent with
    | none => rfl
    | some x => exact absurd (pick_isPick hpick).name (h x (pick_isPick hpick).mem)

theorem IsPick.pick_eq (h : IsPick vList sName iCurrent x) :
    pick vList sName iCurrent = some x := by
  cases hpick : pick vList sName iCurrent with
  | none => exact absurd h.name (pick_eq_none.1 hpick x h.mem)
  | some y => rw [(pick_isPick hpick).unique h]

/-! ## One list, one name -/

/-- What a list does to a name. -/
def settle (vList : List Instance) (sName : Text) (stState : ServiceState) : ServiceState :=
  match pick vList sName (if stState.bOnline then stState.iId else 0) with
  | none => stState.deselect
  | some stPick => stState.select stPick

/-- What is shown says everything but the watchers. -/
theorem ServiceState.eq_of_shown {a b : ServiceState} (h : a.shown = b.shown)
    (hw : a.vWatchers = b.vWatchers) : a = b := by
  obtain ⟨iId, sIp, sPort, bOnline, vWatchers, hoff, honce⟩ := a
  obtain ⟨iId', sIp', sPort', bOnline', vWatchers', hoff', honce'⟩ := b
  simp only [ServiceState.shown, Prod.mk.injEq] at h
  obtain ⟨rfl, rfl, rfl, rfl⟩ := h
  obtain rfl : vWatchers = vWatchers' := hw
  rfl

theorem settle_vWatchers (vList : List Instance) (sName : Text) (stState : ServiceState) :
    (settle vList sName stState).vWatchers = stState.vWatchers := by
  rw [settle]
  split
  · rfl
  · rfl

theorem settle_settle (vList : List Instance) (sName : Text) (stState : ServiceState) :
    settle vList sName (settle vList sName stState) = settle vList sName stState := by
  cases hpick : pick vList sName (if stState.bOnline then stState.iId else 0) with
  | none =>
    have hsettle : settle vList sName stState = stState.deselect := by rw [settle, hpick]
    have hagain : pick vList sName (if stState.deselect.bOnline then stState.deselect.iId else 0) =
        none := pick_eq_none.2 (pick_eq_none.1 hpick)
    rw [hsettle, settle, hagain]
    rfl
  | some x =>
    have hsettle : settle vList sName stState = stState.select x := by rw [settle, hpick]
    -- what was picked is the current instance now, so it is picked once more
    have hagain : pick vList sName (if (stState.select x).bOnline then (stState.select x).iId
        else 0) = some x := (pick_isPick hpick).again.pick_eq
    rw [hsettle, settle, hagain]
    rfl

/-- The notices of a name that a list is applied to. -/
def changeNotices (vList : List Instance) (sName : Text) (stState : ServiceState) : List Notice :=
  if (settle vList sName stState).shown = stState.shown then []
  else (settle vList sName stState).notices sName

variable {stState : ServiceState} {S : State}

/-- What is shown stays as it is, or one round of the loop of `Apply` writes and notes it. -/
theorem applyName_cases (vList : List Instance) (acc : List (Text × ServiceState) × List Notice)
    (sName : Text) (h : OrdMap.find acc.1 sName = some stState) :
    ((settle vList sName stState).shown = stState.shown ∧ applyName vList acc sName = acc) ∨
      ((settle vList sName stState).shown ≠ stState.shown ∧
        applyName vList acc sName = (OrdMap.put acc.1 sName (settle vList sName stState),
          acc.2 ++ (settle vList sName stState).notices sName)) := by
  simp only [applyName, settle, h]
  cases pick vList sName (if stState.bOnline then stState.iId else 0) with
  | none =>
    dsimp only
    by_cases hoff : stState.bOnline = false
    · -- a name that is off-line has no address left to clear
      rw [if_pos hoff]
      obtain ⟨hid, hip, hport⟩ := stState.offline hoff
      refine Or.inl ⟨?_, rfl⟩
      rw [ServiceState.shown, ServiceState.shown, hoff, hid, hip, hport]
      rfl
    · rw [if_neg hoff]
      exact Or.inr ⟨fun heq => hoff (congrArg Prod.fst heq).symm, rfl⟩
  | some x =>
    dsimp only
    split
    · rename_i hsame
      obtain ⟨hon, hid, hip, hport⟩ := hsame
      refine Or.inl ⟨?_, rfl⟩
      rw [ServiceState.shown, ServiceState.shown, hon, ← hid, ← hip, ← hport]
      rfl
    · rename_i hdiff
      refine Or.inr ⟨fun heq => hdiff ?_, rfl⟩
      simp only [ServiceState.shown, ServiceState.select, Prod.mk.injEq] at heq
      exact ⟨heq.1.symm, heq.2.1, heq.2.2.1, heq.2.2.2⟩

/-- One round of the loop of `Apply`: the name settles, and a change is noted for its watchers. -/
theorem applyName_some (vList : List Instance) (acc : List (Text × ServiceState) × List Notice)
    (sName : Text) (h : OrdMap.find acc.1 sName = some stState) :
    (applyName vList acc sName).2 = acc.2 ++ changeNotices vList sName stState ∧
      ∀ n, OrdMap.find (applyName vList acc sName).1 n =
        if n = sName then some (settle vList sName stState) else OrdMap.find acc.1 n := by
  rcases applyName_cases vList acc sName h with ⟨hsame, heq⟩ | ⟨hdiff, heq⟩
  · rw [heq, changeNotices, if_pos hsame, List.append_nil]
    refine ⟨rfl, fun n => ?_⟩
    split
    · rename_i hn
      rw [hn, h, ServiceState.eq_of_shown hsame (settle_vWatchers vList sName stState)]
    · rfl
  · rw [heq, changeNotices, if_neg hdiff]
    refine ⟨rfl, fun n => ?_⟩
    rw [OrdMap.find_put]
    congr

theorem applyName_none {acc : List (Text × ServiceState) × List Notice}
    (h : OrdMap.find acc.1 sName = none) : applyName vList acc sName = acc := by
  rw [applyName, h]

/-! ## One list, many names -/

/-- The names in `done` have settled, each once; `T` is the table before. -/
structure Settled (vList : List Instance) (T : List (Text × ServiceState)) (done : List Text)
    (acc : List (Text × ServiceState) × List Notice) : Prop where
  find : ∀ n, OrdMap.find acc.1 n =
    if n ∈ done then (OrdMap.find T n).map (settle vList n) else OrdMap.find T n
  notices : ∀ n, acc.2.filter (fun k => k.sName = n) =
    if n ∈ done then ((OrdMap.find T n).map (changeNotices vList n)).getD [] else []

theorem filter_notices (stState : ServiceState) (sName n : Text) :
    (stState.notices sName).filter (fun k => k.sName = n) =
      if n = sName then stState.notices sName else [] := by
  rw [ServiceState.notices, List.filter_map]
  by_cases hn : n = sName
  · rw [if_pos hn]
    congr 1
    exact List.filter_eq_self.2 fun w _ => decide_eq_true hn.symm
  · rw [if_neg hn]
    refine List.map_eq_nil_iff.2 (List.filter_eq_nil_iff.2 fun w _ hw => hn ?_)
    exact (of_decide_eq_true hw).symm

theorem filter_changeNotices (vList : List Instance) (stState : ServiceState) (sName n : Text) :
    (changeNotices vList sName stState).filter (fun k => k.sName = n) =
      if n = sName then changeNotices vList sName stState else [] := by
  rw [changeNotices]
  split
  · rw [List.filter_nil, ite_self]
  · exact filter_notices _ _ _

/-- A name that has settled does not change any more. -/
theorem changeNotices_settle (vList : List Instance) (sName : Text) (stState : ServiceState) :
    changeNotices vList sName (settle vList sName stState) = [] := by
  rw [changeNotices, settle_settle, if_pos rfl]

theorem Settled.step {T : List (Text × ServiceState)} {done : List Text}
    {acc : List (Text × ServiceState) × List Notice} (h : Settled vList T done acc) (sName : Text) :
    Settled vList T (done ++ [sName]) (applyName vList acc sName) := by
  have hother : ∀ {n : Text}, n ≠ sName → (n ∈ done ++ [sName] ↔ n ∈ done) := by
    intro n hn
    rw [List.mem_append, List.mem_singleton, or_iff_left hn]
  have hself : sName ∈ done ++ [sName] := List.mem_append_right _ (List.mem_singleton_self _)
  cases hT : OrdMap.find T sName with
  | none =>
    -- nobody watches the name
    have hacc : OrdMap.find acc.1 sName = none := by
      rw [h.find, hT, Option.map_none, ite_self]
    rw [applyName_none hacc]
    refine ⟨fun n => ?_, fun n => ?_⟩
    · by_cases hn : n = sName
      · rw [hn, hacc, hT, Option.map_none, ite_self]
      · rw [h.find, ite_cond_congr (propext (hother hn))]
    · by_cases hn : n = sName
      · rw [h.notices, hn, hT, Option.map_none, Option.getD_none, ite_self, ite_self]
      · rw [h.notices, ite_cond_congr (propext (hother hn))]
  | some st =>
    by_cases hdone : sName ∈ done
    · -- the name has come before
      have hacc : OrdMap.find acc.1 sName = some (settle vList sName st) := by
        rw [h.find, if_pos hdone, hT, Option.map_some]
      obtain ⟨hnotices, hfind⟩ := applyName_some vList acc sName hacc
      rw [changeNotices_settle, List.append_nil] at hnotices
      refine ⟨fun n => ?_, fun n => ?_⟩
      · rw [hfind]
        by_cases hn : n = sName
        · rw [if_pos hn, hn, if_pos hself, hT, Option.map_some, settle_settle]
        · rw [if_neg hn, h.find, ite_cond_congr (propext (hother hn))]
      · rw [hnotices, h.notices]
        by_cases hn : n = sName
        · rw [hn, if_pos hdone, if_pos hself]
        · rw [ite_cond_congr (propext (hother hn))]
    · -- the name comes for the first time: its entry is still that of the table before
      have hacc : OrdMap.find acc.1 sName = some st := by
        rw [h.find, if_neg hdone, hT]
      obtain ⟨hnotices, hfind⟩ := applyName_some vList acc sName hacc
      refine ⟨fun n => ?_, fun n => ?_⟩
      · rw [hfind]
        by_cases hn : n = sName
        · rw [if_pos hn, hn, if_pos hself, hT, Option.map_some]
        · rw [if_neg hn, h.find, ite_cond_congr (propext (hother hn))]
      · rw [hnotices, List.filter_append, h.notices, filter_changeNotices]
        by_cases hn : n = sName
        · rw [if_pos hn, hn, if_neg hdone, if_pos hself, hT, List.nil_append, Option.map_some,
            Option.getD_some]
        · rw [if_neg hn, List.append_nil, ite_cond_congr (propext (hother hn))]

theorem foldl_settled {T : List (Text × ServiceState)} (vNames : List Text) :
    ∀ {done : List Text} {acc : List (Text × ServiceState) × List Notice},
      Settled vList T done acc →
        Settled vList T (done ++ vNames) (vNames.foldl (applyName vList) acc) := by
  induction vNames with
  | nil =>
    intro done acc h
    rw [List.append_nil]
    exact h
  | cons n vNames ih =>
    intro done acc h
    rw [List.append_cons]
    exact ih (h.step n)

/-- Every name that `Apply` is given settles once; the watchers of those that change are told. -/
theorem apply_settles (S : State) (vNames : List Text) (vList : List Instance) :
    ∃ vChanged, (apply S vNames vList).notified = S.notified ++ vChanged ∧
      Settled vList S.mServices vNames ((apply S vNames vList).mServices, vChanged) := by
  have h₀ : Settled vList S.mServices [] (S.mServices, []) := ⟨fun n => rfl, fun n => rfl⟩
  exact ⟨_, rfl, foldl_settled vNames h₀⟩

/-! ## Runs -/

/-- The last notice that a watcher has got for a name. -/
def lastNotice (S : State) (pManager : ℕ) (sName : Text) : Option Notice :=
  ((S.notified.filter fun k => k.sName = sName).filter fun k => k.pManager = pManager).getLast?

/-- Who has been notified of a name watches it, and knows what the table says. -/
def Informed (S : State) : Prop :=
  ∀ pManager sName k, lastNotice S pManager sName = some k →
    ∃ stState, OrdMap.find S.mServices sName = some stState ∧ pManager ∈ stState.vWatchers ∧
      k = stState.notice sName pManager

/-- What a list does to a watched name that is among the names. -/
structure Follows (vList : List Instance) (sName : Text) (stState stState' : ServiceState) :
    Prop where
  watchers : stState'.vWatchers = stState.vWatchers
  online : stState'.bOnline = true ↔ ∃ x ∈ vList, x.name = sName
  selected : stState'.bOnline = true →
    ∃ x, IsPick vList sName (if stState.bOnline then stState.iId else 0) x ∧
      stState'.iId = x.id ∧ stState'.sIp = x.ip ∧ stState'.sPort = x.port

theorem settle_follows (vList : List Instance) (sName : Text) (stState : ServiceState) :
    Follows vList sName stState (settle vList sName stState) := by
  refine ⟨settle_vWatchers vList sName stState, ?_, fun hon => ?_⟩
  · rw [settle]
    cases hpick : pick vList sName (if stState.bOnline then stState.iId else 0) with
    | none =>
      constructor
      · intro hon
        cases hon
      · rintro ⟨x, hx, hname⟩
        exact absurd hname (pick_eq_none.1 hpick x hx)
    | some x => exact ⟨fun _ => ⟨x, (pick_isPick hpick).mem, (pick_isPick hpick).name⟩, fun _ => rfl⟩
  · rw [settle] at hon ⊢
    cases hpick : pick vList sName (if stState.bOnline then stState.iId else 0) with
    | none =>
      rw [hpick] at hon
      cases hon
    | some x => exact ⟨x, pick_isPick hpick, rfl, rfl, rfl⟩

theorem ServiceState.watch_spec (stState : ServiceState) (pManager : ℕ) :
    (stState.watch pManager).shown = stState.shown ∧
      ∀ w, w ∈ (stState.watch pManager).vWatchers ↔ w ∈ stState.vWatchers ∨ w = pManager := by
  rw [ServiceState.watch]
  split
  · rename_i hmem
    refine ⟨rfl, fun w => ⟨Or.inl, ?_⟩⟩
    rintro (hw | rfl)
    · exact hw
    · exact hmem
  · refine ⟨rfl, fun w => ?_⟩
    show w ∈ stState.vWatchers ++ [pManager] ↔ _
    rw [List.mem_append, List.mem_singleton]

theorem ServiceState.notice_of_shown {a b : ServiceState} (h : a.shown = b.shown) (sName : Text)
    (pManager : ℕ) : a.notice sName pManager = b.notice sName pManager := by
  simp only [ServiceState.shown, Prod.mk.injEq] at h
  rw [ServiceState.notice, ServiceState.notice, h.1, h.2.2.1, h.2.2.2]

theorem watch_informed (h : Informed S) (pManager : ℕ) (sName : Text) :
    Informed (watch S pManager sName) := by
  intro w n k hk
  obtain ⟨st, hst, hw, rfl⟩ := h w n k hk
  show ∃ st', OrdMap.find (OrdMap.put S.mServices sName _) n = some st' ∧ _
  rw [OrdMap.find_put]
  by_cases hn : n = sName
  · rw [if_pos hn, ← hn, hst]
    obtain ⟨hshown, hmem⟩ := st.watch_spec pManager
    exact ⟨st.watch pManager, rfl, (hmem w).2 (Or.inl hw),
      (ServiceState.notice_of_shown hshown n w).symm⟩
  · rw [if_neg hn]
    exact ⟨st, hst, hw, rfl⟩

/-- A watcher of a changed name is told, and nobody else is. -/
theorem mem_changeNotices {k : Notice} :
    k ∈ changeNotices vList sName stState ↔
      (settle vList sName stState).shown ≠ stState.shown ∧
        k.pManager ∈ stState.vWatchers ∧
          k = (settle vList sName stState).notice sName k.pManager := by
  rw [changeNotices]
  split
  · rename_i hsame
    exact ⟨(fun hk => by cases hk), fun hk => absurd hsame hk.1⟩
  · rename_i hdiff
    rw [ServiceState.notices, List.mem_map, settle_vWatchers]
    constructor
    · rintro ⟨w, hw, rfl⟩
      exact ⟨hdiff, hw, rfl⟩
    · rintro ⟨-, hw, hk⟩
      exact ⟨k.pManager, hw, hk.symm⟩

theorem apply_informed (h : Informed S) (vNames : List Text) (vList : List Instance) :
    Informed (apply S vNames vList) := by
  intro w n k hk
  obtain ⟨vChanged, hnotified, hset⟩ := apply_settles S vNames vList
  have hfind := hset.find n
  have hnotices := hset.notices n
  dsimp only at hfind hnotices
  rw [lastNotice, hnotified, List.filter_append, List.filter_append, hnotices,
    List.getLast?_append, Option.or_eq_some_iff] at hk
  rcases hk with hk | ⟨hnone, hk⟩
  · -- told by this call
    obtain ⟨hmem, hw⟩ := List.mem_filter.1 (List.mem_of_getLast? hk)
    obtain rfl := of_decide_eq_true hw
    split at hmem
    · rename_i hn
      cases hT : OrdMap.find S.mServices n with
      | none =>
        rw [hT] at hmem
        cases hmem
      | some st =>
        rw [hT] at hmem
        obtain ⟨-, hwatch, heq⟩ := mem_changeNotices.1 hmem
        rw [if_pos hn, hT] at hfind
        exact ⟨_, hfind, (settle_vWatchers vList n st).symm ▸ hwatch, heq⟩
    · cases hmem
  · -- told by an earlier call: what the name shows is still the same
    obtain ⟨st, hst, hwatch, rfl⟩ := h w n k hk
    rw [hst] at hfind hnone
    by_cases hn : n ∈ vNames
    · rw [if_pos hn] at hfind hnone
      rw [Option.map_some, Option.getD_some] at hnone
      refine ⟨_, hfind, (settle_vWatchers vList n st).symm ▸ hwatch, ?_⟩
      -- a change would have been noted for the watcher
      by_cases hsame : (settle vList n st).shown = st.shown
      · exact (ServiceState.notice_of_shown hsame n w).symm
      · have hin : (settle vList n st).notice n w ∈
            (changeNotices vList n st).filter fun k => k.pManager = w :=
          List.mem_filter.2 ⟨mem_changeNotices.2 ⟨hsame, hwatch, rfl⟩, decide_eq_true rfl⟩
        rw [List.getLast?_eq_none_iff.1 hnone] at hin
        cases hin
    · rw [if_neg hn] at hfind
      exact ⟨st, hfind, hwatch, rfl⟩

theorem step_informed (h : Informed S) (e : Event) : Informed (step S e) := by
  cases e with
  | watch pManager sName => exact watch_informed h pManager sName
  | apply vNames vList => exact apply_informed h vNames vList

theorem run_informed (es : List Event) : Informed (run es) := by
  refine es.foldlRecOn step ?_ fun S h e _ => step_informed h e
  -- at first nobody has been told anything
  intro w n k hk
  cases hk

/-- The table follows the lists, and the watchers follow the table. -/
theorem table_follows (es : List Event) :
    Informed (run es) ∧ ∀ vNames vList,
      let S' := run (es ++ [.apply vNames vList])
      (∀ n ∈ vNames, ∀ st, OrdMap.find (run es).mServices n = some st →
        ∃ st', OrdMap.find S'.mServices n = some st' ∧ Follows vList n st st') ∧
      (∀ n ∉ vNames, OrdMap.find S'.mServices n = OrdMap.find (run es).mServices n) ∧
      ∃ vChanged, S'.notified = (run es).notified ++ vChanged ∧
        (∀ n, OrdMap.find (run es).mServices n = none → ∀ k ∈ vChanged, k.sName ≠ n) ∧
        ∀ n st st', OrdMap.find (run es).mServices n = some st →
          OrdMap.find S'.mServices n = some st' →
            st.vWatchers.Nodup ∧ vChanged.filter (fun k => k.sName = n) =
              if st'.shown = st.shown then [] else st.vWatchers.map (st'.notice n) := by
  refine ⟨run_informed es, fun vNames vList => ?_⟩
  dsimp only
  rw [show run (es ++ [.apply vNames vList]) = apply (run es) vNames vList from
    List.foldl_append]
  obtain ⟨vChanged, hnotified, hset⟩ := apply_settles (run es) vNames vList
  have hfind := hset.find
  have hnotices := hset.notices
  dsimp only at hfind hnotices
  refine ⟨fun n hn st hst => ?_, fun n hn => ?_, vChanged, hnotified, fun n hnone k hk hkn => ?_,
    fun n st st' hst hst' => ⟨st.watchedOnce, ?_⟩⟩
  · rw [hfind, if_pos hn, hst]
    exact ⟨_, rfl, settle_follows vList n st⟩
  · rw [hfind, if_neg hn]
  · have hempty := hnotices n
    rw [hnone, Option.map_none, Option.getD_none, ite_self] at hempty
    exact List.filter_eq_nil_iff.1 hempty k hk (decide_eq_true hkn)
  · rw [hnotices, hst]
    rw [hfind, hst] at hst'
    by_cases hn : n ∈ vNames
    · rw [if_pos hn] at hst' ⊢
      obtain rfl := Option.some.inj hst'
      rw [Option.map_some, Option.getD_some, changeNotices, ServiceState.notices,
        settle_vWatchers]
    · rw [if_neg hn] at hst' ⊢
      obtain rfl := Option.some.inj hst'
      rw [if_pos rfl]

/-- An id that is not positive is not kept: the list still has instance `-1`, and `-2` is taken. -/
theorem negative_id_dropped :
    let vBefore : List Instance := [⟨['g'], -1, ['a'], ['8'], []⟩]
    let vAfter : List Instance := ⟨['g'], -2, ['b'], ['8'], []⟩ :: vBefore
    let es : List Event := [.watch 0 ['g'], .apply [['g']] vBefore]
    (OrdMap.find (run es).mServices ['g']).map ServiceState.shown =
        some (true, -1, ['a'], ['8']) ∧
      (∃ x ∈ vAfter, x.name = ['g'] ∧ x.id = -1) ∧
      (OrdMap.find (run (es ++ [.apply [['g']] vAfter])).mServices ['g']).map ServiceState.shown =
        some (true, -2, ['b'], ['8']) := by
  refine ⟨by decide +kernel, by decide, by decide +kernel⟩

end OpenIdea.Registry.ServiceTable
