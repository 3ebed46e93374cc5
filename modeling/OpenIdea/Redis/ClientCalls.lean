import OpenIdea.Redis.Client
import Mathlib.Data.List.Count

/-!
# The Redis client settles each call once

The places that matter for one call are the queue of posted calls, `m_vWait`, and the operation of
the poll thread that holds it.  `Good` is what is true of a call, given how often it is in each of
them; `CallsOk` says it of every call.  `SweepOk` is the part about the swept prefix of `m_vWait`.

Main result: `calls_settled_once`.
-/

set_option autoImplicit false

namespace OpenIdea.Redis.Client

open OpenIdea.Lib OpenIdea.Lib.Runs

variable {ρ : Type}

/-! ## One call -/

/-- The calls whose reference the running operation holds. -/
def Loop.held : Loop → List Nat
  | .submitting n => [n]
  | .answered n _ => [n]
  | .failing left _ _ => left
  | .failed n left _ _ => n :: left
  | _ => []

/-- The calls the running operation has taken out of the queue and not settled yet. -/
def Loop.unsettled : Loop → List Nat
  | .failing left _ _ => left
  | .failed _ left _ _ => left
  | _ => []

/-- The calls `SweepTimeout` is about to settle. -/
def Loop.expiring : Loop → List Nat
  | .sweeping left => left
  | _ => []

/-- The caller's reference. -/
def Call.callerHolds (c : Call ρ) : Nat := if c.caller = .gone then 0 else 1

/-- What holds of a call that was settled `k` times, is `p` times posted and `w` times in the queue,
is held `h` times by the running operation and `u` times about to be settled by it. -/
structure Good (c : Call ρ) (k p w h u : Nat) (issued : Bool) : Prop where
  /-- The reference count is the number of holders, until they are all gone. -/
  references : c.freed = false → c.references = c.callerHolds + w + h
  freed : c.freed = true → c.callerHolds + w + h = 0
  alive : issued = true → c.freed = false → 0 < c.references
  unissued : issued = false → c.caller = .gone ∧ c.submitted = false ∧ c.freed = false ∧ p = 0
  posted_once : p ≤ 1
  posted : 0 < p → c.submitted = false ∧ c.caller ≠ .gone ∧ c.caller ≠ .created ∧
    c.caller ≠ .resumed
  created : c.caller = .created → c.submitted = false
  wait_once : w ≤ 1
  queued : 0 < w + h → c.submitted = true
  won : c.won = true → c.submitted = true
  ready : c.ready = true ∨ c.gate = .ready ∨ c.scheduled = true → c.won = true
  /-- A submitted call has its outcome, or someone is going to give it one. -/
  outcome : c.submitted = true → c.won = true ∨ 0 < w ∨ 0 < u
  settled : k = if c.won = true then 1 else 0

namespace Good

variable {c : Call ρ} {k p w h u : Nat} {i : Bool}

theorem not_freed (g : Good c k p w h u i) (hw : 0 < c.callerHolds + w + h) : c.freed = false := by
  cases hf : c.freed with
  | false => rfl
  | true =>
    have := g.freed hf
    omega

/-- Between the queue and the operation, the call may change its place. -/
theorem move (g : Good c k p w h u i) {w' h' u' : Nat} (hsum : w' + h' = w + h) (hw : w' ≤ 1)
    (hout : c.won = true ∨ 0 < w ∨ 0 < u → c.won = true ∨ 0 < w' ∨ 0 < u') :
    Good c k p w' h' u' i where
  references := by
    intro hf
    rw [g.references hf]
    omega
  freed := by
    intro hf
    have := g.freed hf
    omega
  alive := g.alive
  unissued := g.unissued
  posted_once := g.posted_once
  posted := g.posted
  created := g.created
  wait_once := hw
  queued := by
    intro hpos
    exact g.queued (by omega)
  won := g.won
  ready := g.ready
  outcome := fun hs => hout (g.outcome hs)
  settled := g.settled

/-- `Settle` on a submitted call that has no outcome. -/
theorem settle (g : Good c k p w h u i) (hs : c.submitted = true) (hwon : c.won = false)
    (x : Option ρ) (status : Status) (u' : Nat) :
    Good (Ledger.settledCall x status c) (k + 1) p w h u' i where
  references := g.references
  freed := g.freed
  alive := g.alive
  unissued := g.unissued
  posted_once := g.posted_once
  posted := g.posted
  created := g.created
  wait_once := g.wait_once
  queued := g.queued
  won := fun _ => hs
  ready := fun _ => rfl
  outcome := fun _ => Or.inl rfl
  settled := by
    have := g.settled
    rw [hwon] at this
    simpa [Ledger.settledCall] using this

/-- The operation gives up its reference. -/
theorem release (g : Good c k p w (h + 1) u i) :
    Good { c with references := c.references - 1, freed := decide (c.references = 1) } k p w h u i := by
  have hf := g.not_freed (by omega)
  have href := g.references hf
  have hq := g.queued (by omega)
  refine ⟨?_, ?_, ?_, ?_, g.posted_once, g.posted, g.created, g.wait_once, fun _ => hq, g.won, g.ready,
    g.outcome, g.settled⟩
  · intro _
    show c.references - 1 = c.callerHolds + w + h
    omega
  · intro hfreed
    have hone : c.references = 1 := of_decide_eq_true hfreed
    show c.callerHolds + w + h = 0
    omega
  · intro _ hfreed
    have hone : ¬ c.references = 1 := of_decide_eq_false hfreed
    show 0 < c.references - 1
    omega
  · intro hi
    have := (g.unissued hi).2.1
    rw [hq] at this
    cases this

/-- The caller gives up its reference: it is not waiting for `Submit` any more. -/
theorem leave (g : Good c k p w h u i) (hc : c.caller ≠ .gone) (hp : p = 0) :
    Good
      { c with
        caller := .gone
        references := c.references - 1
        freed := decide (c.references = 1) } k p w h u i := by
  have hholds : c.callerHolds = 1 := by simp [Call.callerHolds, hc]
  have hf := g.not_freed (by omega)
  have href := g.references hf
  have hgone : ∀ r f, ({ c with caller := .gone, references := r, freed := f } :
      Call ρ).callerHolds = 0 := fun _ _ => rfl
  refine ⟨?_, ?_, ?_, ?_, g.posted_once, ?_, ?_, g.wait_once, g.queued, g.won, g.ready, g.outcome,
    g.settled⟩
  · intro _
    rw [hgone]
    show c.references - 1 = 0 + w + h
    omega
  · intro hfreed
    have hone : c.references = 1 := of_decide_eq_true hfreed
    rw [hgone]
    omega
  · intro _ hfreed
    have hone : ¬ c.references = 1 := of_decide_eq_false hfreed
    show 0 < c.references - 1
    omega
  · intro hi
    exact absurd (g.unissued hi).1 hc
  · intro hpos
    omega
  · intro hcr
    cases hcr

/-- The caller moves on without giving up its reference. -/
theorem setCaller (g : Good c k p w h u i) {a : Caller} (hc : c.caller ≠ .gone) (ha : a ≠ .gone)
    (ha' : a ≠ .created) (hp : p = 0) : Good { c with caller := a } k p w h u i := by
  have hholds : ({ c with caller := a } : Call ρ).callerHolds = c.callerHolds := by
    simp [Call.callerHolds, hc, ha]
  refine ⟨?_, ?_, g.alive, ?_, g.posted_once, ?_, ?_, g.wait_once, g.queued, g.won, g.ready,
    g.outcome, g.settled⟩
  · intro hf
    rw [hholds]
    exact g.references hf
  · intro hf
    rw [hholds]
    exact g.freed hf
  · intro hi
    exact absurd (g.unissued hi).1 hc
  · intro hpos
    omega
  · intro hcr
    exact absurd hcr ha'

end Good

/-! ## The ledger -/

/-- How often a call was settled. -/
def Ledger.times (l : Ledger ρ) (n : Nat) : Nat := (l.settled.map (·.call)).count n

/-- Every call is good, given who has it: the posted calls, the queue, and the running operation
with what it holds and what it is about to settle. -/
structure LedgerOk (l : Ledger ρ) (posted wait held unsettled : List Nat) (issued : Nat) : Prop where
  good : ∀ n, Good (l.calls n) (l.times n) (posted.count n) (wait.count n) (held.count n)
    (unsettled.count n) (decide (n < issued))
  sane : l.misuse = false

namespace LedgerOk

variable {l : Ledger ρ} {P W H U : List Nat} {I : Nat}

variable {n : Nat}

variable {U' : List Nat}

/-- One call changes, the others keep their places. -/
theorem set (h : LedgerOk l P W H U I) {c : Call ρ} {P' W' H' : List Nat} {I' : Nat}
    (hn : Good c (l.times n) (P'.count n) (W'.count n) (H'.count n) (U'.count n) (decide (n < I')))
    (hP : ∀ m ≠ n, P'.count m = P.count m) (hW : ∀ m ≠ n, W'.count m = W.count m)
    (hH : ∀ m ≠ n, H'.count m = H.count m) (hU : ∀ m ≠ n, U'.count m = U.count m)
    (hI : ∀ m ≠ n, decide (m < I') = decide (m < I)) : LedgerOk (l.set n c) P' W' H' U' I' := by
  refine ⟨?_, h.sane⟩
  intro m
  by_cases hm : m = n
  · subst hm
    rw [Ledger.set_calls_self]
    exact hn
  · rw [Ledger.set_calls_ne hm, hP m hm, hW m hm, hH m hm, hU m hm, hI m hm]
    exact h.good m

theorem count_cons_ne {m : Nat} (h : m ≠ n) (xs : List Nat) : (n :: xs).count m = xs.count m :=
  List.count_cons_of_ne (Ne.symm h)

theorem times_concat (l : Ledger ρ) (n m : Nat) (status : Status) (x : Option ρ) (c : Call ρ) :
    ({ l.set n c with settled := l.settled ++ [⟨n, status, x⟩] } : Ledger ρ).times m =
      l.times m + if m = n then 1 else 0 := by
  simp only [Ledger.times, List.map_append, List.count_append, List.map_cons, List.map_nil,
    List.count_singleton, beq_iff_eq]
  simp only [eq_comm]

/-- `Settle` on a call that someone holds. -/
theorem settle (h : LedgerOk l P W H U I)
    (hheld : 0 < (l.calls n).callerHolds + W.count n + H.count n)
    (hs : (l.calls n).submitted = true) (hU : ∀ m ≠ n, U'.count m = U.count m) (x : Option ρ)
    (status : Status) : LedgerOk (l.settle n x status) P W H U' I := by
  have hn := h.good n
  have hf := hn.not_freed hheld
  unfold Ledger.settle
  rw [if_neg (by simp [hf])]
  split
  · -- an earlier outcome stands
    rename_i hwon
    refine ⟨?_, h.sane⟩
    intro m
    by_cases hm : m = n
    · subst hm
      exact hn.move rfl hn.wait_once (fun _ => Or.inl hwon)
    · rw [hU m hm]
      exact h.good m
  · rename_i hwon
    have hwon : (l.calls n).won = false := Bool.eq_false_iff.2 hwon
    refine ⟨?_, h.sane⟩
    intro m
    rw [times_concat]
    by_cases hm : m = n
    · subst hm
      rw [if_pos rfl]
      show Good ((l.set m _).calls m) _ _ _ _ _ _
      rw [Ledger.set_calls_self]
      exact hn.settle hs hwon x status _
    · rw [if_neg hm, hU m hm]
      show Good ((l.set n _).calls m) _ _ _ _ _ _
      rw [Ledger.set_calls_ne hm]
      exact h.good m

/-- `Release` of a call the operation holds. -/
theorem release (h : LedgerOk l P W (n :: H) U I) : LedgerOk (l.release n) P W H U I := by
  have hn := h.good n
  rw [List.count_cons_self] at hn
  have hf := hn.not_freed (by omega)
  unfold Ledger.release
  rw [if_neg (by simp [hf])]
  apply h.set hn.release
  · exact fun m _ => rfl
  · exact fun m _ => rfl
  · exact fun m hm => (count_cons_ne hm H).symm
  · exact fun m _ => rfl
  · exact fun m _ => rfl

/-- Calls move between the queue and the running operation. -/
theorem move (h : LedgerOk l P W H U I) {W' H' : List Nat}
    (hsum : ∀ m, W'.count m + H'.count m = W.count m + H.count m) (hW : ∀ m, W'.count m ≤ 1)
    (hout : ∀ m, (l.calls m).won = true ∨ 0 < W.count m ∨ 0 < U.count m →
      (l.calls m).won = true ∨ 0 < W'.count m ∨ 0 < U'.count m) : LedgerOk l P W' H' U' I :=
  ⟨fun m => (h.good m).move (hsum m) (hW m) (hout m), h.sane⟩

/-- The caller moves on. -/
theorem setCaller (h : LedgerOk l P W H U I) {a : Caller}
    (hn : Good { l.calls n with caller := a } (l.times n) (P.count n) (W.count n) (H.count n)
      (U.count n) (decide (n < I))) : LedgerOk (l.setCaller n a) P W H U I := by
  apply h.set hn
  · exact fun m _ => rfl
  · exact fun m _ => rfl
  · exact fun m _ => rfl
  · exact fun m _ => rfl
  · exact fun m _ => rfl

/-- The caller leaves. -/
theorem leave (h : LedgerOk l P W H U I) (hc : (l.calls n).caller ≠ .gone) (hp : P.count n = 0) :
    LedgerOk ((l.setCaller n .gone).release n) P W H U I := by
  have hn := h.good n
  have hf : (l.calls n).freed = false := by
    apply hn.not_freed
    simp only [Call.callerHolds, if_neg hc]
    omega
  have heq : (l.setCaller n .gone).release n = l.set n
      { l.calls n with
        caller := .gone
        references := (l.calls n).references - 1
        freed := decide ((l.calls n).references = 1) } := by
    unfold Ledger.release Ledger.setCaller
    rw [Ledger.set_calls_self, if_neg (by simp [hf])]
    simp only [Ledger.set, Function.update_idem]
  rw [heq]
  apply h.set (hn.leave hc hp)
  · exact fun m _ => rfl
  · exact fun m _ => rfl
  · exact fun m _ => rfl
  · exact fun m _ => rfl
  · exact fun m _ => rfl

/-- A new call, not handed over yet. -/
theorem newCall (h : LedgerOk l P W H U I) {c : Call ρ} {P' : List Nat}
    (hP : ∀ m ≠ I, P'.count m = P.count m)
    (hc : Good c 0 (P'.count I) 0 0 (U.count I) true) :
    LedgerOk (l.set I c) P' W H U (I + 1) := by
  have hI := h.good I
  rw [decide_eq_false (Nat.lt_irrefl I)] at hI
  obtain ⟨-, hsub, -, -⟩ := hI.unissued rfl
  -- a number that was not given out is nowhere
  have hnowhere : W.count I = 0 ∧ H.count I = 0 := by
    by_contra hne
    have := hI.queued (by omega)
    rw [hsub] at this
    cases this
  have htimes : l.times I = 0 := by
    have hk := hI.settled
    have hwon : ¬ (l.calls I).won = true := by
      intro hwon
      have := hI.won hwon
      rw [hsub] at this
      cases this
    rw [if_neg hwon] at hk
    exact hk
  apply h.set
  · rw [htimes, hnowhere.1, hnowhere.2, decide_eq_true (Nat.lt_succ_self I)]
    exact hc
  · exact hP
  · exact fun m _ => rfl
  · exact fun m _ => rfl
  · exact fun m _ => rfl
  · intro m hm
    rw [decide_eq_decide]
    omega

end LedgerOk

/-! ## Submitting -/

variable {H W : List Nat} {n : Nat} {s s' : State ρ} {cfg : Config ρ}

variable {I : Nat} {P U : List Nat} {l : Ledger ρ} {e : Event ρ}

/-- `Submit` takes a posted call in hand. -/
theorem LedgerOk.takePosted (h : LedgerOk l (n :: P) W H U I) :
    LedgerOk ((l.retain n).set n { (l.retain n).calls n with submitted := true }) P W (n :: H) (n :: U)
      I := by
  have hn := h.good n
  rw [List.count_cons_self] at hn
  obtain ⟨hsub, hgone, hcreated, -⟩ := hn.posted (by omega)
  have hholds : (l.calls n).callerHolds = 1 := by simp [Call.callerHolds, hgone]
  have hf := hn.not_freed (by omega)
  have href := hn.references hf
  have hnone : W.count n = 0 ∧ H.count n = 0 := by
    by_contra hne
    have := hn.queued (by omega)
    rw [hsub] at this
    cases this
  have heq : (l.retain n).set n { (l.retain n).calls n with submitted := true } = l.set n
      { l.calls n with references := (l.calls n).references + 1, submitted := true } := by
    unfold Ledger.retain
    rw [if_neg (by simp [hf]), Ledger.set_calls_self]
    simp only [Ledger.set, Function.update_idem]
  have honce := hn.posted_once
  rw [heq]
  apply h.set
  · rw [List.count_cons_self, List.count_cons_self]
    refine ⟨?_, ?_, ?_, ?_, ?_, ?_, ?_, hn.wait_once, fun _ => rfl, fun _ => rfl, hn.ready, ?_,
      hn.settled⟩
    · intro _
      show (l.calls n).references + 1 = (l.calls n).callerHolds + W.count n + (H.count n + 1)
      omega
    · intro hfreed
      rw [show ({ l.calls n with
        references := (l.calls n).references + 1, submitted := true } : Call ρ).freed =
          (l.calls n).freed from rfl, hf] at hfreed
      cases hfreed
    · intro _ _
      exact Nat.succ_pos _
    · intro hi
      exact absurd (hn.unissued hi).1 hgone
    · omega
    · intro hpos
      omega
    · intro hcr
      exact absurd hcr hcreated
    · intro _
      exact Or.inr (Or.inr (Nat.succ_pos _))
  · exact fun m hm => (LedgerOk.count_cons_ne hm P).symm
  · exact fun m _ => rfl
  · exact fun m hm => LedgerOk.count_cons_ne hm H
  · exact fun m hm => LedgerOk.count_cons_ne hm U
  · exact fun m _ => rfl

/-- A field that `Good` does not look at. -/
theorem LedgerOk.setDeadline (h : LedgerOk l P W H U I) (n deadline : Nat) :
    LedgerOk (l.set n { l.calls n with deadline := deadline }) P W H U I := by
  have hn := h.good n
  apply h.set
  · exact ⟨hn.references, hn.freed, hn.alive, hn.unissued, hn.posted_once, hn.posted, hn.created,
      hn.wait_once, hn.queued, hn.won, hn.ready, hn.outcome, hn.settled⟩
  · exact fun m _ => rfl
  · exact fun m _ => rfl
  · exact fun m _ => rfl
  · exact fun m _ => rfl
  · exact fun m _ => rfl

/-- The call in hand joins the queue, which takes a reference of its own. -/
theorem LedgerOk.pushWait (h : LedgerOk l P W (n :: H) U I) (hW : W.count n = 0) (sid : Nat) :
    LedgerOk ((l.retain n).set n { (l.retain n).calls n with sessionId := some sid }) P (W ++ [n])
      (n :: H) U I := by
  have hn := h.good n
  rw [List.count_cons_self] at hn
  have hf := hn.not_freed (by omega)
  have href := hn.references hf
  have hsub := hn.queued (by omega)
  have heq : (l.retain n).set n { (l.retain n).calls n with sessionId := some sid } = l.set n
      { l.calls n with references := (l.calls n).references + 1, sessionId := some sid } := by
    unfold Ledger.retain
    rw [if_neg (by simp [hf]), Ledger.set_calls_self]
    simp only [Ledger.set, Function.update_idem]
  rw [heq]
  have hcount : (W ++ [n]).count n = 1 := by simp [hW]
  apply h.set
  · rw [hcount, List.count_cons_self]
    refine ⟨?_, ?_, ?_, ?_, hn.posted_once, hn.posted, hn.created, Nat.le_refl 1, fun _ => hsub,
      hn.won, hn.ready, ?_, hn.settled⟩
    · intro _
      show (l.calls n).references + 1 = (l.calls n).callerHolds + 1 + (H.count n + 1)
      omega
    · intro hfreed
      rw [show ({ l.calls n with
        references := (l.calls n).references + 1, sessionId := some sid } : Call ρ).freed =
          (l.calls n).freed from rfl, hf] at hfreed
      cases hfreed
    · intro _ _
      exact Nat.succ_pos _
    · exact hn.unissued
    · intro _
      exact Or.inr (Or.inl Nat.one_pos)
  · exact fun m _ => rfl
  · intro m hm
    simp [Ne.symm hm]
  · exact fun m _ => rfl
  · exact fun m _ => rfl
  · exact fun m _ => rfl

theorem count_erase_concat (hW : W.count n = 0) : (W ++ [n]).eraseIdx ((W ++ [n]).idxOf n) = W := by
  have hnot : n ∉ W := List.count_eq_zero.1 hW
  rw [List.idxOf_append, if_neg hnot, List.eraseIdx_append_of_length_le (by omega)]
  simp

/-- After `Enqueue` the call in hand is in the queue or has its outcome. -/
theorem LedgerOk.sendCall (h : LedgerOk s.ledger s.posted s.wait (n :: H) [n] s.issued)
    (hW : s.wait.count n = 0) (hsub : (s.call n).submitted = true) (cfg : Config ρ) (sid : Nat)
    (r : SendResult) :
    LedgerOk (Client.sendCall cfg n sid r s).ledger s.posted (Client.sendCall cfg n sid r s).wait
      (n :: H) [] s.issued := by
  have hU : ∀ m ≠ n, ([] : List Nat).count m = [n].count m := by
    intro m hm
    rw [LedgerOk.count_cons_ne hm]
  have hpushed := h.pushWait hW sid
  have hfailed : ∀ r : SendResult,
      LedgerOk (Client.release n (Client.settle n none r.status
        (eraseWait n (Client.pushWait n sid s)))).ledger s.posted
        (eraseWait n (Client.pushWait n sid s)).wait (n :: H) [] s.issued := by
    intro r
    have hwait : (eraseWait n (Client.pushWait n sid s)).wait = s.wait := count_erase_concat hW
    rw [hwait]
    apply LedgerOk.release
    -- the queue's reference is in hand until it is released
    have htaken : LedgerOk (Client.pushWait n sid s).ledger s.posted s.wait (n :: n :: H) [n]
        s.issued := by
      apply hpushed.move
      · intro m
        simp only [List.count_cons, List.count_append, List.count_nil]
        omega
      · exact fun m => (h.good m).wait_once
      · intro m hm
        rcases hm with hm | hm | hm
        · exact Or.inl hm
        · by_cases hmn : m = n
          · exact Or.inr (Or.inr (by simp [hmn]))
          · rw [List.count_append, List.count_singleton, if_neg (by simpa using Ne.symm hmn),
              Nat.add_zero] at hm
            exact Or.inr (Or.inl hm)
        · exact Or.inr (Or.inr hm)
    apply htaken.settle
    · rw [List.count_cons_self]
      omega
    · exact (htaken.good n).queued (by rw [List.count_cons_self]; omega)
    · exact hU
  unfold Client.sendCall
  split
  · cases r with
    | ok =>
      refine hpushed.move (fun _ => rfl) (fun m => (hpushed.good m).wait_once) ?_
      intro m hm
      rcases hm with hm | hm | hm
      · exact Or.inl hm
      · exact Or.inr (Or.inl hm)
      · refine Or.inr (Or.inl ?_)
        have hmn : m = n := by
          have := List.count_pos_iff.1 hm
          exact List.mem_singleton.1 this
        subst hmn
        show 0 < (s.wait ++ [m]).count m
        simp
    | busy => exact hfailed .busy
    | connect => exact hfailed .connect
    | other => exact hfailed .other
  · apply h.settle
    · rw [List.count_cons_self]
      omega
    · exact hsub
    · exact hU

theorem LedgerOk.enqueue (h : LedgerOk s.ledger s.posted s.wait (n :: H) [n] s.issued)
    (hW : s.wait.count n = 0) (hsub : (s.call n).submitted = true) (cfg : Config ρ) (now : Nat)
    (env : SendEnv) :
    LedgerOk (Client.enqueue cfg n now env s).ledger s.posted (Client.enqueue cfg n now env s).wait
      (n :: H) [] s.issued := by
  have hsettle : ∀ status,
      LedgerOk (Client.settle n none status s).ledger s.posted s.wait (n :: H) [] s.issued := by
    intro status
    apply h.settle
    · rw [List.count_cons_self]
      omega
    · exact hsub
    · intro m hm
      rw [LedgerOk.count_cons_ne hm]
  unfold Client.enqueue
  split
  · exact hsettle _
  split
  · exact hsettle _
  split
  · exact hsettle _
  rename_i sid hsid
  split
  · exact hsettle _
  split
  · exact hsettle _
  split
  · exact hsettle _
  · apply LedgerOk.sendCall (s := { s with
      ledger := s.ledger.set n { s.call n with deadline := now + cfg.timeoutMs } })
    · exact h.setDeadline n _
    · exact hW
    · show ((s.ledger.set n _).calls n).submitted = true
      rw [Ledger.set_calls_self]
      exact hsub

theorem enqueue_posted (cfg : Config ρ) (n now : Nat) (env : SendEnv) (s : State ρ) :
    (Client.enqueue cfg n now env s).posted = s.posted := by
  unfold Client.enqueue Client.sendCall
  cases env.send <;> repeat' first | rfl | split

theorem enqueue_issued (cfg : Config ρ) (n now : Nat) (env : SendEnv) (s : State ρ) :
    (Client.enqueue cfg n now env s).issued = s.issued := by
  unfold Client.enqueue Client.sendCall
  cases env.send <;> repeat' first | rfl | split

/-! ## The steps -/

/-- Every call is good. -/
def CallsOk (s : State ρ) : Prop :=
  LedgerOk s.ledger s.posted s.wait s.loop.held s.loop.unsettled s.issued

theorem callsOk_init : CallsOk ({} : State ρ) := by
  refine ⟨?_, rfl⟩
  intro n
  refine ⟨?_, ?_, ?_, ?_, Nat.zero_le 1, ?_, ?_, Nat.zero_le 1, ?_, ?_, ?_, ?_, rfl⟩ <;>
    simp [Call.callerHolds, Loop.held]

namespace CallsOk

/-- In an idle loop the call is with its caller or in the queue. -/
theorem toIdle (h : CallsOk s) (hloop : s.loop = .idle) :
    LedgerOk s.ledger s.posted s.wait [] [] s.issued := by
  unfold CallsOk at h
  rw [hloop] at h
  exact h

theorem newCall (h : CallsOk s) (arguments : List (List UInt8)) :
    CallsOk (Client.newCall { arguments := arguments, caller := .created } s) := by
  have hfresh := (h.good s.issued).unissued (by simp)
  apply LedgerOk.newCall h (fun _ _ => rfl)
  rw [hfresh.2.2.2]
  refine ⟨?_, ?_, ?_, ?_, Nat.zero_le 1, ?_, ?_, Nat.zero_le 1, ?_, ?_, ?_, ?_, rfl⟩ <;>
    simp [Call.callerHolds]

theorem newCallSync (h : CallsOk s) (arguments : List (List UInt8)) :
    CallsOk { Client.newCall { arguments := arguments, synchronous := true, caller := .blocked } s with
      posted := s.posted ++ [s.issued] } := by
  have hfresh := (h.good s.issued).unissued (by simp)
  apply LedgerOk.newCall h
  · intro m hm
    simp [Ne.symm hm]
  · have hcount : (s.posted ++ [s.issued]).count s.issued = 1 := by
      rw [List.count_append, hfresh.2.2.2]
      simp
    rw [hcount]
    refine ⟨?_, ?_, ?_, ?_, Nat.le_refl 1, ?_, ?_, Nat.zero_le 1, ?_, ?_, ?_, ?_, rfl⟩ <;>
      simp [Call.callerHolds]

/-- A caller that is not waiting for `Submit` goes on to use its result. -/
theorem toResumed (h : CallsOk s) (hc : (s.call n).caller ≠ .gone) (hp : s.posted.count n = 0) :
    CallsOk (Client.setCaller n .resumed s) := by
  apply LedgerOk.setCaller h
  exact (h.good n).setCaller hc (by simp) (by simp) hp

/-- A call that was settled is not posted any more. -/
theorem not_posted_of_won (h : CallsOk s) (hwon : (s.call n).won = true) :
    s.posted.count n = 0 := by
  have hn := h.good n
  by_contra hne
  have hsub := (hn.posted (Nat.pos_of_ne_zero hne)).1
  rw [hn.won hwon] at hsub
  cases hsub

theorem not_posted_of_caller (h : CallsOk s)
    (hc : (s.call n).caller = .created ∨ (s.call n).caller = .resumed) : s.posted.count n = 0 := by
  by_contra hne
  obtain ⟨-, -, hcr, hre⟩ := (h.good n).posted (Nat.pos_of_ne_zero hne)
  rcases hc with hc | hc
  · exact hcr hc
  · exact hre hc

theorem await (h : CallsOk s) (hc : (s.call n).caller = .created) :
    CallsOk { Client.setCaller n .posted s with posted := s.posted ++ [n] } := by
  have hn := h.good n
  have hp := h.not_posted_of_caller (Or.inl hc)
  have hsub := hn.created hc
  have hnone : s.wait.count n = 0 ∧ s.loop.held.count n = 0 := by
    by_contra hne
    have := hn.queued (by omega)
    rw [show (s.ledger.calls n).submitted = false from hsub] at this
    cases this
  have hone : (s.posted ++ [n]).count n = 1 := by simp [hp]
  have hholds : (s.ledger.calls n).callerHolds = 1 := by
    rw [Call.callerHolds, if_neg]
    rw [show (s.ledger.calls n).caller = .created from hc]
    simp
  apply LedgerOk.set h
  · rw [hone]
    refine ⟨?_, ?_, hn.alive, ?_, Nat.le_refl 1, ?_, ?_, hn.wait_once, hn.queued, hn.won, hn.ready,
      hn.outcome, hn.settled⟩
    · intro hf
      have href := hn.references hf
      rw [hholds] at href
      exact href
    · intro hf
      have := hn.freed hf
      omega
    · intro hi
      have := (hn.unissued hi).1
      rw [show (s.ledger.calls n).caller = .created from hc] at this
      cases this
    · intro _
      refine ⟨hsub, ?_, ?_, ?_⟩ <;> simp
    · intro hcr
      cases hcr
  · intro m hm
    simp [Ne.symm hm]
  · exact fun m _ => rfl
  · exact fun m _ => rfl
  · exact fun m _ => rfl
  · exact fun m _ => rfl

theorem suspend (h : CallsOk s) (hc : (s.call n).caller = .posted) :
    CallsOk (Client.suspend n s) := by
  have hn := h.good n
  have hholds : (s.ledger.calls n).callerHolds = 1 := by
    rw [Call.callerHolds, if_neg]
    rw [show (s.ledger.calls n).caller = .posted from hc]
    simp
  apply LedgerOk.set h
  · refine ⟨?_, ?_, hn.alive, ?_, hn.posted_once, ?_, ?_, hn.wait_once, hn.queued, hn.won, ?_,
      hn.outcome, hn.settled⟩
    · intro hf
      have href := hn.references hf
      rw [hholds] at href
      exact href
    · intro hf
      have := hn.freed hf
      omega
    · intro hi
      have := (hn.unissued hi).1
      rw [show (s.ledger.calls n).caller = .posted from hc] at this
      cases this
    · intro hp
      refine ⟨(hn.posted hp).1, ?_, ?_, ?_⟩ <;> simp
    · intro hcr
      cases hcr
    · intro hr
      apply hn.ready
      rcases hr with hr | hr | hr
      · exact Or.inl hr
      · cases hr
      · exact Or.inr (Or.inr hr)
  · exact fun m _ => rfl
  · exact fun m _ => rfl
  · exact fun m _ => rfl
  · exact fun m _ => rfl
  · exact fun m _ => rfl

theorem leave (h : CallsOk s) (hc : (s.call n).caller ≠ .gone) (hp : s.posted.count n = 0) :
    CallsOk (Client.release n (Client.setCaller n .gone s)) :=
  LedgerOk.leave h hc hp

theorem syncStop (h : CallsOk s) (hc : (s.call n).caller = .blocked)
    (hsub : (s.call n).submitted = true) :
    CallsOk (Client.release n (Client.setCaller n .gone (Client.settle n none .disconnected s))) := by
  have hn := h.good n
  have hp : s.posted.count n = 0 := by
    by_contra hne
    have := (hn.posted (Nat.pos_of_ne_zero hne)).1
    rw [show (s.ledger.calls n).submitted = true from hsub] at this
    cases this
  have hholds : 0 < (s.ledger.calls n).callerHolds + s.wait.count n + s.loop.held.count n := by
    rw [Call.callerHolds, if_neg]
    · omega
    · rw [show (s.ledger.calls n).caller = .blocked from hc]
      simp
  have hsettled := LedgerOk.settle h hholds hsub (fun _ _ => rfl) none .disconnected
  apply LedgerOk.leave hsettled _ hp
  -- settling leaves the caller alone
  have hkeep : ((s.ledger.settle n none .disconnected).calls n).caller = (s.ledger.calls n).caller := by
    unfold Ledger.settle
    split
    · rfl
    split
    · rfl
    · show ((s.ledger.set n _).calls n).caller = _
      rw [Ledger.set_calls_self]
      rfl
  rw [hkeep, show (s.ledger.calls n).caller = .blocked from hc]
  simp

theorem submit (h : CallsOk s) {rest : List Nat} (hloop : s.loop = .idle)
    (hp : s.posted = n :: rest) (cfg : Config ρ) (now : Nat) (env : SendEnv) :
    CallsOk (Client.submit cfg n now env { s with posted := rest, clock := now }) := by
  have hidle := h.toIdle hloop
  rw [hp] at hidle
  have hn := hidle.good n
  rw [List.count_cons_self] at hn
  have hW : s.wait.count n = 0 := by
    by_contra hne
    have := hn.queued (by omega)
    rw [(hn.posted (by omega)).1] at this
    cases this
  have htaken := hidle.takePosted
  have hsub : (((s.ledger.retain n).set n
      { (s.ledger.retain n).calls n with submitted := true }).calls n).submitted = true := by
    rw [Ledger.set_calls_self]
  have hdone := LedgerOk.enqueue (s := { s with
    posted := rest
    clock := now
    ledger := (s.ledger.retain n).set n { (s.ledger.retain n).calls n with submitted := true } })
    htaken hW hsub cfg now env
  unfold CallsOk Client.submit
  dsimp only
  rw [enqueue_posted, enqueue_issued]
  exact hdone

theorem release_loop (h : CallsOk s) {loop : Loop} (hheld : s.loop.held = n :: loop.held)
    (hun : s.loop.unsettled = loop.unsettled) :
    CallsOk { Client.release n s with loop := loop } := by
  unfold CallsOk at h ⊢
  rw [hheld, hun] at h
  exact h.release

/-- A step of the poll thread that leaves every call where it is. -/
theorem relocate (h : CallsOk s) (hl : s'.ledger = s.ledger) (hp : s'.posted = s.posted)
    (hi : s'.issued = s.issued) (hw : s'.wait = s.wait) (hheld : s'.loop.held = s.loop.held)
    (hun : s'.loop.unsettled = s.loop.unsettled) : CallsOk s' := by
  unfold CallsOk
  rw [hl, hp, hi, hw, hheld, hun]
  exact h

/-- `FailAll` takes the queue over. -/
theorem failAll (h : CallsOk s) (hheld : s.loop.held = []) (hun : s.loop.unsettled = [])
    (status : Status) (after : After) : CallsOk (Client.failAll status after s) := by
  unfold CallsOk at h
  rw [hheld, hun] at h
  apply h.move
  · intro m
    simp [Client.failAll, Loop.held]
  · intro m
    exact Nat.zero_le 1
  · intro m hm
    rcases hm with hm | hm | hm
    · exact Or.inl hm
    · exact Or.inr (Or.inr hm)
    · simp at hm

theorem failSid (h : CallsOk s) (hloop : s.loop = .idle) (sid : Nat) :
    CallsOk (Client.failSid sid s) := by
  have hidle := h.toIdle hloop
  -- each entry stays or is taken
  have hsplit : ∀ m, (s.wait.filter fun n => !s.sentOn sid n).count m +
      (s.wait.filter (s.sentOn sid)).count m = s.wait.count m := by
    intro m
    have hperm := (List.filter_append_perm (s.sentOn sid) s.wait).count_eq m
    rw [List.count_append] at hperm
    omega
  apply hidle.move
  · intro m
    simpa [Client.failSid, Loop.held] using hsplit m
  · intro m
    have hle := (hidle.good m).wait_once
    have hm := hsplit m
    show (s.wait.filter fun n => !s.sentOn sid n).count m ≤ 1
    omega
  · intro m hm
    rcases hm with hm | hm | hm
    · exact Or.inl hm
    · have hm' := hsplit m
      show _ ∨ 0 < (s.wait.filter fun n => !s.sentOn sid n).count m ∨
        0 < (s.wait.filter (s.sentOn sid)).count m
      omega
    · simp at hm

theorem failNext (h : CallsOk s) {left : List Nat} {status : Status} {after : After}
    (hloop : s.loop = .failing (n :: left) status after) :
    CallsOk (Client.failNext n left status after s) := by
  unfold CallsOk at h
  rw [hloop] at h
  apply h.settle
  · simp only [Loop.held, List.count_cons_self]
    omega
  · apply (h.good n).queued
    simp only [Loop.held, List.count_cons_self]
    omega
  · intro m hm
    exact (LedgerOk.count_cons_ne hm left).symm

/-- A call that is swept is in the queue. -/
theorem sweepNext (h : CallsOk s) {left : List Nat} (hloop : s.loop = .sweeping (n :: left))
    (hn : n ∈ s.wait) :
    CallsOk { Client.settle n none .timeout s with loop := .sweeping left } := by
  unfold CallsOk at h
  rw [hloop] at h
  have hpos := List.count_pos_iff.2 hn
  apply h.settle
  · omega
  · apply (h.good n).queued
    omega
  · exact fun m _ => rfl

theorem takeReply (h : CallsOk s) {sid : Nat} (hloop : s.loop = .feeding sid) (cfg : Config ρ) (x : ρ)
    (r : Reader) :
    CallsOk (Client.takeReply cfg sid x { s with reader := some r }) := by
  have hfeed : LedgerOk s.ledger s.posted s.wait [] [] s.issued := by
    unfold CallsOk at h
    rw [hloop] at h
    exact h
  unfold Client.takeReply
  dsimp only
  split
  · exact h
  · rename_i n rest hwait
    have hwait : s.wait = n :: rest := hwait
    rw [hwait] at hfeed
    -- the queue's reference is in hand
    have htaken : LedgerOk s.ledger s.posted rest [n] [n] s.issued := by
      apply hfeed.move
      · intro m
        simp only [List.count_cons, List.count_nil]
        omega
      · intro m
        have := (hfeed.good m).wait_once
        have hle : rest.count m ≤ (n :: rest).count m := List.count_le_count_cons
        omega
      · intro m hm
        rcases hm with hm | hm | hm
        · exact Or.inl hm
        · by_cases hmn : m = n
          · exact Or.inr (Or.inr (by simp [hmn]))
          · rw [LedgerOk.count_cons_ne hmn] at hm
            exact Or.inr (Or.inl hm)
        · simp at hm
    apply htaken.settle
    · simp
    · apply (htaken.good n).queued
      simp
    · intro m hm
      exact (LedgerOk.count_cons_ne hm []).symm

theorem nextReply (h : CallsOk s) {sid : Nat} (hloop : s.loop = .feeding sid) (cfg : Config ρ) :
    CallsOk (Client.nextReply cfg sid s) := by
  have hheld : s.loop.held = [] := by rw [hloop]; rfl
  have hun : s.loop.unsettled = [] := by rw [hloop]; rfl
  unfold Client.nextReply
  dsimp only
  split
  · exact h.failAll hheld hun _ _
  split
  · exact h.relocate rfl rfl rfl rfl hheld.symm hun.symm
  · exact CallsOk.failAll (s := { s with reader := _ }) h hheld hun _ _
  · exact h.takeReply hloop cfg _ _

theorem feed (h : CallsOk s) (hloop : s.loop = .idle) (sid : Nat) (chunk : List UInt8) :
    CallsOk (Client.feed sid chunk s) := by
  have hheld : s.loop.held = [] := by rw [hloop]; rfl
  have hun : s.loop.unsettled = [] := by rw [hloop]; rfl
  unfold Client.feed
  split
  · exact h
  dsimp only
  split
  · exact CallsOk.failAll (s := { s with reader := _ }) h hheld hun _ _
  · exact h.relocate rfl rfl rfl rfl hheld.symm hun.symm

theorem failDone (h : CallsOk s) {status : Status} {after : After}
    (hloop : s.loop = .failing [] status after) : CallsOk (Client.failDone after s) := by
  have hheld : s.loop.held = [] := by rw [hloop]; rfl
  have hun : s.loop.unsettled = [] := by rw [hloop]; rfl
  unfold Client.failDone
  cases after with
  | nothing => exact h.relocate rfl rfl rfl rfl hheld.symm hun.symm
  | connected sid => exact h.relocate rfl rfl rfl rfl hheld.symm hun.symm
  | closeSession => exact h.relocate rfl rfl rfl rfl hheld.symm hun.symm
  | stopped => exact h.relocate rfl rfl rfl rfl hheld.symm hun.symm

theorem disconnect (h : CallsOk s) (hloop : s.loop = .idle) (sid : Nat) :
    CallsOk (Client.disconnect sid s) := by
  unfold Client.disconnect
  dsimp only
  apply CallsOk.failSid
  · split
    · split
      · exact h
      · exact h
    · split
      · exact h
      · exact h
  · split
    · split
      · exact hloop
      · exact hloop
    · split
      · exact hloop
      · exact hloop

end CallsOk

/-! ## The swept prefix -/

/-- The front of the queue has been dealt with, and the rest is in the order of the deadlines. -/
structure SweepOk (cfg : Config ρ) (s : State ρ) : Prop where
  swept_le : s.swept ≤ s.wait.length
  settled : ∀ n ∈ s.wait.take s.swept, (s.call n).won = true ∨ n ∈ s.loop.expiring
  sorted : s.wait.Pairwise fun a b => (s.call a).deadline ≤ (s.call b).deadline
  bound : ∀ n ∈ s.wait, (s.call n).deadline ≤ s.clock + cfg.timeoutMs
  expiring : ∀ n ∈ s.loop.expiring, n ∈ s.wait

theorem sweepOk_init (cfg : Config ρ) : SweepOk cfg {} where
  swept_le := Nat.le_refl 0
  settled := by simp
  sorted := List.Pairwise.nil
  bound := by simp
  expiring := by simp [Loop.expiring]

/-- The calls of the queue keep their deadlines and their outcomes. -/
def Keeps (s s' : State ρ) : Prop :=
  ∀ n ∈ s.wait, (s'.call n).deadline = (s.call n).deadline ∧
    ((s.call n).won = true → (s'.call n).won = true)

theorem Keeps.refl (s : State ρ) : Keeps s s := fun _ _ => ⟨rfl, id⟩

theorem keeps_set {c : Call ρ} (hd : c.deadline = (s.call n).deadline) (hw : c.won = (s.call n).won)
    : Keeps s { s with ledger := s.ledger.set n c } := by
  intro m _
  by_cases hm : m = n
  · subst hm
    simp only [State.call, Ledger.set_calls_self]
    exact ⟨hd, fun h => hw.trans h⟩
  · simp only [State.call, Ledger.set_calls_ne hm]
    exact ⟨trivial, id⟩

theorem keeps_settle (n : Nat) (x : Option ρ) (status : Status) (s : State ρ) :
    Keeps s (settle n x status s) := by
  intro m _
  by_cases hm : m = n
  · subst hm
    obtain h | h := Ledger.settle_calls_self s.ledger m x status
    · simp only [State.call, settle, h]
      exact ⟨trivial, id⟩
    · simp only [State.call, settle, h]
      exact ⟨rfl, fun _ => rfl⟩
  · simp only [State.call, settle, Ledger.settle_calls_ne hm]
    exact ⟨trivial, id⟩

theorem keeps_release (n : Nat) (s : State ρ) : Keeps s (release n s) := by
  intro m _
  by_cases hm : m = n
  · subst hm
    obtain ⟨r, f, h⟩ := Ledger.release_calls_self s.ledger m
    simp only [State.call, release, h]
    exact ⟨trivial, id⟩
  · simp only [State.call, release, Ledger.release_calls_ne hm]
    exact ⟨trivial, id⟩

theorem Keeps.trans {t u : State ρ} (h : Keeps s t) (h' : Keeps t u) (hw : t.wait = s.wait) :
    Keeps s u := by
  intro n hn
  obtain ⟨hd, hwon⟩ := h n hn
  obtain ⟨hd', hwon'⟩ := h' n (hw ▸ hn)
  exact ⟨hd'.trans hd, fun h => hwon' (hwon h)⟩

/-- Whoever won is a matter of `won` and of what is still to be swept. -/
theorem SweepOk.keep (h : SweepOk cfg s) (hk : Keeps s s') (hw : s'.wait = s.wait)
    (hs : s'.swept = s.swept) (hc : s.clock ≤ s'.clock)
    (hexp : ∀ n ∈ s'.loop.expiring, n ∈ s.loop.expiring)
    (hdone : ∀ n ∈ s.loop.expiring, (s'.call n).won = true ∨ n ∈ s'.loop.expiring) :
    SweepOk cfg s' where
  swept_le := by
    rw [hw, hs]
    exact h.swept_le
  settled := by
    intro n hn
    rw [hw, hs] at hn
    rcases h.settled n hn with hwon | hex
    · exact Or.inl ((hk n (List.mem_of_mem_take hn)).2 hwon)
    · exact hdone n hex
  sorted := by
    rw [hw]
    apply h.sorted.imp_of_mem
    intro a b ha hb hab
    rw [(hk a ha).1, (hk b hb).1]
    exact hab
  bound := by
    intro n hn
    rw [hw] at hn
    rw [(hk n hn).1]
    have := h.bound n hn
    omega
  expiring := by
    intro n hn
    rw [hw]
    exact h.expiring n (hexp n hn)

/-- The common case: nothing is being swept before or after. -/
theorem SweepOk.keepQuiet (h : SweepOk cfg s) (hk : Keeps s s') (hw : s'.wait = s.wait)
    (hs : s'.swept = s.swept) (hc : s.clock ≤ s'.clock) (hexp : s'.loop.expiring = s.loop.expiring)
    : SweepOk cfg s' := by
  apply h.keep hk hw hs hc
  · intro n hn
    rw [← hexp]
    exact hn
  · intro n hn
    rw [hexp]
    exact Or.inr hn

/-- `FailAll` empties the queue. -/
theorem sweepOk_failAll (cfg : Config ρ) (s : State ρ) (status : Status) (after : After) :
    SweepOk cfg (failAll status after s) where
  swept_le := Nat.le_refl 0
  settled := by simp [failAll]
  sorted := List.Pairwise.nil
  bound := by simp [failAll]
  expiring := by simp [failAll, Loop.expiring]

/-- The swept prefix of the entries that stay is what stays of the swept prefix. -/
theorem take_filter_length {α : Type} (p : α → Bool) : ∀ (xs : List α) (k : Nat),
    (xs.filter p).take ((xs.take k).filter p).length = (xs.take k).filter p
  | [], k => by simp
  | x :: xs, 0 => by simp
  | x :: xs, k + 1 => by
      have ih := take_filter_length p xs k
      rw [List.take_succ_cons]
      by_cases hx : p x = true
      · rw [List.filter_cons_of_pos hx, List.filter_cons_of_pos hx, List.length_cons,
          List.take_succ_cons, ih]
      · rw [List.filter_cons_of_neg hx, List.filter_cons_of_neg hx, ih]

theorem SweepOk.failSid (h : SweepOk cfg s) (hloop : s.loop = .idle) (sid : Nat) :
    SweepOk cfg (Client.failSid sid s) where
  swept_le := by
    have hsub : ((s.wait.take s.swept).filter fun n => !s.sentOn sid n).Sublist
        (s.wait.filter fun n => !s.sentOn sid n) := (List.take_sublist _ _).filter _
    exact hsub.length_le
  settled := by
    intro n hn
    have hn : n ∈ (s.wait.filter fun n => !s.sentOn sid n).take
      ((s.wait.take s.swept).filter fun n => !s.sentOn sid n).length := hn
    rw [take_filter_length] at hn
    rcases h.settled n (List.mem_filter.1 hn).1 with hwon | hex
    · exact Or.inl hwon
    · rw [hloop] at hex
      cases hex
  sorted := h.sorted.filter _
  bound := fun n hn => h.bound n (List.mem_filter.1 hn).1
  expiring := by
    intro n hn
    cases hn

/-- The front entry leaves, and the prefix with it. -/
theorem SweepOk.pop (h : SweepOk cfg s) {rest : List Nat} (hwait : s.wait = n :: rest)
    (hk : Keeps s s') (hw : s'.wait = rest) (hs : s'.swept = s.swept - 1) (hc : s'.clock = s.clock)
    (hexp : s.loop.expiring = []) (hexp' : s'.loop.expiring = []) : SweepOk cfg s' := by
  have hle := h.swept_le
  rw [hwait, List.length_cons] at hle
  have hsorted := h.sorted
  rw [hwait] at hsorted
  have hmem : ∀ m ∈ rest, m ∈ s.wait := by
    intro m hm
    rw [hwait]
    exact List.mem_cons_of_mem n hm
  constructor
  · rw [hw, hs]
    omega
  · intro m hm
    rw [hw, hs] at hm
    have hin : m ∈ s.wait.take s.swept := by
      cases hsw : s.swept with
      | zero =>
        rw [hsw] at hm
        simp at hm
      | succ k =>
        rw [hsw] at hm
        rw [hwait, List.take_succ_cons]
        exact List.mem_cons_of_mem n hm
    rcases h.settled m hin with hwon | hex
    · exact Or.inl ((hk m (List.mem_of_mem_take hin)).2 hwon)
    · rw [hexp] at hex
      cases hex
  · rw [hw]
    apply (List.pairwise_cons.1 hsorted).2.imp_of_mem
    intro a b ha hb hab
    rw [(hk a (hmem a ha)).1, (hk b (hmem b hb)).1]
    exact hab
  · intro m hm
    rw [hw] at hm
    rw [(hk m (hmem m hm)).1, hc]
    exact h.bound m (hmem m hm)
  · rw [hexp']
    simp

/-- `SweepTimeout` takes everything that has expired: the deadlines are in order. -/
theorem SweepOk.sweepTimeout (h : SweepOk cfg s) (hloop : s.loop = .idle) {now : Nat}
    (hnow : s.clock ≤ now) : SweepOk cfg (Client.sweepTimeout now { s with clock := now }) ∧
      ∀ n ∈ (Client.sweepTimeout now { s with clock := now }).wait.drop
        (Client.sweepTimeout now { s with clock := now }).swept, now < (s.call n).deadline := by
  have hpre : ∀ n ∈ s.wait.take s.swept, (s.call n).won = true := by
    intro n hn
    rcases h.settled n hn with hwon | hex
    · exact hwon
    · rw [hloop] at hex
      cases hex
  generalize hexp : (s.wait.drop s.swept).takeWhile
    (fun n => decide ((s.call n).deadline ≤ now)) = expired
  have hdef : Client.sweepTimeout now { s with clock := now } =
      { s with clock := now, swept := s.swept + expired.length, loop := .sweeping expired } := by
    rw [← hexp]
    rfl
  -- the rest of the queue begins with an entry that has not expired
  have hrest : s.wait.drop (s.swept + expired.length) = (s.wait.drop s.swept).dropWhile
      (fun n => decide ((s.call n).deadline ≤ now)) := by
    rw [← List.drop_drop]
    have hsplit := List.takeWhile_append_dropWhile (p := fun n => decide ((s.call n).deadline ≤ now))
      (l := s.wait.drop s.swept)
    rw [hexp] at hsplit
    conv_lhs => rw [← hsplit]
    rw [List.drop_left]
  have hinit : expired <+: s.wait.drop s.swept := by
    rw [← hexp]
    exact List.takeWhile_prefix _
  have hlen := hinit.length_le
  rw [List.length_drop] at hlen
  rw [hdef]
  refine ⟨⟨?_, ?_, h.sorted, ?_, ?_⟩, ?_⟩
  · show s.swept + expired.length ≤ s.wait.length
    have := h.swept_le
    omega
  · intro n hn
    have hn : n ∈ s.wait.take (s.swept + expired.length) := hn
    rw [List.take_add] at hn
    rcases List.mem_append.1 hn with hn | hn
    · exact Or.inl (hpre n hn)
    · right
      show n ∈ expired
      rw [List.prefix_iff_eq_take.1 hinit]
      exact hn
  · intro n hn
    have := h.bound n hn
    show (s.call n).deadline ≤ now + cfg.timeoutMs
    omega
  · intro n hn
    exact List.mem_of_mem_drop (hinit.subset hn)
  · intro n hn
    have hn : n ∈ s.wait.drop (s.swept + expired.length) := hn
    rw [hrest] at hn
    have hsorted : ((s.wait.drop s.swept).dropWhile
        (fun n => decide ((s.call n).deadline ≤ now))).Pairwise
        fun a b => (s.call a).deadline ≤ (s.call b).deadline :=
      h.sorted.sublist ((List.dropWhile_sublist _).trans (List.drop_sublist _ _))
    have hhead := @List.head?_dropWhile_not _ (fun n => decide ((s.call n).deadline ≤ now))
      (s.wait.drop s.swept)
    cases hcase : (s.wait.drop s.swept).dropWhile
        (fun n => decide ((s.call n).deadline ≤ now)) with
    | nil =>
      rw [hcase] at hn
      cases hn
    | cons a rest =>
      rw [hcase] at hn hsorted hhead
      simp only [List.head?_cons] at hhead
      have ha : now < (s.call a).deadline := by
        simpa using hhead
      rcases List.mem_cons.1 hn with rfl | hn
      · exact ha
      · have := (List.pairwise_cons.1 hsorted).1 n hn
        omega

/-- `Submit` puts its call at the end, with the latest deadline. -/
theorem SweepOk.submit (h : SweepOk cfg s) {rest : List Nat} (hloop : s.loop = .idle)
    (hn : n ∉ s.wait) {now : Nat} (hnow : s.clock ≤ now) (env : SendEnv) :
    SweepOk cfg (Client.submit cfg n now env { s with posted := rest, clock := now }) := by
  -- the call in hand is not in the queue, so its own fields do not matter
  have hpre : SweepOk cfg { s with
      posted := rest
      clock := now
      ledger := (s.ledger.retain n).set n
        { (s.ledger.retain n).calls n with submitted := true } } := by
    refine h.keepQuiet ?_ rfl rfl hnow rfl
    intro m hm
    have hmn : m ≠ n := by
      rintro rfl
      exact hn hm
    simp only [State.call, Ledger.set_calls_ne hmn, Ledger.retain_calls_ne hmn]
    exact ⟨trivial, id⟩
  unfold Client.submit
  dsimp only
  generalize hs₁ : ({ s with
      posted := rest
      clock := now
      ledger := (s.ledger.retain n).set n
        { (s.ledger.retain n).calls n with submitted := true } } : State ρ) = s₁ at hpre
  have hn₁ : n ∉ s₁.wait := by
    rw [← hs₁]
    exact hn
  have hl₁ : s₁.loop.expiring = [] := by
    rw [← hs₁]
    show s.loop.expiring = []
    rw [hloop]
    rfl
  have hc₁ : s₁.clock = now := by
    rw [← hs₁]
  obtain hun | ⟨sid, hsent⟩ :=
      @enqueue_cases _ cfg n now env s₁ hn₁ hpre.swept_le
  · have hfr := hun.frame
    have hk : Keeps s₁ (enqueue cfg n now env s₁) := by
      intro m hm
      have hmn : m ≠ n := by
        rintro rfl
        exact hn₁ hm
      rw [hun.others m hmn]
      exact ⟨rfl, id⟩
    refine hpre.keepQuiet hk ?_ ?_ ?_ hl₁.symm
    · show (enqueue cfg n now env s₁).wait = s₁.wait
      rw [hfr]
    · show (enqueue cfg n now env s₁).swept = s₁.swept
      rw [hfr]
    · show s₁.clock ≤ (enqueue cfg n now env s₁).clock
      exact Nat.le_of_eq (by rw [hfr])
  · have hfr := hsent.frame
    have hcall : ∀ m ∈ s₁.wait, (enqueue cfg n now env s₁).call m = s₁.call m := by
      intro m hm
      apply hsent.others
      rintro rfl
      exact hn₁ hm
    have hwait : (enqueue cfg n now env s₁).wait = s₁.wait ++ [n] := by rw [hfr]
    have hswept : (enqueue cfg n now env s₁).swept = s₁.swept := by rw [hfr]
    have hclock : (enqueue cfg n now env s₁).clock = s₁.clock := by rw [hfr]
    constructor
    · show (enqueue cfg n now env s₁).swept ≤ (enqueue cfg n now env s₁).wait.length
      rw [hswept, hwait, List.length_append]
      exact Nat.le_trans hpre.swept_le (Nat.le_add_right _ _)
    · intro m hm
      have hm : m ∈ (enqueue cfg n now env s₁).wait.take (enqueue cfg n now env s₁).swept := hm
      rw [hwait, hswept, List.take_append_of_le_length hpre.swept_le] at hm
      rcases hpre.settled m hm with hwon | hex
      · left
        show ((enqueue cfg n now env s₁).call m).won = true
        rw [hcall m (List.mem_of_mem_take hm)]
        exact hwon
      · rw [hl₁] at hex
        cases hex
    · show (enqueue cfg n now env s₁).wait.Pairwise fun a b =>
        ((enqueue cfg n now env s₁).call a).deadline ≤ ((enqueue cfg n now env s₁).call b).deadline
      rw [hwait, List.pairwise_append]
      refine ⟨?_, List.pairwise_singleton _ _, ?_⟩
      · apply hpre.sorted.imp_of_mem
        intro a b ha hb hab
        rw [hcall a ha, hcall b hb]
        exact hab
      · intro a ha b hb
        rw [List.mem_singleton.1 hb, hcall a ha, hsent.deadline, ← hc₁]
        exact hpre.bound a ha
    · intro m hm
      have hm : m ∈ (enqueue cfg n now env s₁).wait := hm
      rw [hwait] at hm
      show ((enqueue cfg n now env s₁).call m).deadline ≤
        (enqueue cfg n now env s₁).clock + cfg.timeoutMs
      rw [hclock]
      rcases List.mem_append.1 hm with hm | hm
      · rw [hcall m hm]
        exact hpre.bound m hm
      · exact Nat.le_of_eq (by rw [List.mem_singleton.1 hm, hsent.deadline, hc₁])
    · intro m hm
      cases hm

theorem SweepOk.takeReply (h : SweepOk cfg s) {sid : Nat} (hloop : s.loop = .feeding sid) (x : ρ)
    (r : Reader) : SweepOk cfg (Client.takeReply cfg sid x { s with reader := some r }) := by
  unfold Client.takeReply
  dsimp only
  split
  · exact h.keepQuiet (Keeps.refl s) rfl rfl (Nat.le_refl _) rfl
  · rename_i n rest hwait
    have hwait : s.wait = n :: rest := hwait
    refine h.pop hwait ?_ rfl rfl rfl ?_ rfl
    · exact keeps_settle n (some x) _ s
    · rw [hloop]
      rfl

/-- A call that was not issued is not in the queue. -/
theorem CallsOk.keeps_new (h : CallsOk s) (c : Call ρ) :
    Keeps s { s with ledger := s.ledger.set s.issued c } := by
  intro m hm
  have hmn : m ≠ s.issued := by
    rintro rfl
    have hn := h.good s.issued
    have hsub := hn.queued (Nat.add_pos_left (List.count_pos_iff.2 hm) _)
    rw [(hn.unissued (by simp)).2.1] at hsub
    cases hsub
  simp only [State.call, Ledger.set_calls_ne hmn]
  exact ⟨trivial, id⟩

theorem SweepOk.step (h : SweepOk cfg s) (hc : CallsOk s) (hs : Client.step cfg s e = some s') :
    SweepOk cfg s' := by
  have hpushed : ∀ c : Call ρ, Keeps s { s with ledger := s.ledger.set s.issued c } := hc.keeps_new
  have hcaller : ∀ n p, Keeps s (setCaller n p s) := fun n p => keeps_set rfl rfl
  have hleave : ∀ n, Keeps s (release n (setCaller n .gone s)) := fun n =>
    (hcaller n .gone).trans (keeps_release n _) rfl
  cases stepped hs with
  | call arguments => exact h.keepQuiet (hpushed _) rfl rfl (Nat.le_refl _) rfl
  | callSync arguments => exact h.keepQuiet (hpushed _) rfl rfl (Nat.le_refl _) rfl
  | awaitStop n _ => exact h.keepQuiet (hcaller n _) rfl rfl (Nat.le_refl _) rfl
  | await n _ => exact h.keepQuiet (hcaller n _) rfl rfl (Nat.le_refl _) rfl
  | gateReady n _ _ => exact h.keepQuiet (hcaller n _) rfl rfl (Nat.le_refl _) rfl
  | suspend n _ _ =>
    refine h.keepQuiet ?_ rfl rfl (Nat.le_refl _) rfl
    exact keeps_set rfl rfl
  | resume n _ _ => exact h.keepQuiet (hcaller n _) rfl rfl (Nat.le_refl _) rfl
  | syncReturn n _ _ => exact h.keepQuiet (hleave n) rfl rfl (Nat.le_refl _) rfl
  | syncStop n _ _ _ =>
    refine h.keepQuiet ?_ rfl rfl (Nat.le_refl _) rfl
    refine (keeps_settle n none .disconnected s).trans ?_ rfl
    have hset : Keeps (settle n none .disconnected s)
        (setCaller n .gone (settle n none .disconnected s)) := keeps_set rfl rfl
    exact hset.trans (keeps_release n _) rfl
  | destroy n _ => exact h.keepQuiet (hleave n) rfl rfl (Nat.le_refl _) rfl
  | requestStop => exact h.keepQuiet (Keeps.refl s) rfl rfl (Nat.le_refl _) rfl
  | submit n rest now env hloop hp hnow =>
    apply h.submit hloop _ hnow env
    intro hin
    have hn := hc.good n
    have hsub := hn.queued (Nat.add_pos_left (List.count_pos_iff.2 hin) _)
    rw [(hn.posted (by rw [hp, List.count_cons_self]; omega)).1] at hsub
    cases hsub
  | submitDone n hloop =>
    refine h.keepQuiet (keeps_release n s) rfl rfl (Nat.le_refl _) ?_
    rw [hloop]
    rfl
  | feed sid size hloop =>
    unfold Client.feed
    split
    · exact h.keepQuiet (Keeps.refl s) rfl rfl (Nat.le_refl _) rfl
    dsimp only
    split
    · exact sweepOk_failAll _ _ _ _
    · refine h.keepQuiet (Keeps.refl s) rfl rfl (Nat.le_refl _) ?_
      rw [hloop]
      rfl
  | nextReply sid hloop =>
    unfold Client.nextReply
    dsimp only
    split
    · exact sweepOk_failAll _ _ _ _
    split
    · refine h.keepQuiet (Keeps.refl s) rfl rfl (Nat.le_refl _) ?_
      rw [hloop]
      rfl
    · exact sweepOk_failAll _ _ _ _
    · exact h.takeReply hloop _ _
  | replyDone n sid hloop =>
    refine h.keepQuiet (keeps_release n s) rfl rfl (Nat.le_refl _) ?_
    rw [hloop]
    rfl
  | sweepTimeout now hloop hnow => exact (h.sweepTimeout hloop hnow).1
  | sweepDone hloop =>
    refine h.keepQuiet (Keeps.refl s) rfl rfl (Nat.le_refl _) ?_
    rw [hloop]
    rfl
  | sweepNext n left hloop =>
    have hexp : s.loop.expiring = n :: left := by
      rw [hloop]
      rfl
    refine h.keep (keeps_settle n none .timeout s) rfl rfl (Nat.le_refl _) ?_ ?_
    · intro m hm
      rw [hexp]
      exact List.mem_cons_of_mem n hm
    · intro m hm
      rw [hexp] at hm
      rcases List.mem_cons.1 hm with rfl | hm
      · -- it is in the queue, so it can be settled
        left
        have hin : m ∈ s.wait := h.expiring m (by rw [hexp]; exact List.mem_cons_self)
        have hpos := List.count_pos_iff.2 hin
        have hf := (hc.good m).not_freed (by omega)
        show ((s.ledger.settle m none .timeout).calls m).won = true
        unfold Ledger.settle
        rw [if_neg (by simp [hf])]
        split
        · rename_i hwon
          exact hwon
        · show ((s.ledger.set m _).calls m).won = true
          rw [Ledger.set_calls_self]
          rfl
      · exact Or.inr hm
  | failNext n left status after hloop =>
    refine h.keepQuiet (keeps_settle n none status s) rfl rfl (Nat.le_refl _) ?_
    rw [hloop]
    rfl
  | failRelease n left status after hloop =>
    refine h.keepQuiet (keeps_release n s) rfl rfl (Nat.le_refl _) ?_
    rw [hloop]
    rfl
  | failDone status after hloop =>
    have hexp : s.loop.expiring = [] := by
      rw [hloop]
      rfl
    unfold Client.failDone
    cases after with
    | nothing => exact h.keepQuiet (Keeps.refl s) rfl rfl (Nat.le_refl _) hexp.symm
    | connected sid => exact h.keepQuiet (Keeps.refl s) rfl rfl (Nat.le_refl _) hexp.symm
    | closeSession => exact h.keepQuiet (Keeps.refl s) rfl rfl (Nat.le_refl _) hexp.symm
    | stopped => exact h.keepQuiet (Keeps.refl s) rfl rfl (Nat.le_refl _) hexp.symm
  | connect hloop => exact sweepOk_failAll _ _ _ _
  | disconnect sid hloop =>
    unfold Client.disconnect
    dsimp only
    apply SweepOk.failSid
    · split <;> split <;> exact h.keepQuiet (Keeps.refl s) rfl rfl (Nat.le_refl _) rfl
    · split <;> split <;> exact hloop
  | stop hloop => exact sweepOk_failAll _ _ _ _
  | serverReply sid x _ => exact h.keepQuiet (Keeps.refl s) rfl rfl (Nat.le_refl _) rfl

theorem CallsOk.step (h : CallsOk s) (hw : SweepOk cfg s) (hs : Client.step cfg s e = some s') :
    CallsOk s' := by
  cases stepped hs with
  | call arguments => exact h.newCall arguments
  | callSync arguments => exact h.newCallSync arguments
  | awaitStop n hc =>
    exact h.toResumed (by rw [hc]; simp) (h.not_posted_of_caller (Or.inl hc))
  | await n hc => exact h.await hc
  | gateReady n hc hgate =>
    exact h.toResumed (by rw [hc]; simp)
      (h.not_posted_of_won ((h.good n).ready (Or.inr (Or.inl hgate))))
  | suspend n hc _ => exact h.suspend hc
  | resume n hc hsch =>
    exact h.toResumed (by rw [hc]; simp)
      (h.not_posted_of_won ((h.good n).ready (Or.inr (Or.inr hsch))))
  | syncReturn n hc hr =>
    exact h.leave (by rw [hc]; simp) (h.not_posted_of_won ((h.good n).ready (Or.inl hr)))
  | syncStop n hc hsub _ => exact h.syncStop hc hsub
  | destroy n hc =>
    refine h.leave ?_ (h.not_posted_of_caller hc)
    rcases hc with hc | hc <;> rw [hc] <;> simp
  | requestStop => exact h.relocate rfl rfl rfl rfl rfl rfl
  | submit n rest now env hloop hp _ => exact h.submit hloop hp cfg now env
  | submitDone n hloop =>
    apply h.release_loop
    · rw [hloop]
      rfl
    · rw [hloop]
      rfl
  | feed sid size hloop =>
    have hcut : CallsOk { s with
        sessions := s.sessions.modify sid fun v => { v with wire := v.wire.drop size } } :=
      h.relocate rfl rfl rfl rfl rfl rfl
    exact hcut.feed hloop sid _
  | nextReply sid hloop => exact h.nextReply hloop cfg
  | replyDone n sid hloop =>
    apply h.release_loop
    · rw [hloop]
      rfl
    · rw [hloop]
      rfl
  | sweepTimeout now hloop _ | sweepDone hloop =>
    refine h.relocate rfl rfl rfl rfl ?_ ?_
    · rw [hloop]
      rfl
    · rw [hloop]
      rfl
  | sweepNext n left hloop =>
    apply h.sweepNext hloop
    apply hw.expiring
    rw [hloop]
    exact List.mem_cons_self
  | failNext n left status after hloop => exact h.failNext hloop
  | failRelease n left status after hloop =>
    apply h.release_loop
    · rw [hloop]
      rfl
    · rw [hloop]
      rfl
  | failDone status after hloop => exact h.failDone hloop
  | connect hloop =>
    apply CallsOk.failAll
    · exact h.relocate rfl rfl rfl rfl rfl rfl
    · show s.loop.held = []
      rw [hloop]
      rfl
    · show s.loop.unsettled = []
      rw [hloop]
      rfl
  | disconnect sid hloop => exact h.disconnect hloop sid
  | stop hloop =>
    apply h.failAll
    · rw [hloop]
      rfl
    · rw [hloop]
      rfl
  | serverReply sid x _ => exact h.relocate rfl rfl rfl rfl rfl rfl

/-- While `SweepTimeout` settles what it took, everything behind the prefix has time left. -/
def SweptAll (s : State ρ) : Prop :=
  ∀ left, s.loop = .sweeping left → ∀ n ∈ s.wait.drop s.swept, s.clock < (s.call n).deadline

theorem SweptAll.keep (h : SweptAll s) (hk : Keeps s s') (hw : s'.wait = s.wait)
    (hs : s'.swept = s.swept) (hc : s'.clock = s.clock) (hl : s'.loop = s.loop) : SweptAll s' := by
  intro left hloop n hn
  rw [hw, hs] at hn
  rw [(hk n (List.mem_of_mem_drop hn)).1, hc]
  exact h left (hl.symm.trans hloop) n hn

/-- Outside `SweepTimeout` there is nothing to say. -/
theorem sweptAll_of_ne (h : ∀ left, s.loop ≠ .sweeping left) : SweptAll s :=
  fun left hl => absurd hl (h left)

theorem SweptAll.step (h : SweptAll s) (hw : SweepOk cfg s) (hc : CallsOk s)
    (hs : Client.step cfg s e = some s') : SweptAll s' := by
  have hnew : ∀ c : Call ρ, Keeps s { s with ledger := s.ledger.set s.issued c } := hc.keeps_new
  have hcaller : ∀ n p, Keeps s (setCaller n p s) := fun n p => keeps_set rfl rfl
  have hleave : ∀ n, Keeps s (release n (setCaller n .gone s)) := fun n =>
    (hcaller n .gone).trans (keeps_release n _) rfl
  cases stepped hs with
  | call arguments => exact h.keep (hnew _) rfl rfl rfl rfl
  | callSync arguments => exact h.keep (hnew _) rfl rfl rfl rfl
  | awaitStop n _ => exact h.keep (hcaller n _) rfl rfl rfl rfl
  | await n _ => exact h.keep (hcaller n _) rfl rfl rfl rfl
  | gateReady n _ _ => exact h.keep (hcaller n _) rfl rfl rfl rfl
  | suspend n _ _ =>
    refine h.keep ?_ rfl rfl rfl rfl
    exact keeps_set rfl rfl
  | resume n _ _ => exact h.keep (hcaller n _) rfl rfl rfl rfl
  | syncReturn n _ _ => exact h.keep (hleave n) rfl rfl rfl rfl
  | syncStop n _ _ hloop =>
    apply sweptAll_of_ne
    intro left hl
    have hl : s.loop = .sweeping left := hl
    rw [hloop] at hl
    cases hl
  | destroy n _ => exact h.keep (hleave n) rfl rfl rfl rfl
  | requestStop => exact h.keep (Keeps.refl s) rfl rfl rfl rfl
  | submit n rest now env hloop hp hnow => exact sweptAll_of_ne (fun _ hl => by cases hl)
  | submitDone n hloop => exact sweptAll_of_ne (fun _ hl => by cases hl)
  | feed sid size hloop =>
    apply sweptAll_of_ne
    intro left hl
    unfold Client.feed at hl
    split at hl
    · rw [show _ = s.loop from rfl, hloop] at hl
      cases hl
    dsimp only at hl
    split at hl
    · cases hl
    · cases hl
  | nextReply sid hloop =>
    apply sweptAll_of_ne
    intro left hl
    unfold Client.nextReply at hl
    dsimp only at hl
    split at hl
    · cases hl
    split at hl
    · cases hl
    · cases hl
    · unfold Client.takeReply at hl
      dsimp only at hl
      split at hl
      · rw [show _ = s.loop from rfl, hloop] at hl
        cases hl
      · cases hl
  | replyDone n sid hloop => exact sweptAll_of_ne (fun _ hl => by cases hl)
  | sweepTimeout now hloop hnow =>
    intro left _ n hn
    exact (hw.sweepTimeout hloop hnow).2 n hn
  | sweepDone hloop => exact sweptAll_of_ne (fun _ hl => by cases hl)
  | sweepNext n left hloop =>
    intro left' _ m hm
    have hm : m ∈ s.wait.drop s.swept := hm
    show s.clock < ((settle n none .timeout s).call m).deadline
    rw [(keeps_settle n none .timeout s m (List.mem_of_mem_drop hm)).1]
    exact h _ hloop m hm
  | failNext n left status after hloop => exact sweptAll_of_ne (fun _ hl => by cases hl)
  | failRelease n left status after hloop => exact sweptAll_of_ne (fun _ hl => by cases hl)
  | failDone status after hloop =>
    apply sweptAll_of_ne
    intro left hl
    unfold Client.failDone at hl
    cases after with
    | nothing => cases hl
    | connected sid => cases hl
    | closeSession => cases hl
    | stopped => cases hl
  | connect hloop => exact sweptAll_of_ne (fun _ hl => by cases hl)
  | disconnect sid hloop => exact sweptAll_of_ne (fun _ hl => by cases hl)
  | stop hloop => exact sweptAll_of_ne (fun _ hl => by cases hl)
  | serverReply sid x _ => exact h.keep (Keeps.refl s) rfl rfl rfl rfl

/-! ## Runs -/

theorem callsOk_run {es : List (Event ρ)} (hrun : runFrom (step cfg) {} es = some s) :
    CallsOk s ∧ SweepOk cfg s ∧ SweptAll s :=
  runFrom_invariant (I := fun s => CallsOk s ∧ SweepOk cfg s ∧ SweptAll s)
    (fun _ _ _ hI hs => ⟨hI.1.step hI.2.1 hs, hI.2.1.step hI.1 hs, hI.2.2.step hI.2.1 hI.1 hs⟩)
    ⟨callsOk_init, sweepOk_init cfg, sweptAll_of_ne (fun _ hl => by cases hl)⟩ hrun

/-- The holders of a call's `State`: its caller, the queue, and the operation of the poll thread. -/
def State.holders (s : State ρ) (n : Nat) : Nat :=
  (s.call n).callerHolds + s.wait.count n + s.loop.held.count n

/-- What is promised of the calls. -/
structure SettledOnce (cfg : Config ρ) (s : State ρ) : Prop where
  /-- No call is settled twice. -/
  at_most_once : ∀ n, s.ledger.times n ≤ 1
  /-- A submitted call that is not queued has its outcome, unless the running operation has just
  taken it out to settle it. -/
  exactly_once : ∀ n, (s.call n).submitted = true → n ∉ s.wait → n ∉ s.loop.unsettled →
    s.ledger.times n = 1
  swept_le : s.swept ≤ s.wait.length
  /-- The swept entries are settled, unless `SweepTimeout` is just about to. -/
  swept_settled : ∀ n ∈ s.wait.take s.swept, s.ledger.times n = 1 ∨ n ∈ s.loop.expiring
  /-- When `SweepTimeout` has taken what it settles, everything else has time left, -/
  sweep_all : ∀ now s', step cfg s (.sweepTimeout now) = some s' →
    s'.clock = now ∧ ∀ n ∈ s'.wait.drop s'.swept, now < (s'.call n).deadline
  /-- and it still is so when it returns. -/
  sweep_returns : ∀ s', s.loop = .sweeping [] → step cfg s .sweepNext = some s' →
    s'.loop = .idle ∧ ∀ n ∈ s'.wait.drop s'.swept, s'.clock < (s'.call n).deadline
  /-- The reference count is the number of holders, and the `State` is deleted when there are none.
  -/
  references : ∀ n < s.issued, (s.call n).freed = false →
    (s.call n).references = s.holders n ∧ 0 < s.holders n
  freed : ∀ n, (s.call n).freed = true → s.holders n = 0
  not_freed_in_wait : ∀ n ∈ s.wait, (s.call n).freed = false
  /-- No deleted `State` was ever used or deleted again. -/
  no_misuse : s.ledger.misuse = false

theorem Good.times_of_won {c : Call ρ} {k p w h u : Nat} {i : Bool} (g : Good c k p w h u i)
    (hwon : c.won = true) : k = 1 := by
  rw [g.settled, if_pos hwon]

/-- **Each call settles exactly once and the sweep misses nothing**, in every run of callers, sends,
replies, sweeps, connects and disconnects. -/
theorem calls_settled_once (cfg : Config ρ) {es : List (Event ρ)} {s : State ρ}
    (hrun : runFrom (step cfg) {} es = some s) : SettledOnce cfg s := by
  obtain ⟨hc, hw, hall⟩ := callsOk_run hrun
  constructor
  · intro n
    rw [(hc.good n).settled]
    split <;> omega
  · intro n hsub hwait hun
    have hn := hc.good n
    rcases hn.outcome hsub with hwon | hin | hin
    · exact hn.times_of_won hwon
    · exact absurd (List.count_pos_iff.1 hin) hwait
    · exact absurd (List.count_pos_iff.1 hin) hun
  · exact hw.swept_le
  · intro n hn
    rcases hw.settled n hn with hwon | hex
    · exact Or.inl ((hc.good n).times_of_won hwon)
    · exact Or.inr hex
  · intro now s' hs
    obtain ⟨hidle, rfl⟩ := of_guard hs
    refine ⟨rfl, ?_⟩
    intro n hn
    exact (hw.sweepTimeout hidle.1 hidle.2).2 n hn
  · intro s' hloop hs
    unfold step at hs
    simp only [hloop] at hs
    obtain rfl := Option.some.inj hs
    exact ⟨rfl, fun n hn => hall _ hloop n hn⟩
  · intro n hn hf
    have hgood := hc.good n
    have href := hgood.references hf
    have hpos := hgood.alive (decide_eq_true hn) hf
    refine ⟨href, ?_⟩
    rw [href] at hpos
    exact hpos
  · intro n hf
    exact (hc.good n).freed hf
  · intro n hn
    have hpos := List.count_pos_iff.2 hn
    exact (hc.good n).not_freed (by omega)
  · exact hc.sane

/-- The late reply settles nothing, and both calls are deleted. -/
theorem calls_settled_once_lateReply :
    ∃ s, runFrom (step smallClient) {} lateReply = some s ∧ SettledOnce smallClient s ∧
      s.ledger.settled.map (fun t => (t.call, t.status, t.reply)) =
        [(0, .timeout, none), (1, .ok, some 4)] ∧
      (List.range 2).map (fun n => (s.call n).freed) = [true, true] := by
  have hend : (runFrom (step smallClient) {} lateReply).map
      (fun s => (s.ledger.settled.map (fun t => (t.call, t.status, t.reply)),
        (List.range 2).map (fun n => (s.call n).freed))) =
      some ([(0, .timeout, none), (1, .ok, some 4)], [true, true]) := by
    decide +kernel
  obtain ⟨s, hs, heq⟩ := Option.map_eq_some_iff.1 hend
  simp only [Prod.mk.injEq] at heq
  exact ⟨s, hs, calls_settled_once smallClient hs, heq.1, heq.2⟩

end OpenIdea.Redis.Client
