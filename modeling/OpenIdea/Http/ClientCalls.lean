import OpenIdea.Http.ClientInvariant

/-!
# The calls of the HTTP client

Every function of the client that may call `Pump` or `CloseSession` leaves the client in a state
that is `Done`, if the functions below do and the depth of the calls is enough for the queue. The
induction on the depth then gives it for all of them. The main result is `calls_serve`.
-/

set_option autoImplicit false

namespace OpenIdea.Http

open OpenIdea.Lib.Runs OpenIdea.Lib.Rounds

/-! ## What a depth is enough for

A request of the queue takes three levels of nested calls at most; `cost` is what `Pump` needs in a
state. -/

/-- What `Pump` needs in a state. -/
def cost (s : Impl) : Nat := 3 * s.queue.length + if s.ready.isSome = true then 0 else 1

/-- The functions do what they should, on queues for which the depth is enough. -/
structure Serves (k : Calls) (n : Nat) : Prop where
  pump : ∀ s, Good s → cost s ≤ n → 0 < n → Done (k.pump s) ∧ After s (k.pump s)
  close : ∀ i s, Base s → Serving s → i ∈ s.sessionMap → 3 * s.queue.length + 2 ≤ n →
    Done (k.closeSession i s) ∧ After s (k.closeSession i s)

theorem cost_le (s : Impl) : cost s ≤ 3 * s.queue.length + 1 := by
  rw [cost]
  split
  · omega
  · omega

/-! ## Small steps -/

variable {s : Impl} {i r : Nat}

/-- Nobody is served any more. -/
theorem Wired.release {s' : Impl} (h : Wired s)
    (hopen : ∀ i, (s'.sessions i).isOpen = (s.sessions i).isOpen)
    (hactive : ∀ i, (s'.sessions i).active = false) (hflight : s'.flight = none)
    (hqueue : s.closed = true → s'.queue = [])
    (hsame : s'.overrun = s.overrun ∧ s'.sessionMap = s.sessionMap ∧ s'.session = s.session ∧
      s'.sessionId = s.sessionId ∧ s'.connected = s.connected ∧ s'.connecting = s.connecting ∧
      s'.closed = s.closed ∧ s'.bConnectPending = s.bConnectPending ∧
      s'.iCurrentSessionId = s.iCurrentSessionId ∧ s'.stopRequested = s.stopRequested) :
    Wired s' := by
  obtain ⟨hover, hmap, hsession, hid, hconn, hing, hclosed, hpend, hcur, hstop⟩ := hsame
  constructor
  · rw [hover]
    exact h.depth
  · intro i
    rw [hopen, hmap]
    exact h.opened i
  · rw [hmap, hsession]
    exact h.one
  · rw [hsession, hcur]
    exact h.known
  · rw [hmap]
    exact h.nodup
  · rw [hconn, hsession]
    exact h.connected
  · rw [hid, hsession]
    exact h.own
  · intro i hi
    rw [hactive] at hi
    cases hi
  · intro r hr
    rw [hflight] at hr
    cases hr
  · rw [hpend, hing, hclosed, hmap]
    exact h.pending
  · rw [hstop, hclosed, hing, hpend]
    exact h.trying
  · intro hc
    rw [hclosed] at hc
    exact ⟨hqueue hc, hflight⟩

variable {j : Nat}

/-- Only the session of use can be active. -/
theorem Wired.inactive (h : Wired s) (hi : s.session = some i) (hj : j ≠ i) :
    (s.sessions j).active = false := by
  by_contra ha
  have hact := (h.active j (by simpa using ha)).1
  rw [hi] at hact
  exact hj (Option.some.inj hact).symm

/-- Without a request in flight no session is active. -/
theorem Wired.all_inactive (h : Wired s) (hf : s.flight = none) (j : Nat) :
    (s.sessions j).active = false := by
  by_contra ha
  have hact := (h.active j (by simpa using ha)).2
  rw [hf] at hact
  cases hact

theorem Wired.open_session (h : Wired s) (hi : (s.sessions i).isOpen = true) : s.session = some i :=
  h.one i ((h.opened i).1 hi)

/-- With a connect attempt pending no session is open and nothing is in flight. -/
theorem Good.pending (h : Good s) (hp : s.bConnectPending = true) :
    s.connecting = true ∧ s.closed = false ∧ s.sessionMap = [] ∧ s.flight = none := by
  obtain ⟨hing, hclosed, hmap⟩ := h.base.wired.pending hp
  refine ⟨hing, hclosed, hmap, ?_⟩
  cases hf : s.flight with
  | none => rfl
  | some r =>
    obtain ⟨i, _, hopen, _⟩ := h.flying r hf
    have hin := (h.base.wired.opened i).1 hopen
    rw [hmap] at hin
    cases hin

/-- The session of use is ready, or no session is open. -/
theorem Wired.ready_none (h : Wired s) (hr : s.ready = none) : s.sessionMap = [] := by
  by_contra hne
  obtain ⟨i, hi⟩ := List.exists_mem_of_ne_nil _ hne
  have hsession := h.one i hi
  have hopen := (h.opened i).2 hi
  have hconn : s.connected = true := by
    rw [h.connected, hsession]
    rfl
  simp only [Impl.ready, hsession, hconn, hopen, and_self, if_true] at hr
  cases hr

theorem ready_some (hr : s.ready = some i) : s.session = some i ∧ (s.sessions i).isOpen = true := by
  rw [Impl.ready] at hr
  split at hr
  case h_1 j hj =>
    split at hr
    case isTrue hcond =>
      obtain rfl := Option.some.inj hr
      exact ⟨hj, hcond.2⟩
    case isFalse => cases hr
  case h_2 => cases hr

/-! ## The end of a response -/

theorem setSession_same (s : Impl) (i : Nat) : s.setSession i (s.sessions i) = s := by
  simp only [Impl.setSession, Function.update_eq_self]

/-- What a request is told by the end of its response. -/
def Request.answered (x : Request) (f : Finish) : Request :=
  { x with iStatus := f.status, sBody := if f.bFail then x.sBody else f.body }

/-- The client after the end of a response, before it goes on. -/
def finished (i r : Nat) (f : Finish) (s : Impl) : Impl :=
  { s.setSession i (s.sessions i).abandon with
    flight := none
    requests := Function.update s.requests r
      (((s.requests r).answered f).published f.bFail f.why) }

theorem finished_sessions (i r : Nat) (f : Finish) (s : Impl) (j : Nat) :
    ((finished i r f s).sessions j).isOpen = (s.sessions j).isOpen ∧
      ((finished i r f s).sessions j).spans = (s.sessions j).spans ∧
      ((finished i r f s).sessions j).early = (s.sessions j).early ∧
      ((finished i r f s).sessions j).received = (s.sessions j).received := by
  have hs : (finished i r f s).sessions = (s.setSession i (s.sessions i).abandon).sessions := rfl
  rw [hs]
  by_cases hj : j = i
  · subst hj
    rw [setSession_self]
    exact ⟨rfl, rfl, rfl, rfl⟩
  · rw [setSession_ne s _ hj]
    exact ⟨rfl, rfl, rfl, rfl⟩

/-- The end of the response to the request in flight. -/
theorem finishResponse_eq (env : Env) (k : Calls) (f : Finish) (hf : s.flight = some r)
    (hi : s.session = some i) (hdone : (s.requests r).iDone = false) :
    finishResponse env k i f s =
      if (f.bFail || f.bClose || !env.bReuse) = true ∧ (s.sessions i).isOpen = true then
        k.closeSession i (finished i r f s)
      else if s.closed then finished i r f s
      else k.pump (finished i r f s) := by
  have hanswer : (if f.bFail = true then { s.requests r with iStatus := f.status }
      else { ({ s.requests r with iStatus := f.status } : Request) with sBody := f.body }) =
      (s.requests r).answered f := by
    rw [Request.answered]
    split
    · rfl
    · rfl
  have hpub : publish (({ s.setSession i (s.sessions i).abandon with flight := none } :
      Impl).setRequest r ((s.requests r).answered f)) r f.bFail f.why = finished i r f s := by
    rw [publish_eq]
    · rw [setRequest_self]
      simp only [finished, Impl.setRequest, Impl.setSession, Function.update_idem]
    · rw [setRequest_self]
      exact hdone
  have habandon : (finished i r f s).setSession i ((finished i r f s).sessions i).abandon =
      finished i r f s := by
    have hself : ((finished i r f s).sessions i).abandon = (finished i r f s).sessions i := by
      have he : (finished i r f s).sessions i = (s.sessions i).abandon :=
        setSession_self s i (s.sessions i).abandon
      rw [he]
      rfl
    rw [hself, setSession_same]
  have hbody : finishResponse env k i f s =
      (fun u : Impl =>
        if (f.bFail || f.bClose || !env.bReuse) = true ∧ u.session = some i ∧
            (u.sessions i).isOpen = true then
          k.closeSession i (u.setSession i (u.sessions i).abandon)
        else if u.closed then u
        else k.pump u) (finished i r f s) := by
    have hflight : (s.setSession i (s.sessions i).abandon).flight = some r := hf
    have hown : (s.setSession i (s.sessions i).abandon).session = some i := hi
    simp only [finishResponse, onHttpFinished, hflight, if_pos hown]
    -- what is left is the state after the request was taken off the session
    rw [← hpub, ← hanswer]
    rfl
  have hsession : (finished i r f s).session = some i := hi
  have hopen := (finished_sessions i r f s i).1
  have hclosed : (finished i r f s).closed = s.closed := rfl
  rw [hbody]
  dsimp only
  rw [habandon, hsession, hopen, hclosed]
  simp only [true_and]

theorem finished_wired (f : Finish) (h : Wired s) (hi : s.session = some i) :
    Wired (finished i r f s) := by
  apply h.release
  · exact fun j => (finished_sessions i r f s j).1
  · intro j
    have hs : (finished i r f s).sessions = (s.setSession i (s.sessions i).abandon).sessions := rfl
    rw [hs]
    by_cases hj : j = i
    · subst hj
      rw [setSession_self]
      rfl
    · rw [setSession_ne s _ hj]
      exact h.inactive hi hj
  · rfl
  · exact fun hc => (h.shut hc).1
  · exact ⟨rfl, rfl, rfl, rfl, rfl, rfl, rfl, rfl, rfl, rfl⟩

/-- **The request in flight leaves the session, with a result from its span.** -/
theorem finished_base {f : Finish} (h : Base s) (hf : s.flight = some r) (hi : s.session = some i)
    {bytes : List UInt8}
    (hlast : (s.sessions i).spans.getLast? = some { request := r, bytes := bytes, after := [] })
    (hfrom : f.bFail = false →
      ∃ close, closing close (responses.work (beginResponse.append bytes)) = some f) :
    Base (finished i r f s) := by
  have hreq : (finished i r f s).requests = Function.update s.requests r
      (({ s.requests r with
          iStatus := f.status
          sBody := if f.bFail then (s.requests r).sBody else f.body } : Request).published
        f.bFail f.why) := rfl
  have hholders : ∀ q, (finished i r f s).holders q = s.posted.count q + s.queue.count q := by
    intro q
    rfl
  constructor
  · exact finished_wired f h.wired hi
  · apply h.account.retire hreq
    · rw [hholders, Impl.holders, if_pos hf]
    · intro q hq
      have hne : s.flight ≠ some q := by
        rw [hf]
        exact fun he => hq (Option.some.inj he).symm
      rw [hholders, Impl.holders, if_neg hne, Nat.add_zero]
  · intro j
    obtain ⟨_, hspans, hearly, hreceived⟩ := finished_sessions i r f s j
    exact (h.sessions j).congr hspans hearly hreceived
  · have hcur : (finished i r f s).iCurrentSessionId = s.iCurrentSessionId := rfl
    apply h.told.retire hcur hreq
    · exact fun j => (finished_sessions i r f s j).2.1
    · intro hok
      obtain ⟨close, hclose⟩ := hfrom hok
      refine ⟨i, h.wired.known i hi, _, List.mem_of_getLast? hlast, rfl, close, f, hclose, hok,
        rfl, ?_⟩
      rw [hok]
      rfl

theorem finished_after (i r : Nat) (f : Finish) (s : Impl) : After s (finished i r f s) where
  queue := Nat.le_refl _
  known := Nat.le_refl _
  closed := fun j _ ho => by
    rw [(finished_sessions i r f s j).1] at ho
    exact ho

/-- Where nothing is in flight, only the sessions without a request matter. -/
theorem Base.good (h : Base s) (hf : s.flight = none) (hclean : Clean s) : Good s where
  base := h
  serving := fun r hr => by
    rw [hf] at hr
    cases hr
  flying := fun r hr => by
    rw [hf] at hr
    cases hr
  clean := hclean

/-- The client after `Shutdown` waits for nothing. -/
theorem Good.done_of_closed (h : Good s) (hc : s.closed = true) : Done s where
  good := h
  settled := fun hq => absurd (h.base.wired.shut hc).1 hq

section Levels

variable (env : Env) {k : Calls} {n : Nat}

/-- **The end of a response.** The session is closed, or ready for the next request. -/
theorem Serves.finishResponse (hk : Serves k n) {f : Finish} (h : Base s) (hf : s.flight = some r)
    (hi : s.session = some i) {bytes : List UInt8}
    (hlast : (s.sessions i).spans.getLast? = some { request := r, bytes := bytes, after := [] })
    (hfrom : f.bFail = false →
      ∃ close, closing close (responses.work (beginResponse.append bytes)) = some f)
    (hexact : (s.sessions i).isOpen = true → f.bFail = false → f.bClose = false →
      responses.work (beginResponse.append bytes) = .done f)
    (hn : 3 * s.queue.length + (if (s.sessions i).isOpen = true then 2 else 1) ≤ n) :
    Done (Http.finishResponse env k i f s) ∧ After s (Http.finishResponse env k i f s) := by
  have hdone := h.account.waiting (holders_pos_of_flight hf)
  have hbase := finished_base h hf hi hlast hfrom
  have hafter := finished_after i r f s
  have hopen := fun j => (finished_sessions i r f s j).1
  have hspans := fun j => (finished_sessions i r f s j).2.1
  have hearly := fun j => (finished_sessions i r f s j).2.2.1
  have hnone : (finished i r f s).flight = none := rfl
  rw [finishResponse_eq env k f hf hi hdone]
  by_cases hdrop : (f.bFail || f.bClose || !env.bReuse) = true ∧ (s.sessions i).isOpen = true
  · -- the session is closed, and the close pumps the queue
    rw [if_pos hdrop]
    rw [if_pos hdrop.2] at hn
    obtain ⟨hd, ha⟩ := hk.close i (finished i r f s) hbase
      (fun q hq => by
        rw [hnone] at hq
        cases hq)
      ((h.wired.opened i).1 hdrop.2) hn
    exact ⟨hd, hafter.trans ha⟩
  · rw [if_neg hdrop]
    have hclean : Clean (finished i r f s) := by
      intro j hj _
      rw [hopen] at hj
      -- the only open session is the one of the response, which was complete
      have hij : j = i := by
        have hsession := h.wired.open_session hj
        rw [hi] at hsession
        exact (Option.some.inj hsession).symm
      subst hij
      have hkeep : (f.bFail || f.bClose || !env.bReuse) = false := by
        cases hb : (f.bFail || f.bClose || !env.bReuse) with
        | false => rfl
        | true => exact absurd ⟨hb, hj⟩ hdrop
      simp only [Bool.or_eq_false_iff] at hkeep
      obtain ⟨⟨hfail, hclose⟩, -⟩ := hkeep
      constructor
      · rw [hearly]
        apply (h.sessions j).early
        intro hnil
        rw [hnil] at hlast
        cases hlast
      · intro sp hsp
        rw [hspans, hlast] at hsp
        obtain rfl := Option.some.inj hsp
        exact ⟨rfl, f, hexact hj hfail hclose, hfail, hclose⟩
    have hgood := hbase.good hnone hclean
    split
    case isTrue hc => exact ⟨hgood.done_of_closed hc, hafter⟩
    case isFalse =>
      have hcost : cost (finished i r f s) ≤ n := by
        have hle := cost_le (finished i r f s)
        have hqueue : (finished i r f s).queue = s.queue := rfl
        rw [hqueue] at hle
        split at hn
        · omega
        · omega
      obtain ⟨hd, ha⟩ := hk.pump _ hgood hcost (by split at hn <;> omega)
      exact ⟨hd, hafter.trans ha⟩

end Levels

/-! ## The close of a session -/

/-- The session is closed and taken from the map. -/
def removed (i : Nat) (s : Impl) : Impl :=
  { s with sessionMap := s.sessionMap.erase i }.setSession i
    { s.sessions i with isOpen := false }

theorem removed_session (i : Nat) (s : Impl) :
    (removed i s).sessions i = { s.sessions i with isOpen := false } :=
  setSession_self _ _ _

theorem removed_session_ne (s : Impl) (h : j ≠ i) : (removed i s).sessions j = s.sessions j :=
  setSession_ne _ _ h

/-- The close is no matter of what has come on the session. -/
theorem removed_record (i : Nat) (s : Impl) (j : Nat) :
    ((removed i s).sessions j).spans = (s.sessions j).spans ∧
      ((removed i s).sessions j).early = (s.sessions j).early ∧
      ((removed i s).sessions j).received = (s.sessions j).received ∧
      ((removed i s).sessions j).active = (s.sessions j).active ∧
      ((removed i s).sessions j).parser = (s.sessions j).parser := by
  by_cases hj : j = i
  · subst hj
    rw [removed_session]
    exact ⟨rfl, rfl, rfl, rfl, rfl⟩
  · rw [removed_session_ne s hj]
    exact ⟨rfl, rfl, rfl, rfl, rfl⟩

/-- Every session is closed then. -/
theorem removed_closed (h : Wired s) (hi : i ∈ s.sessionMap) (j : Nat) :
    ((removed i s).sessions j).isOpen = false := by
  by_cases hj : j = i
  · subst hj
    rw [removed_session]
  · rw [removed_session_ne s hj]
    cases ho : (s.sessions j).isOpen with
    | false => rfl
    | true =>
      have hsession := h.open_session ho
      rw [h.one i hi] at hsession
      exact absurd (Option.some.inj hsession).symm hj

theorem removed_wired (h : Wired s) (hi : i ∈ s.sessionMap) : Wired (removed i s) := by
  have hmap : (removed i s).sessionMap = s.sessionMap.erase i := rfl
  constructor
  · exact h.depth
  · intro j
    rw [removed_closed h hi, hmap]
    constructor
    · exact fun hf => by cases hf
    · intro hj
      -- it would be another session than the one of use
      have hne := (h.nodup.mem_erase_iff.1 hj).1
      have hsession := h.one j (List.mem_of_mem_erase hj)
      rw [h.one i hi] at hsession
      exact absurd (Option.some.inj hsession).symm hne
  · exact fun j hj => h.one j (List.mem_of_mem_erase hj)
  · exact h.known
  · exact h.nodup.erase i
  · exact h.connected
  · exact h.own
  · intro j hj
    rw [(removed_record i s j).2.2.2.1] at hj
    exact h.active j hj
  · intro r hr
    obtain ⟨j, hj, hactive⟩ := h.serving r hr
    refine ⟨j, hj, ?_⟩
    rw [(removed_record i s j).2.2.2.1]
    exact hactive
  · intro hp
    obtain ⟨hing, hclosed, hnil⟩ := h.pending hp
    rw [hnil] at hi
    cases hi
  · exact h.trying
  · exact h.shut

theorem removed_base (h : Base s) (hi : i ∈ s.sessionMap) :
    Base (removed i s) where
  wired := removed_wired h.wired hi
  account := h.account.congr rfl fun _ => rfl
  sessions := fun j => (h.sessions j).congr (removed_record i s j).1 (removed_record i s j).2.1
    (removed_record i s j).2.2.1
  told := h.told.congr (Nat.le_refl _) rfl fun j _ => (removed_record i s j).1

theorem removed_serving (i : Nat) (h : Serving s) : Serving (removed i s) := by
  intro r hr
  obtain ⟨j, hj, hawaits⟩ := h r hr
  refine ⟨j, hj, ?_⟩
  obtain ⟨hspans, _, _, _, hparser⟩ := removed_record i s j
  rw [Awaits, hspans, hparser]
  exact hawaits

theorem removed_after (h : Wired s) (hi : i ∈ s.sessionMap) :
    After s (removed i s) where
  queue := Nat.le_refl _
  known := Nat.le_refl _
  closed := fun j _ ho => by
    rw [removed_closed h hi] at ho
    cases ho

/-- The client forgets a session that is closed. -/
theorem clearSession_good (h : Good s) (hi : (s.sessions i).isOpen = false) :
    Good (clearSession i s) := by
  rw [clearSession]
  split
  case isFalse => exact h
  case isTrue hsession =>
    have hf : s.flight = none := by
      cases hf : s.flight with
      | none => rfl
      | some r =>
        obtain ⟨j, hj, hopen, _⟩ := h.flying r hf
        rw [hsession] at hj
        obtain rfl := Option.some.inj hj
        rw [hi] at hopen
        cases hopen
    have hw := h.base.wired
    have hwired : Wired { s with session := none, connected := false, sessionId := none } := by
      constructor
      · exact hw.depth
      · exact hw.opened
      · intro j hj
        have hs := hw.one j hj
        rw [hsession] at hs
        obtain rfl := Option.some.inj hs
        rw [(hw.opened i).2 hj] at hi
        cases hi
      · exact fun j hj => by cases hj
      · exact hw.nodup
      · rfl
      · rfl
      · intro j hj
        have hoff := hw.all_inactive hf j
        rw [hoff] at hj
        cases hj
      · intro r hr
        rw [hf] at hr
        cases hr
      · exact hw.pending
      · exact hw.trying
      · exact hw.shut
    have hbase : Base { s with session := none, connected := false, sessionId := none } :=
      { wired := hwired
        account := h.base.account.congr rfl fun _ => rfl
        sessions := h.base.sessions
        told := h.base.told.congr (Nat.le_refl _) rfl fun _ _ => rfl }
    exact hbase.good hf h.clean

theorem clearSession_after (i : Nat) (s : Impl) : After s (clearSession i s) := by
  rw [clearSession]
  split
  · exact ⟨Nat.le_refl _, Nat.le_refl _, fun _ _ h => h⟩
  · exact After.refl s

theorem clearSession_done (h : Done s) (hi : (s.sessions i).isOpen = false) :
    Done (clearSession i s) where
  good := clearSession_good h.good hi
  settled := by
    rw [clearSession]
    split
    · exact h.settled
    · exact h.settled

section Levels

variable (env : Env) {k : Calls} {n : Nat}

/-- The response of a session that is closed ends. -/
theorem Serves.finishEof (hk : Serves k n) (h : Base s) (hserving : Serving s)
    (hclosed : ∀ j, (s.sessions j).isOpen = false) (hi : s.session = some i)
    (hn : 3 * s.queue.length + 1 ≤ n) :
    Good (finishEofOf env k i s) ∧ After s (finishEofOf env k i s) := by
  rw [finishEofOf]
  split
  case isTrue hactive =>
    obtain ⟨_, hsome⟩ := h.wired.active i hactive
    obtain ⟨r, hf⟩ := Option.isSome_iff_exists.1 hsome
    obtain ⟨j, hj, bytes, hlast, hwork⟩ := hserving r hf
    rw [hi] at hj
    obtain rfl := Option.some.inj hj
    have hopen := hclosed i
    obtain ⟨hd, ha⟩ := hk.finishResponse env (f := Http.finishEof (s.sessions i).parser)
      h hf hi hlast
      (fun _ => ⟨true, by rw [hwork]; rfl⟩)
      (fun ho => by
        rw [hopen] at ho
        cases ho)
      (by
        rw [hopen]
        exact hn)
    exact ⟨hd.good, ha⟩
  case isFalse hinactive =>
    have hf : s.flight = none := by
      cases hf : s.flight with
      | none => rfl
      | some r =>
        obtain ⟨j, hj, hactive⟩ := h.wired.serving r hf
        rw [hi] at hj
        obtain rfl := Option.some.inj hj
        exact absurd hactive hinactive
    refine ⟨h.good hf ?_, After.refl s⟩
    intro j hj
    rw [hclosed] at hj
    cases hj

/-- **The close of a session.** What was in flight on it is over, and the queue goes on. -/
theorem Serves.closeSession (hk : Serves k n) {i : Nat} {s : Impl} (h : Base s)
    (hserving : Serving s) (hi : i ∈ s.sessionMap) (hn : 3 * s.queue.length + 1 ≤ n) :
    Done (closeSessionBody env k i s) ∧ After s (closeSessionBody env k i s) := by
  have hsession : (removed i s).session = some i := h.wired.one i hi
  obtain ⟨hgood, hafter⟩ := hk.finishEof env (removed_base h hi)
    (removed_serving i hserving) (removed_closed h.wired hi) hsession hn
  have hstart := (removed_after h.wired hi).trans hafter
  -- the session is known, so that it is still closed
  have hclosed : ((finishEofOf env k i (removed i s)).sessions i).isOpen = false := by
    cases ho : ((finishEofOf env k i (removed i s)).sessions i).isOpen with
    | false => rfl
    | true =>
      have hold := hafter.closed i (h.wired.known i (h.wired.one i hi)) ho
      rw [removed_closed h.wired hi] at hold
      cases hold
  have hclear := clearSession_good hgood hclosed
  have hall := hstart.trans (clearSession_after i _)
  have hbody : closeSessionBody env k i s =
      (fun u : Impl => if u.closed then u else k.pump u)
        (clearSession i (finishEofOf env k i (removed i s))) := by
    rw [closeSessionBody, if_pos hi]
    show onSessionClosed env k i (removed i s) = _
    rw [onSessionClosed, if_pos hsession]
  rw [hbody]
  dsimp only
  split
  case isTrue hc => exact ⟨hclear.done_of_closed hc, hall⟩
  case isFalse =>
    have hcost := cost_le (clearSession i (finishEofOf env k i (removed i s)))
    have hqueue := hall.queue
    obtain ⟨hd, ha⟩ := hk.pump _ hclear (by omega) (by omega)
    exact ⟨hd, hall.trans ha⟩

end Levels

/-! ## The connect attempt -/

/-- A request leaves the queue, and has failed. -/
theorem Base.dropQueue (h : Base s) (r : Nat) (rest : List Nat)
    (hself : s.queue.count r = rest.count r + 1)
    (hother : ∀ q, q ≠ r → rest.count q = s.queue.count q) (why : Option Why) :
    Base (publish { s with queue := rest } r true why) := by
  have hin : r ∈ s.queue := List.count_pos_iff.1 (by omega)
  have hdone := h.account.waiting (holders_pos_of_queue hin)
  rw [publish_eq (s := { s with queue := rest }) hdone]
  have hw := h.wired
  apply h.fail (r := r)
  · rfl
  · rfl
  · show s.posted.count r + s.queue.count r + (if s.flight = some r then 1 else 0) =
      s.posted.count r + rest.count r + (if s.flight = some r then 1 else 0) + 1
    omega
  · intro q hq
    show s.posted.count q + rest.count q + (if s.flight = some q then 1 else 0) =
      s.posted.count q + s.queue.count q + (if s.flight = some q then 1 else 0)
    rw [hother q hq]
  · exact { hw with
      shut := fun hc => by
        rw [(hw.shut hc).1] at hin
        cases hin }
  · exact h.sessions
  · exact fun _ => rfl

/-- A failed request is no matter of the sessions. -/
theorem publish_same (s : Impl) (r : Nat) (bFail : Bool) (why : Option Why) :
    publish s r bFail why = { s with requests := (publish s r bFail why).requests } := by
  rw [publish]
  split
  · rfl
  · rfl

theorem Good.dropQueue (h : Good s) (r : Nat) (rest : List Nat)
    (hself : s.queue.count r = rest.count r + 1)
    (hother : ∀ q, q ≠ r → rest.count q = s.queue.count q) (why : Option Why) :
    Good (publish { s with queue := rest } r true why) := by
  have hbase := h.base.dropQueue r rest hself hother why
  rw [publish_same] at hbase ⊢
  exact ⟨hbase, h.serving, h.flying, h.clean⟩

theorem failFront_good (h : Good s) (why : Why) : Good (failFront s why) := by
  cases hq : s.queue with
  | nil =>
    simp only [failFront, hq]
    exact h
  | cons r rest =>
    simp only [failFront, hq]
    apply h.dropQueue
    · rw [hq, List.count_cons_self]
    · intro q hne
      rw [hq, List.count_cons_of_ne hne.symm]

theorem failFront_same (s : Impl) (why : Why) :
    failFront s why =
      { s with queue := s.queue.tail, requests := (failFront s why).requests } := by
  cases hq : s.queue with
  | nil =>
    simp only [failFront, hq, List.tail_nil]
    rw [← hq]
  | cons r rest =>
    simp only [failFront, hq, List.tail_cons]
    rw [publish_same]

/-- The client after a connect attempt has failed, before it goes on. -/
def unconnected (s : Impl) : Impl :=
  { s with
    bConnectPending := false
    iCurrentSessionId := s.iCurrentSessionId + 1
    connecting := false
    connected := false
    session := none
    sessionId := none }

theorem unconnected_good (h : Good s) (hp : s.bConnectPending = true) : Good (unconnected s) := by
  obtain ⟨_, _, hmap, hf⟩ := h.pending hp
  have hw := h.base.wired
  have hwired : Wired (unconnected s) := by
    constructor
    · exact hw.depth
    · exact hw.opened
    · intro i hi
      have hin : i ∈ s.sessionMap := hi
      rw [hmap] at hin
      cases hin
    · exact fun i hi => by cases hi
    · exact hw.nodup
    · rfl
    · rfl
    · intro i hi
      have hon : (s.sessions i).active = true := hi
      rw [hw.all_inactive hf i] at hon
      cases hon
    · intro r hr
      have hfly : s.flight = some r := hr
      rw [hf] at hfly
      cases hfly
    · exact fun he => by cases he
    · exact fun _ _ he => by cases he
    · exact hw.shut
  have hbase : Base (unconnected s) :=
    { wired := hwired
      account := h.base.account.congr rfl fun _ => rfl
      sessions := h.base.sessions
      told := h.base.told.congr (Nat.le_succ _) rfl fun _ _ => rfl }
  exact hbase.good hf h.clean

section Levels

variable {env : Env} {k : Calls} {n : Nat}

/-- **A connect attempt fails.** The first request fails with it, and the queue goes on. -/
theorem Serves.abortSession (hk : Serves k n) (generation : Nat) (h : Good s)
    (hsettled : s.bConnectPending = false → Settled s)
    (hgeneration : generation ≠ s.iConnectGeneration → Settled s) (hpos : 0 < n)
    (hn : 3 * s.queue.length ≤ n + 2) :
    Done (Http.abortSession k generation s) ∧ After s (Http.abortSession k generation s) := by
  rw [Http.abortSession]
  split
  case isTrue hstale => exact ⟨⟨h, hstale.elim hgeneration hsettled⟩, After.refl s⟩
  case isFalse hfresh =>
    have hp : s.bConnectPending = true := Bool.of_not_eq_false fun hp => hfresh (Or.inr hp)
    obtain ⟨_, hclosed, _, _⟩ := h.pending hp
    have hgood := failFront_good (unconnected_good h hp) .connect
    have hsame := failFront_same (unconnected s) .connect
    have hafter : After s (failFront (unconnected s) .connect) := by
      rw [hsame]
      exact ⟨by
        show s.queue.tail.length ≤ s.queue.length
        rw [List.length_tail]
        omega, Nat.le_succ _, fun _ _ ho => ho⟩
    have hbody : onConnectFailed k
        { s with bConnectPending := false, iCurrentSessionId := s.iCurrentSessionId + 1 } =
        k.pump (failFront (unconnected s) .connect) := by
      rw [onConnectFailed]
      exact if_neg (by
        show ¬ s.closed = true
        rw [hclosed]
        exact Bool.false_ne_true)
    rw [hbody]
    have hcost : cost (failFront (unconnected s) .connect) ≤ n := by
      have hle := cost_le (failFront (unconnected s) .connect)
      have hqueue : (failFront (unconnected s) .connect).queue.length = s.queue.length - 1 := by
        rw [hsame]
        exact List.length_tail
      rw [hqueue] at hle
      omega
    obtain ⟨hd, ha⟩ := hk.pump _ hgood hcost hpos
    exact ⟨hd, hafter.trans ha⟩

end Levels

/-- The client with a new session, before it goes on. -/
def joined (s : Impl) : Impl :=
  { s with
    bConnectPending := false
    iCurrentSessionId := s.iCurrentSessionId + 1
    sessionMap := (s.iCurrentSessionId + 1) :: s.sessionMap
    sessions := Function.update s.sessions (s.iCurrentSessionId + 1) (newSession s.endpoint)
    session := some (s.iCurrentSessionId + 1)
    sessionId := some (s.iCurrentSessionId + 1)
    connected := true
    connecting := false }

theorem joined_self (s : Impl) :
    (joined s).sessions (s.iCurrentSessionId + 1) = newSession s.endpoint :=
  Function.update_self _ _ _

theorem joined_ne (s : Impl) (h : i ≠ s.iCurrentSessionId + 1) :
    (joined s).sessions i = s.sessions i :=
  Function.update_of_ne h _ _

theorem joined_wired (h : Good s) (hp : s.bConnectPending = true) : Wired (joined s) := by
  obtain ⟨_, _, hmap, hf⟩ := h.pending hp
  have hw := h.base.wired
  have hnew : (joined s).sessionMap = [s.iCurrentSessionId + 1] := by
    show (s.iCurrentSessionId + 1) :: s.sessionMap = _
    rw [hmap]
  constructor
  · exact hw.depth
  · intro i
    rw [hnew, List.mem_singleton]
    by_cases hi : i = s.iCurrentSessionId + 1
    · subst hi
      rw [joined_self]
      exact ⟨fun _ => rfl, fun _ => rfl⟩
    · rw [joined_ne s hi]
      -- no session was open before
      constructor
      · intro ho
        have hin := (hw.opened i).1 ho
        rw [hmap] at hin
        cases hin
      · exact fun he => absurd he hi
  · intro i hi
    rw [hnew, List.mem_singleton] at hi
    subst hi
    rfl
  · intro i hi
    obtain rfl := Option.some.inj hi
    exact Nat.le_refl _
  · rw [hnew]
    exact List.nodup_singleton _
  · rfl
  · rfl
  · intro i hi
    by_cases he : i = s.iCurrentSessionId + 1
    · subst he
      rw [joined_self] at hi
      cases hi
    · rw [joined_ne s he, hw.all_inactive hf i] at hi
      cases hi
  · intro r hr
    have hfly : s.flight = some r := hr
    rw [hf] at hfly
    cases hfly
  · exact fun he => by cases he
  · exact fun _ _ he => by cases he
  · exact hw.shut

theorem joined_good (h : Good s) (hp : s.bConnectPending = true) : Good (joined s) := by
  obtain ⟨_, _, hmap, hf⟩ := h.pending hp
  have hold : ∀ i ≤ s.iCurrentSessionId, (joined s).sessions i = s.sessions i := fun i hi =>
    joined_ne s (by omega)
  have hbase : Base (joined s) :=
    { wired := joined_wired h hp
      account := h.base.account.congr rfl fun _ => rfl
      sessions := fun i => by
        by_cases hi : i = s.iCurrentSessionId + 1
        · subst hi
          rw [joined_self]
          exact sessionOk_new _
        · rw [joined_ne s hi]
          exact h.base.sessions i
      told := h.base.told.congr (Nat.le_succ _) rfl fun i hi => by rw [hold i hi] }
  apply hbase.good hf
  intro i ho hactive
  by_cases hi : i = s.iCurrentSessionId + 1
  · subst hi
    rw [joined_self]
    exact idle_new _
  · rw [joined_ne s hi] at ho hactive ⊢
    exact h.clean i ho hactive

theorem joined_after (s : Impl) : After s (joined s) where
  queue := Nat.le_refl _
  known := Nat.le_succ _
  closed := fun i hi ho => by
    rw [joined_ne s (by omega)] at ho
    exact ho

/-- What the connect attempt is at is no matter of the rest. -/
theorem Good.dial (h : Good s) (connecting pending : Bool) (generation tick : Nat)
    (endpoint : String)
    (hpending : pending = true → connecting = true ∧ s.closed = false ∧ s.sessionMap = [])
    (htrying : s.stopRequested = false → s.closed = false → connecting = true → pending = true) :
    Good { s with
      connecting := connecting, bConnectPending := pending, iConnectGeneration := generation
      endpoint := endpoint, tick := tick } where
  base :=
    { wired := { h.base.wired with pending := hpending, trying := htrying }
      account := h.base.account.congr rfl fun _ => rfl
      sessions := h.base.sessions
      told := h.base.told.congr (Nat.le_refl _) rfl fun _ _ => rfl }
  serving := h.serving
  flying := h.flying
  clean := h.clean

section Levels

variable {env : Env} {k : Calls} {n : Nat}

/-- **A connect attempt succeeds.** There is a session, and the queue goes on. -/
theorem Serves.completeConnect (hk : Serves k n) (generation : Nat) (h : Good s)
    (hsettled : s.bConnectPending = false → Settled s)
    (hgeneration : generation ≠ s.iConnectGeneration → Settled s) (hpos : 0 < n)
    (hn : 3 * s.queue.length ≤ n) :
    Done (Http.completeConnect k generation s) ∧ After s (Http.completeConnect k generation s) := by
  rw [Http.completeConnect]
  split
  case isTrue hstale => exact ⟨⟨h, hstale.elim hgeneration hsettled⟩, After.refl s⟩
  case isFalse hfresh =>
    have hp : s.bConnectPending = true := Bool.of_not_eq_false fun hp => hfresh (Or.inr hp)
    obtain ⟨_, hclosed, _, _⟩ := h.pending hp
    have hbody : addSession k { s with bConnectPending := false } = k.pump (joined s) := by
      rw [addSession, onAddSession]
      exact if_neg (by
        show ¬ s.closed = true
        rw [hclosed]
        exact Bool.false_ne_true)
    rw [hbody]
    have hready : (joined s).ready = some (s.iCurrentSessionId + 1) := by
      rw [Impl.ready]
      exact if_pos ⟨rfl, by rw [joined_self]; rfl⟩
    have hcost : cost (joined s) ≤ n := by
      have hqueue : (joined s).queue = s.queue := rfl
      rw [cost, hready, hqueue]
      exact hn
    obtain ⟨hd, ha⟩ := hk.pump _ (joined_good h hp) hcost hpos
    exact ⟨hd, (joined_after s).trans ha⟩

/-- **A name is resolved.** The attempt goes on, or ends at once. -/
theorem Serves.onResolved (hk : Serves k n) (generation : Nat) (bOk : Bool) (endpoint : String)
    (h : Good s) (hsettled : s.bConnectPending = false → Settled s)
    (hgeneration : generation ≠ s.iConnectGeneration → Settled s) (hpos : 0 < n)
    (hn : 3 * s.queue.length ≤ n) :
    Done (Http.onResolved env k generation bOk endpoint s) ∧
      After s (Http.onResolved env k generation bOk endpoint s) := by
  rw [Http.onResolved]
  split
  case isTrue hstale => exact ⟨⟨h, hstale.elim hgeneration hsettled⟩, After.refl s⟩
  case isFalse hfresh =>
    have hp : s.bConnectPending = true := Bool.of_not_eq_false fun hp => hfresh (Or.inr hp)
    have hsame : generation = s.iConnectGeneration := by
      by_contra hne
      exact hfresh (Or.inl hne)
    subst hsame
    obtain ⟨hing, hclosed, hmap, _⟩ := h.pending hp
    split
    · exact hk.abortSession _ h hsettled hgeneration hpos (by omega)
    · have hpend := h.base.wired.pending
      have htry := h.base.wired.trying
      -- the attempt goes on towards the address that was found
      have hgood := h.dial s.connecting s.bConnectPending s.iConnectGeneration (s.tick + 1) endpoint
        hpend htry
      have hafter : After s { s with endpoint := endpoint, tick := s.tick + 1 } :=
        ⟨Nat.le_refl _, Nat.le_refl _, fun _ _ ho => ho⟩
      have hnone : hasEndpoint { s with endpoint := endpoint } endpoint = false := by
        rw [hasEndpoint]
        show s.sessionMap.any _ = false
        rw [hmap]
        rfl
      have hwait : ∀ t : Impl, t.bConnectPending = s.bConnectPending →
          t.bConnectPending = false → Settled t := by
        intro t he hf
        rw [he, hp] at hf
        cases hf
      dsimp only
      rw [if_neg (by rw [hnone]; exact Bool.false_ne_true)]
      split
      · obtain ⟨hd, ha⟩ := hk.abortSession s.iConnectGeneration hgood
          (hwait _ rfl) (fun hne => absurd rfl hne) hpos (by
            show 3 * s.queue.length ≤ n + 2
            omega)
        exact ⟨hd, hafter.trans ha⟩
      · exact ⟨⟨hgood, fun _ => Or.inr hing⟩, hafter⟩
      · obtain ⟨hd, ha⟩ := hk.completeConnect s.iConnectGeneration hgood
          (hwait _ rfl) (fun hne => absurd rfl hne) hpos hn
        exact ⟨hd, hafter.trans ha⟩
      · obtain ⟨hd, ha⟩ := hk.abortSession s.iConnectGeneration hgood
          (hwait _ rfl) (fun hne => absurd rfl hne) hpos (by
            show 3 * s.queue.length ≤ n + 2
            omega)
        -- the second call finds the attempt gone, or another one
        have hq := ha.queue
        obtain ⟨hd', ha'⟩ := hk.abortSession s.iConnectGeneration hd.good
          (fun _ => hd.settled) (fun _ => hd.settled) hpos (by
            have hle : 3 * s.queue.length ≤ n := hn
            have hlen := Nat.mul_le_mul_left 3 hq
            exact Nat.le_trans hlen (Nat.le_trans hle (Nat.le_add_right n 2)))
        exact ⟨hd', (hafter.trans ha).trans ha'⟩

end Levels

section Levels

variable {env : Env} {k : Calls} {n : Nat}

/-- **The queue asks for a session.** No session is open, and no attempt is being made. -/
theorem Serves.beginConnect (hk : Serves k n) (h : Good s) (hready : s.ready = none)
    (hing : s.connecting = false) (hclosed : s.closed = false) (hpos : 0 < n)
    (hn : 3 * s.queue.length ≤ n) : Done (Http.beginConnect env k { s with connecting := true }) ∧
      After s (Http.beginConnect env k { s with connecting := true }) := by
  have hw := h.base.wired
  have hmap := hw.ready_none hready
  have hidle : s.bConnectPending = false := by
    cases hp : s.bConnectPending with
    | false => rfl
    | true =>
      have hcon := (hw.pending hp).1
      rw [hing] at hcon
      cases hcon
  have hnone : hasEndpoint { s with connecting := true, endpoint := env.hostEndpoint }
      env.hostEndpoint = false := by
    rw [hasEndpoint]
    show s.sessionMap.any _ = false
    rw [hmap]
    rfl
  rw [Http.beginConnect, startConnect]
  split
  case isTrue hstop =>
    -- the process stops: no attempt is made
    refine ⟨⟨h.dial true s.bConnectPending s.iConnectGeneration s.tick env.hostEndpoint ?_ ?_,
      fun _ => Or.inr rfl⟩, ⟨Nat.le_refl _, Nat.le_refl _, fun _ _ ho => ho⟩⟩
    · intro hp
      rw [hidle] at hp
      cases hp
    · intro hgo
      have hstop' : s.stopRequested = true := hstop
      rw [hgo] at hstop'
      cases hstop'
  case isFalse hgo =>
    rw [if_neg (fun he => by
      have hsome := he.2
      rw [show hasEndpoint { s with connecting := true, endpoint := env.hostEndpoint }
        env.hostEndpoint = false from hnone] at hsome
      cases hsome)]
    rw [if_neg (by
      show ¬ s.bConnectPending = true
      rw [hidle]
      exact Bool.false_ne_true)]
    have hgood := h.dial true true (s.iConnectGeneration + 1) (s.tick + 1) env.hostEndpoint
      (fun _ => ⟨rfl, hclosed, hmap⟩) (fun _ _ _ => rfl)
    have hafter : After s { s with
        connecting := true, bConnectPending := true, iConnectGeneration := s.iConnectGeneration + 1
        endpoint := env.hostEndpoint, tick := s.tick + 1 } :=
      ⟨Nat.le_refl _, Nat.le_refl _, fun _ _ ho => ho⟩
    dsimp only
    split
    · exact ⟨⟨hgood, fun _ => Or.inr rfl⟩, hafter⟩
    · obtain ⟨hd, ha⟩ := hk.onResolved _ _ _ hgood (fun he => by cases he)
        (fun hne => absurd rfl hne) hpos hn
      exact ⟨hd, hafter.trans ha⟩

end Levels

/-! ## The next request is sent -/

/-- The first request is in flight on the session `i`. -/
def begun (i r : Nat) (rest : List Nat) (s : Impl) : Impl :=
  { s with
    queue := rest
    flight := some r
    sessions := Function.update s.sessions i ((s.sessions i).beginResponse r) }

theorem begun_self (i r : Nat) (rest : List Nat) (s : Impl) :
    (begun i r rest s).sessions i = (s.sessions i).beginResponse r :=
  Function.update_self _ _ _

theorem begun_ne (r : Nat) (rest : List Nat) (s : Impl) (h : j ≠ i) :
    (begun i r rest s).sessions j = s.sessions j :=
  Function.update_of_ne h _ _

theorem begun_open (i r : Nat) (rest : List Nat) (s : Impl) (j : Nat) :
    ((begun i r rest s).sessions j).isOpen = (s.sessions j).isOpen := by
  by_cases hj : j = i
  · subst hj
    rw [begun_self]
    rfl
  · rw [begun_ne r rest s hj]

theorem begun_wired {rest : List Nat} (h : Wired s) (hi : i ∈ s.sessionMap)
    (hclosed : s.closed = false) : Wired (begun i r rest s) := by
  have hsession := h.one i hi
  constructor
  · exact h.depth
  · intro j
    rw [begun_open]
    exact h.opened j
  · exact h.one
  · exact h.known
  · exact h.nodup
  · exact h.connected
  · exact h.own
  · intro j hj
    by_cases hji : j = i
    · subst hji
      exact ⟨hsession, rfl⟩
    · rw [begun_ne r rest s hji, h.inactive hsession hji] at hj
      cases hj
  · intro q _
    refine ⟨i, hsession, ?_⟩
    rw [begun_self]
    rfl
  · exact h.pending
  · exact h.trying
  · intro hc
    have hopen : s.closed = true := hc
    rw [hclosed] at hopen
    cases hopen

/-- **A request begins its response** on a session with nothing left over. -/
theorem begun_base {rest : List Nat} (h : Good s) (hf : s.flight = none) (hq : s.queue = r :: rest)
    (hi : i ∈ s.sessionMap) (hclosed : s.closed = false) : Base (begun i r rest s) := by
  have hopen := (h.base.wired.opened i).2 hi
  have hidle := h.clean i hopen (h.base.wired.all_inactive hf i)
  constructor
  · exact begun_wired h.base.wired hi hclosed
  · apply h.base.account.congr
    · rfl
    · intro q
      show s.posted.count q + rest.count q + (if some r = some q then 1 else 0) =
        s.posted.count q + s.queue.count q + (if s.flight = some q then 1 else 0)
      have hnone : ¬ s.flight = some q := by
        rw [hf]
        exact fun he => by cases he
      rw [if_neg hnone, hq, List.count_cons]
      simp only [Option.some.injEq, beq_iff_eq]
      omega
  · intro j
    by_cases hj : j = i
    · subst hj
      rw [begun_self]
      exact (h.base.sessions j).beginResponse hidle r
    · rw [begun_ne r rest s hj]
      exact h.base.sessions j
  · have hcur : s.iCurrentSessionId ≤ (begun i r rest s).iCurrentSessionId := Nat.le_refl _
    apply h.base.told.keep hcur
    · exact fun _ _ _ => rfl
    · intro j _ sp hsp _
      refine ⟨sp, ?_, rfl, rfl⟩
      by_cases hj : j = i
      · subst hj
        rw [begun_self]
        exact List.mem_append_left _ hsp
      · rw [begun_ne r rest s hj]
        exact hsp

theorem begun_serving {rest : List Nat} (hi : s.session = some i) : Serving (begun i r rest s) := by
  intro q hq
  obtain rfl := Option.some.inj hq
  refine ⟨i, hi, ?_⟩
  rw [begun_self]
  exact beginResponse_awaits _ r

/-- The end of a request that nothing was received for. -/
def failure (s : Impl) (r : Nat) (why : Why) : Finish where
  bFail := true
  why := some why
  bClose := true
  status := (s.requests r).iStatus
  body := []

/-- A request in flight that fails without a response ends like one with a response. -/
theorem finished_failure (hdone : (s.requests r).iDone = false) (why : Why) :
    publish ({ s with flight := none }.setSession i (s.sessions i).abandon) r true (some why) =
      finished i r (failure s r why) s := by
  have he := publish_eq (s := ({ s with flight := none } : Impl).setSession i
    (s.sessions i).abandon) (r := r) hdone true (some why)
  rw [he]
  rfl

/-- The request has been sent. -/
def flown (i r : Nat) (s : Impl) : Impl :=
  { s with
    sessions := Function.update s.sessions i
      { s.sessions i with sent := (s.sessions i).sent ++ [r] }
    tick := s.tick + 1 }

theorem flown_self (i r : Nat) (s : Impl) :
    (flown i r s).sessions i = { s.sessions i with sent := (s.sessions i).sent ++ [r] } :=
  Function.update_self _ _ _

/-- What was sent is no matter of the rest. -/
theorem flown_record (i r : Nat) (s : Impl) (j : Nat) :
    ((flown i r s).sessions j).isOpen = (s.sessions j).isOpen ∧
      ((flown i r s).sessions j).spans = (s.sessions j).spans ∧
      ((flown i r s).sessions j).early = (s.sessions j).early ∧
      ((flown i r s).sessions j).received = (s.sessions j).received ∧
      ((flown i r s).sessions j).active = (s.sessions j).active ∧
      ((flown i r s).sessions j).parser = (s.sessions j).parser := by
  by_cases hj : j = i
  · subst hj
    rw [flown_self]
    exact ⟨rfl, rfl, rfl, rfl, rfl, rfl⟩
  · have he : (flown i r s).sessions j = s.sessions j := Function.update_of_ne hj _ _
    rw [he]
    exact ⟨rfl, rfl, rfl, rfl, rfl, rfl⟩

theorem flown_done (h : Base s) (hserving : Serving s) (hf : s.flight = some r)
    (hi : i ∈ s.sessionMap) : Done (flown i r s) := by
  have hw := h.wired
  have hsession := hw.one i hi
  have hopen := (hw.opened i).2 hi
  have hrecord := flown_record i r s
  have hwired : Wired (flown i r s) :=
    { hw with
      opened := fun j => by
        rw [(hrecord j).1]
        exact hw.opened j
      active := fun j hj => by
        rw [(hrecord j).2.2.2.2.1] at hj
        exact hw.active j hj
      serving := fun q hq => by
        obtain ⟨j, hj, hactive⟩ := hw.serving q hq
        refine ⟨j, hj, ?_⟩
        rw [(hrecord j).2.2.2.2.1]
        exact hactive }
  have hcur : s.iCurrentSessionId ≤ (flown i r s).iCurrentSessionId := Nat.le_refl _
  have hbase : Base (flown i r s) :=
    { wired := hwired
      account := h.account.congr rfl fun _ => rfl
      sessions := fun j => (h.sessions j).congr (hrecord j).2.1 (hrecord j).2.2.1
        (hrecord j).2.2.2.1
      told := h.told.congr hcur rfl fun j _ => (hrecord j).2.1 }
  refine ⟨⟨hbase, ?_, ?_, ?_⟩, fun _ => Or.inl ?_⟩
  · intro q hq
    obtain ⟨j, hj, hawaits⟩ := hserving q hq
    refine ⟨j, hj, ?_⟩
    rw [Awaits, (hrecord j).2.1, (hrecord j).2.2.2.2.2]
    exact hawaits
  · intro q hq
    have he : s.flight = some q := hq
    rw [hf] at he
    obtain rfl := Option.some.inj he
    refine ⟨i, hsession, ?_, ?_⟩
    · rw [(hrecord i).1]
      exact hopen
    · rw [flown_self]
      exact List.mem_append_right _ (List.mem_singleton.2 rfl)
  · intro j ho hactive
    -- the one open session is serving
    rw [(hrecord j).1] at ho
    rw [(hrecord j).2.2.2.2.1] at hactive
    obtain ⟨l, hl, hon⟩ := hw.serving r hf
    rw [hw.open_session ho] at hl
    obtain rfl := Option.some.inj hl
    rw [hactive] at hon
    cases hon
  · show s.flight.isSome = true
    rw [hf]
    rfl

section Levels

variable {env : Env} {k : Calls} {n : Nat}

/-- The request in flight fails on an open session, which is closed. -/
theorem Serves.failFlight (hk : Serves k n) (h : Base s) (hf : s.flight = some r)
    (hi : s.session = some i) {bytes : List UInt8}
    (hlast : (s.sessions i).spans.getLast? = some { request := r, bytes := bytes, after := [] })
    (hopen : (s.sessions i).isOpen = true) (why : Why) (hn : 3 * s.queue.length + 2 ≤ n) :
    Done (closeOwn k (finished i r (failure s r why) s)) ∧
      After s (closeOwn k (finished i r (failure s r why) s)) := by
  have hend := finished_base (f := failure s r why) h hf hi hlast (fun he => by cases he)
  have hown : (finished i r (failure s r why) s).sessionId = some i := by
    show s.sessionId = some i
    rw [h.wired.own, hi]
  rw [closeOwn, hown]
  obtain ⟨hd, ha⟩ := hk.close i _ hend (fun q hq => by cases hq) ((h.wired.opened i).1 hopen) hn
  exact ⟨hd, (finished_after i r _ s).trans ha⟩

/-- **The first request is sent**, or fails and closes the session. -/
theorem Serves.pumpSend (hk : Serves k n) {rest : List Nat} (h : Good s) (hf : s.flight = none)
    (hq : s.queue = r :: rest) (hready : s.ready = some i) (hclosed : s.closed = false)
    (hn : 3 * s.queue.length ≤ n + 1) :
    Done (Http.pumpSend env k i r rest s) ∧ After s (Http.pumpSend env k i r rest s) := by
  obtain ⟨hsession, hopen⟩ := ready_some hready
  have hi := (h.base.wired.opened i).1 hopen
  have hbase := begun_base h hf hq hi hclosed
  have hserving : Serving (begun i r rest s) := begun_serving hsession
  have hlen : s.queue.length = rest.length + 1 := by
    rw [hq]
    rfl
  have hafter : After s (begun i r rest s) :=
    ⟨by
      show rest.length ≤ s.queue.length
      omega, Nat.le_refl _, fun j _ ho => by
        rw [begun_open] at ho
        exact ho⟩
  have hsend : sendBytes env s.sessionId (begun i r rest s) =
      (env.sends s.tick, { begun i r rest s with tick := s.tick + 1 }) := by
    rw [h.base.wired.own, hsession, sendBytes]
    exact if_pos ⟨hi, by rw [begun_open]; exact hopen⟩
  have hbegun : ({ s with queue := rest, flight := some r } : Impl).setSession i
      ((s.sessions i).beginResponse r) = begun i r rest s := rfl
  rw [pumpSend_eq, hbegun, hsend]
  cases hsent : env.sends s.tick with
  | true =>
    dsimp only
    show Done (flown i r (begun i r rest s)) ∧ After s (flown i r (begun i r rest s))
    refine ⟨flown_done hbase hserving rfl hi, hafter.trans ?_⟩
    refine ⟨Nat.le_refl _, Nat.le_refl _, fun j _ ho => ?_⟩
    rw [(flown_record i r (begun i r rest s) j).1] at ho
    exact ho
  | false =>
    -- the request is taken back from the session, and the session is closed
    have hbase' : Base { begun i r rest s with tick := s.tick + 1 } :=
      { wired := { hbase.wired with }
        account := hbase.account.congr rfl fun _ => rfl
        sessions := hbase.sessions
        told := hbase.told.congr (Nat.le_refl _) rfl fun _ _ => rfl }
    obtain ⟨bytes, hlast, _⟩ := beginResponse_awaits (s.sessions i) r
    rw [← begun_self i r rest s] at hlast
    have hopen' : ((begun i r rest s).sessions i).isOpen = true := by
      rw [begun_open]
      exact hopen
    have hmid : After (begun i r rest s) { begun i r rest s with tick := s.tick + 1 } :=
      ⟨Nat.le_refl _, Nat.le_refl _, fun _ _ ho => ho⟩
    obtain ⟨hd, ha⟩ := hk.failFlight hbase' rfl hsession hlast hopen' .send (by
      show 3 * rest.length + 2 ≤ n
      omega)
    have hdone : (s.requests r).iDone = false :=
      hbase.account.waiting (holders_pos_of_flight (s := begun i r rest s) rfl)
    have hfail := finished_failure (i := i) (s := { begun i r rest s with tick := s.tick + 1 })
      hdone .send
    dsimp only at hfail ha hd ⊢
    rw [hfail]
    have hsame : (finished i r (failure { begun i r rest s with tick := s.tick + 1 } r .send)
        { begun i r rest s with tick := s.tick + 1 }).session = some i := hsession
    rw [hsame]
    dsimp only
    rw [if_pos]
    · exact ⟨hd, (hafter.trans hmid).trans ha⟩
    · rw [(finished_sessions i r _ _ i).1]
      exact hopen'

end Levels

/-! ## All calls -/

section Levels

variable {env : Env} {k : Calls} {n : Nat}

/-- **`Pump`.** The first request is sent, or a session is asked for, or there is nothing to do. -/
theorem Serves.pumpBody (hk : Serves k n) (h : Good s) (hn : cost s ≤ n + 1) :
    Done (Http.pumpBody env k s) ∧ After s (Http.pumpBody env k s) := by
  rw [Http.pumpBody]
  split
  case isTrue hstay =>
    refine ⟨⟨h, fun hq => ?_⟩, After.refl s⟩
    rcases hstay with hclosed | hflight
    · exact absurd (h.base.wired.shut hclosed).1 hq
    · exact Or.inl hflight
  case isFalse hgo =>
    have hclosed : s.closed = false := by
      cases hc : s.closed with
      | false => rfl
      | true => exact absurd (Or.inl hc) hgo
    have hf : s.flight = none := by
      cases hf : s.flight with
      | none => rfl
      | some r =>
        refine absurd (Or.inr ?_) hgo
        rw [hf]
        rfl
    split
    case h_1 hq => exact ⟨⟨h, fun hne => absurd hq hne⟩, After.refl s⟩
    case h_2 r rest hq =>
      have hlen : s.queue.length = rest.length + 1 := by
        rw [hq]
        rfl
      rw [cost] at hn
      split
      case h_1 i hready =>
        rw [hready] at hn
        exact hk.pumpSend h hf hq hready hclosed hn
      case h_2 hready =>
        rw [hready] at hn
        have hless : 3 * s.queue.length + 1 ≤ n + 1 := hn
        split
        case isTrue hing => exact ⟨⟨h, fun _ => Or.inr hing⟩, After.refl s⟩
        case isFalse hidle =>
          exact hk.beginConnect h hready (by simpa using hidle) hclosed (by omega) (by omega)

end Levels

/-- **A depth serves every queue that it is enough for.** -/
theorem calls_serve (env : Env) (n : Nat) : Serves (calls env n) n := by
  induction n with
  | zero =>
    constructor
    · intro s _ _ hpos
      exact absurd hpos (Nat.lt_irrefl 0)
    · intro i s _ _ _ hn
      omega
  | succ n ih =>
    constructor
    · intro s h hn _
      exact ih.pumpBody h hn
    · intro i s h hserving hi hn
      exact ih.closeSession env h hserving hi (by omega)

end OpenIdea.Http
