import OpenIdea.Http.ClientCalls

/-!
# The runs of the HTTP client

Whatever the poll thread is called with, the client is `Done` again afterwards. So it is at the end
of every run, and `never_stuck` reads off what this says about the queue.
-/

set_option autoImplicit false

namespace OpenIdea.Http

open OpenIdea.Lib.Runs OpenIdea.Lib.Rounds

/-! ## Bytes -/

variable {i r : Nat} {s : Impl} {env : Env}

/-- A session's record is replaced, with the same part in the client. -/
theorem Base.setSession (h : Base s) {x : HttpSession} (hopen : x.isOpen = (s.sessions i).isOpen)
    (hactive : x.active = (s.sessions i).active) (hok : SessionOk x)
    (hspans : ∀ sp ∈ (s.sessions i).spans, (s.requests sp.request).iDone = true →
      ∃ sp' ∈ x.spans, sp'.request = sp.request ∧ sp'.bytes = sp.bytes) :
    Base (s.setSession i x) := by
  have hw := h.wired
  have heq : ∀ j, ((s.setSession i x).sessions j).isOpen = (s.sessions j).isOpen ∧
      ((s.setSession i x).sessions j).active = (s.sessions j).active := by
    intro j
    by_cases hj : j = i
    · subst hj
      rw [setSession_self]
      exact ⟨hopen, hactive⟩
    · rw [setSession_ne s x hj]
      exact ⟨rfl, rfl⟩
  constructor
  · exact { hw with
      opened := fun j => by
        rw [(heq j).1]
        exact hw.opened j
      active := fun j hj => by
        rw [(heq j).2] at hj
        exact hw.active j hj
      serving := fun q hq => by
        obtain ⟨j, hj, hon⟩ := hw.serving q hq
        refine ⟨j, hj, ?_⟩
        rw [(heq j).2]
        exact hon }
  · exact h.account.congr rfl fun _ => rfl
  · intro j
    by_cases hj : j = i
    · subst hj
      rw [setSession_self]
      exact hok
    · rw [setSession_ne s x hj]
      exact h.sessions j
  · have hcur : s.iCurrentSessionId ≤ (s.setSession i x).iCurrentSessionId := Nat.le_refl _
    apply h.told.keep hcur
    · exact fun _ _ _ => rfl
    · intro j _ sp hsp hdone
      by_cases hj : j = i
      · subst hj
        rw [setSession_self]
        exact hspans sp hsp hdone
      · rw [setSession_ne s x hj]
        exact ⟨sp, hsp, rfl, rfl⟩

/-- Bytes of the response to the request in flight. -/
theorem note_base (h : Base s) (hf : s.flight = some r) {bytes : List UInt8}
    (hlast : (s.sessions i).spans.getLast? = some { request := r, bytes := bytes, after := [] })
    (segment : List UInt8) : Base (s.setSession i ((s.sessions i).note segment)) := by
  have hdone := h.account.waiting (holders_pos_of_flight hf)
  apply h.setSession
  · rw [note_eq hlast]
  · rw [note_eq hlast]
  · exact (h.sessions i).note hlast rfl segment
  · intro sp hsp hd
    rw [note_eq hlast]
    rw [spans_eq hlast] at hsp
    rcases List.mem_append.1 hsp with hin | hin
    · exact ⟨sp, List.mem_append_left _ hin, rfl, rfl⟩
    · -- the request in flight has no result
      obtain rfl := List.mem_singleton.1 hin
      rw [show (s.requests r).iDone = false from hdone] at hd
      cases hd

/-- Bytes for nobody. -/
theorem noteIdle_base (h : Base s) (i : Nat) (segment : List UInt8) :
    Base (s.setSession i ((s.sessions i).noteIdle segment)) := by
  cases hlast : (s.sessions i).spans.getLast? with
  | none =>
    have hnil := List.getLast?_eq_none_iff.1 hlast
    have he : (s.sessions i).noteIdle segment = { s.sessions i with
        received := (s.sessions i).received ++ segment
        early := (s.sessions i).early ++ segment } := by
      simp only [HttpSession.noteIdle, hlast]
    apply h.setSession
    · rw [he]
    · rw [he]
    · exact (h.sessions i).noteIdle segment
    · intro sp hsp _
      rw [hnil] at hsp
      cases hsp
  | some sp =>
    apply h.setSession
    · rw [noteIdle_eq hlast]
    · rw [noteIdle_eq hlast]
    · exact (h.sessions i).noteIdle segment
    · intro sp' hsp _
      rw [noteIdle_eq hlast]
      rw [spans_eq hlast] at hsp
      rcases List.mem_append.1 hsp with hin | hin
      · exact ⟨sp', List.mem_append_left _ hin, rfl, rfl⟩
      · obtain rfl := List.mem_singleton.1 hin
        exact ⟨{ sp' with after := sp'.after ++ segment },
          List.mem_append_right _ (List.mem_singleton.2 rfl), rfl, rfl⟩

/-- What `OnDataIn` finds is what is found in all bytes of the span. -/
theorem onDataIn_work {p : Parser} {bytes : List UInt8}
    (hwork : responses.work (beginResponse.append bytes) = .more p) (segment : List UInt8) :
    onDataIn p segment = .done (fail p .size) ∨
      onDataIn p segment = responses.work (beginResponse.append (bytes ++ segment)) := by
  rw [onDataIn]
  split
  · exact Or.inl rfl
  · right
    have hmore := Machine.work_of_more hwork segment
    have hadd : responses.add (beginResponse.append bytes) segment =
        beginResponse.append (bytes ++ segment) := responses.add_add beginResponse bytes segment
    rw [hadd] at hmore
    exact hmore

theorem note_last {x : HttpSession} {bytes : List UInt8}
    (hlast : x.spans.getLast? = some { request := r, bytes := bytes, after := [] })
    (segment : List UInt8) :
    (x.note segment).spans.getLast? =
      some { request := r, bytes := bytes ++ segment, after := [] } := by
  rw [note_eq hlast]
  exact List.getLast?_concat

/-- **Bytes for the request in flight.** -/
theorem dataIn_active {segment : List UInt8} (h : Done s) (hactive : (s.sessions i).active = true) :
    Done (onDataInOf env (s.calls env) i segment s) := by
  have hbase := h.good.base
  obtain ⟨hi, hsome⟩ := hbase.wired.active i hactive
  obtain ⟨r, hf⟩ := Option.isSome_iff_exists.1 hsome
  obtain ⟨j, hj, bytes, hlast, hwork⟩ := h.good.serving r hf
  rw [hi] at hj
  obtain rfl := Option.some.inj hj
  have hnote := note_base hbase hf hlast segment
  have hlast' := note_last hlast segment
  have hself := setSession_self s i ((s.sessions i).note segment)
  have hopen' : ((s.sessions i).note segment).isOpen = (s.sessions i).isOpen := by
    rw [note_eq hlast]
  rw [onDataInOf]
  dsimp only
  rw [if_pos hactive]
  rcases onDataIn_work hwork segment with hsize | hwork'
  · -- more than a response may have
    rw [hsize]
    have hserve := (calls_serve env (3 * s.queue.length + 3)).finishResponse env
      (f := fail (s.sessions i).parser .size) hnote hf hi (by rw [hself]; exact hlast')
      (fun he => by cases he) (fun _ he => by cases he) (by
        show 3 * s.queue.length + _ ≤ _
        split
        · omega
        · omega)
    exact hserve.1
  · cases hend : responses.work (beginResponse.append (bytes ++ segment)) with
    | go p => exact absurd hend (Machine.work_ne_go _ p)
    | done f =>
      rw [hwork', hend]
      have hserve := (calls_serve env (3 * s.queue.length + 3)).finishResponse env
        (f := f) hnote hf hi (by rw [hself]; exact hlast')
        (fun _ => ⟨false, by rw [hend]; rfl⟩) (fun _ _ _ => hend) (by
          show 3 * s.queue.length + _ ≤ _
          split
          · omega
          · omega)
      exact hserve.1
    | more p =>
      rw [hwork', hend]
      dsimp only
      rw [hself, setSession_setSession]
      have hrecord : SessionOk { (s.sessions i).note segment with parser := p } :=
        ((hbase.sessions i).note hlast rfl segment).congr rfl rfl rfl
      have hother : ∀ j, j ≠ i → (s.setSession i
          { (s.sessions i).note segment with parser := p }).sessions j = s.sessions j :=
        fun j hj => setSession_ne s _ hj
      have hdone := hbase.account.waiting (holders_pos_of_flight hf)
      have hbase' : Base (s.setSession i { (s.sessions i).note segment with parser := p }) := by
        have he := hnote.setSession (i := i)
          (x := { (s.sessions i).note segment with parser := p }) (by rw [hself])
          (by rw [hself]) hrecord (fun sp hsp _ => by
            rw [hself] at hsp
            exact ⟨sp, hsp, rfl, rfl⟩)
        rw [setSession_setSession] at he
        exact he
      refine ⟨⟨hbase', ?_, ?_, ?_⟩, h.settled⟩
      · intro q hq
        have he : s.flight = some q := hq
        rw [hf] at he
        obtain rfl := Option.some.inj he
        refine ⟨i, hi, bytes ++ segment, ?_, ?_⟩
        · rw [setSession_self]
          exact hlast'
        · rw [setSession_self]
          exact hend
      · intro q hq
        obtain ⟨j, hj, hopen, hsent⟩ := h.good.flying q hq
        rw [hi] at hj
        obtain rfl := Option.some.inj hj
        refine ⟨i, hi, ?_, ?_⟩
        · rw [setSession_self]
          show ((s.sessions i).note segment).isOpen = true
          rw [hopen', hopen]
        · rw [setSession_self]
          show q ∈ ((s.sessions i).note segment).sent
          rw [note_eq hlast]
          exact hsent
      · intro j hj hoff
        by_cases hji : j = i
        · subst hji
          rw [setSession_self] at hoff
          have hon : ((s.sessions j).note segment).active = true := by
            rw [note_eq hlast]
            exact hactive
          rw [show ((s.sessions j).note segment).active = false from hoff] at hon
          cases hon
        · rw [hother j hji] at hj hoff ⊢
          exact h.good.clean j hj hoff

/-- **Bytes for nobody.** The session of use is closed then. -/
theorem dataIn_idle {segment : List UInt8} (h : Done s) (hactive : (s.sessions i).active = false) :
    Done (onDataInOf env (s.calls env) i segment s) := by
  have hbase := h.good.base
  have hnote := noteIdle_base hbase i segment
  -- the request in flight is on another session
  have hother : ∀ r, s.flight = some r → s.session ≠ some i := by
    intro r hf hi
    obtain ⟨j, hj, hon⟩ := hbase.wired.serving r hf
    rw [hi] at hj
    obtain rfl := Option.some.inj hj
    rw [hactive] at hon
    cases hon
  have hopen : ∀ j, ((s.setSession i ((s.sessions i).noteIdle segment)).sessions j).isOpen =
      (s.sessions j).isOpen := by
    intro j
    by_cases hj : j = i
    · subst hj
      rw [setSession_self, HttpSession.noteIdle]
      dsimp only
      split
      · rfl
      · rfl
    · rw [setSession_ne s _ hj]
  have hserving : Serving (s.setSession i ((s.sessions i).noteIdle segment)) := by
    intro r hr
    obtain ⟨j, hj, hawaits⟩ := h.good.serving r hr
    refine ⟨j, hj, ?_⟩
    rw [setSession_ne s _ fun he => hother r hr (by rw [← he]; exact hj)]
    exact hawaits
  rw [onDataInOf]
  dsimp only
  rw [if_neg (by rw [hactive]; exact Bool.false_ne_true)]
  split
  · exact h
  · rw [onIdleBytes]
    split
    case isTrue hcond =>
      have hin : i ∈ s.sessionMap := by
        have hopen' := hcond.2
        rw [hopen] at hopen'
        exact (hbase.wired.opened i).1 hopen'
      have hserve := (calls_serve env (3 * s.queue.length + 3)).close i _ hnote hserving hin
        (Nat.le_succ _)
      exact hserve.1
    case isFalse hcond =>
      refine ⟨⟨hnote, hserving, ?_, ?_⟩, h.settled⟩
      · intro r hr
        obtain ⟨j, hj, ho, hsent⟩ := h.good.flying r hr
        refine ⟨j, hj, ?_⟩
        rw [setSession_ne s _ fun he => hother r hr (by rw [← he]; exact hj)]
        exact ⟨ho, hsent⟩
      · intro j ho hoff
        by_cases hj : j = i
        · subst hj
          refine absurd ⟨?_, ho⟩ hcond
          rw [hopen] at ho
          exact hbase.wired.open_session ho
        · rw [setSession_ne s _ hj] at ho hoff ⊢
          exact h.good.clean j ho hoff

/-! ## The close of a session -/

/-- **`PassiveClose`.** -/
theorem passiveClose_done (h : Done s) :
    Done ((s.calls env).closeSession i
      (s.setSession i { s.sessions i with isOpen := false })) := by
  show Done (closeSessionBody env (calls env (3 * s.queue.length + 2)) i
    (s.setSession i { s.sessions i with isOpen := false }))
  by_cases hi : i ∈ s.sessionMap
  · -- `CloseSession` does the same to the session once more
    have hsame : closeSessionBody env (calls env (3 * s.queue.length + 2)) i
        (s.setSession i { s.sessions i with isOpen := false }) =
        closeSessionBody env (calls env (3 * s.queue.length + 2)) i s := by
      rw [closeSessionBody, closeSessionBody]
      rw [if_pos (show i ∈ (s.setSession i { s.sessions i with isOpen := false }).sessionMap
        from hi), if_pos hi]
      simp only [setSession_self]
      simp only [Impl.setSession, Function.update_idem]
    rw [hsame]
    exact ((calls_serve env (3 * s.queue.length + 2)).closeSession env h.good.base h.good.serving hi
      (Nat.le_succ _)).1
  · have hclosed : (s.sessions i).isOpen = false := by
      cases ho : (s.sessions i).isOpen with
      | false => rfl
      | true => exact absurd ((h.good.base.wired.opened i).1 ho) hi
    have hsame : s.setSession i { s.sessions i with isOpen := false } = s := by
      rw [← hclosed]
      exact setSession_same s i
    rw [hsame, closeSessionBody, if_neg hi]
    exact h

/-- **`OnClose`.** Nothing is awaited on a closed session. -/
theorem onClose_done (h : Done s) (hi : (s.sessions i).isOpen = false) :
    Done (clearSession i (finishEofOf env (s.calls env) i s)) := by
  have hoff : (s.sessions i).active = false := by
    cases hon : (s.sessions i).active with
    | false => rfl
    | true =>
      obtain ⟨hsession, hsome⟩ := h.good.base.wired.active i hon
      obtain ⟨r, hf⟩ := Option.isSome_iff_exists.1 hsome
      obtain ⟨j, hj, hopen, _⟩ := h.good.flying r hf
      rw [hsession] at hj
      obtain rfl := Option.some.inj hj
      rw [hi] at hopen
      cases hopen
  have hsame : finishEofOf env (s.calls env) i s = s := by
    rw [finishEofOf]
    exact if_neg (by rw [hoff]; exact Bool.false_ne_true)
  rw [hsame]
  exact clearSession_done h hi

/-! ## Requests -/

/-- **`OnTimeout`.** -/
theorem onTimeout_done (h : Done s) : Done (onTimeout (s.calls env) r s) := by
  rw [onTimeout]
  split
  case isTrue => exact h
  case isFalse hwait =>
    have hdone : (s.requests r).iDone = false := by simpa using hwait
    split
    case isTrue hf =>
      obtain ⟨i, hi, hopen, _⟩ := h.good.flying r hf
      obtain ⟨j, hj, bytes, hlast, _⟩ := h.good.serving r hf
      rw [hi] at hj
      obtain rfl := Option.some.inj hj
      have hfail := finished_failure (i := i) hdone .timeout
      have hserve := (calls_serve env (3 * s.queue.length + 3)).failFlight h.good.base hf hi hlast
        hopen .timeout (Nat.le_succ _)
      rw [hi]
      dsimp only
      have hstate : publish { s.setSession i (s.sessions i).abandon with flight := none } r true
          (some .timeout) = finished i r (failure s r .timeout) s := hfail
      rw [hstate, if_pos]
      · exact hserve.1
      · show ((finished i r (failure s r .timeout) s).session.any fun j =>
          ((finished i r (failure s r .timeout) s).sessions j).isOpen) = true
        have hsession : (finished i r (failure s r .timeout) s).session = some i := hi
        rw [hsession, Option.any_some, (finished_sessions i r _ s i).1]
        exact hopen
    case isFalse =>
      split
      case isTrue hin =>
        have hcount := List.count_erase_self (a := r) (l := s.queue)
        have hpos := List.count_pos_iff.2 hin
        have hgood := h.good.dropQueue r (s.queue.erase r) (by omega)
          (fun q hq => List.count_erase_of_ne hq) (some .timeout)
        refine ⟨hgood, fun hne => ?_⟩
        rw [publish_same] at hne ⊢
        apply h.settled
        intro hnil
        rw [hnil] at hin
        cases hin
      case isFalse => exact h

/-- A request that was enqueued fails at once. -/
theorem posted_fail (h : Done s) (hr : r ∈ s.posted) (why : Why) :
    Done (publish { s with posted := s.posted.erase r } r true (some why)) := by
  have hdone := h.good.base.account.waiting (holders_pos_of_posted hr)
  rw [publish_eq (s := { s with posted := s.posted.erase r }) hdone]
  have hpos := List.count_pos_iff.2 hr
  have hcount := List.count_erase_self (a := r) (l := s.posted)
  have hbase : Base (({ s with posted := s.posted.erase r } : Impl).setRequest r
      ((s.requests r).published true (some why))) := by
    apply h.good.base.fail (r := r)
    · rfl
    · rfl
    · show s.posted.count r + s.queue.count r + (if s.flight = some r then 1 else 0) =
        (s.posted.erase r).count r + s.queue.count r + (if s.flight = some r then 1 else 0) + 1
      omega
    · intro q hq
      show (s.posted.erase r).count q + s.queue.count q + (if s.flight = some q then 1 else 0) =
        s.posted.count q + s.queue.count q + (if s.flight = some q then 1 else 0)
      rw [List.count_erase_of_ne hq]
    · exact { h.good.base.wired with }
    · exact h.good.base.sessions
    · exact fun _ => rfl
  exact ⟨⟨hbase, h.good.serving, h.good.flying, h.good.clean⟩, h.settled⟩

/-- **`EnqueueOnLoop`.** -/
theorem enqueueOnLoop_done (h : Done s) (hr : r ∈ s.posted) :
    Done (enqueueOnLoop env r { s with posted := s.posted.erase r }) := by
  rw [enqueueOnLoop]
  split
  case isTrue => exact posted_fail h hr .closed
  case isFalse hopen =>
    split
    case isTrue => exact posted_fail h hr .host
    case isFalse =>
      have hclosed : s.closed = false := by simpa using hopen
      have hpos := List.count_pos_iff.2 hr
      have hcount := List.count_erase_self (a := r) (l := s.posted)
      have hbase : Base { s with posted := s.posted.erase r, queue := s.queue ++ [r] } :=
        { wired := { h.good.base.wired with
            shut := fun hc => by
              rw [show s.closed = true from hc] at hclosed
              cases hclosed }
          account := h.good.base.account.congr rfl fun q => by
            show (s.posted.erase r).count q + (s.queue ++ [r]).count q +
                (if s.flight = some q then 1 else 0) =
              s.posted.count q + s.queue.count q + (if s.flight = some q then 1 else 0)
            rw [List.count_append]
            by_cases hq : q = r
            · subst hq
              rw [List.count_singleton_self]
              omega
            · rw [List.count_erase_of_ne hq, List.count_singleton, if_neg]
              · rfl
              · simpa using fun he : r = q => hq he.symm
          sessions := h.good.base.sessions
          told := h.good.base.told.congr (Nat.le_refl _) rfl fun _ _ => rfl }
      have hgood : Good { s with posted := s.posted.erase r, queue := s.queue ++ [r] } :=
        ⟨hbase, h.good.serving, h.good.flying, h.good.clean⟩
      have hcost := cost_le { s with posted := s.posted.erase r, queue := s.queue ++ [r] }
      have hserve := (calls_serve env (3 * (s.queue ++ [r]).length + 3)).pump _ hgood
        (Nat.le_trans hcost (Nat.le_add_right _ 2)) (Nat.succ_pos _)
      exact hserve.1

/-- A request changes in what is no matter of its result. -/
theorem Done.setRequest (h : Done s) {x : Request} {posted : List Nat} (hok : RequestOk x)
    (hresult : x.iDone = true → x.result = (s.requests r).result)
    (htotal : posted.count r + s.queue.count r + (if s.flight = some r then 1 else 0) +
      x.publishes = if x.bAwaitStarted then 1 else 0)
    (hposted : ∀ q, q ≠ r → posted.count q = s.posted.count q) :
    Done { s.setRequest r x with posted := posted } := by
  have haccount : Account { s.setRequest r x with posted := posted } := by
    constructor
    · intro q
      by_cases hq : q = r
      · subst hq
        show RequestOk ((s.setRequest q x).requests q)
        rw [setRequest_self]
        exact hok
      · show RequestOk ((s.setRequest r x).requests q)
        rw [setRequest_ne s x hq]
        exact h.good.base.account.request q
    · intro q
      by_cases hq : q = r
      · subst hq
        show _ + ((s.setRequest q x).requests q).publishes =
          if ((s.setRequest q x).requests q).bAwaitStarted then 1 else 0
        rw [setRequest_self]
        exact htotal
      · have ht := h.good.base.account.total q
        show posted.count q + s.queue.count q + (if s.flight = some q then 1 else 0) +
            ((s.setRequest r x).requests q).publishes =
          if ((s.setRequest r x).requests q).bAwaitStarted then 1 else 0
        rw [setRequest_ne s x hq, hposted q hq]
        exact ht
  have htold : Told { s.setRequest r x with posted := posted } := by
    have hcur : s.iCurrentSessionId ≤
        ({ s.setRequest r x with posted := posted } : Impl).iCurrentSessionId := Nat.le_refl _
    apply h.good.base.told.keep hcur
    · intro q hd _
      by_cases hq : q = r
      · subst hq
        have hself : ({ s.setRequest q x with posted := posted } : Impl).requests q = x :=
          setRequest_self s q x
        rw [hself] at hd ⊢
        exact hresult hd
      · have hne : ({ s.setRequest r x with posted := posted } : Impl).requests q =
            s.requests q := setRequest_ne s x hq
        rw [hne]
    · exact fun j _ sp hsp _ => ⟨sp, hsp, rfl, rfl⟩
  exact ⟨⟨⟨{ h.good.base.wired with }, haccount, h.good.base.sessions, htold⟩, h.good.serving,
    h.good.flying, h.good.clean⟩, h.settled⟩

theorem await_done (h : Done s) (hr : (s.requests r).bAwaitStarted = false) :
    Done { s.setRequest r { s.requests r with bAwaitStarted := true } with
      posted := s.posted ++ [r] } := by
  have hok := h.good.base.account.request r
  have htotal := h.good.base.account.total r
  rw [hr] at htotal
  have hzero : s.holders r + (s.requests r).publishes = 0 := htotal
  have hpub := hok.publishes
  apply h.setRequest
  · exact { hok with suspended := fun _ => rfl }
  · intro _
    rfl
  · rw [Impl.holders] at hzero
    show (s.posted ++ [r]).count r + s.queue.count r + _ + (s.requests r).publishes = 1
    rw [List.count_append, List.count_singleton_self]
    omega
  · intro q hq
    rw [List.count_append, List.count_singleton, if_neg]
    · rfl
    · simpa using fun he : r = q => hq he.symm

theorem suspend_done (h : Done s) (hr : (s.requests r).bAwaitStarted = true)
    (hs : (s.requests r).suspended = false) :
    Done (s.setRequest r { s.requests r with
      suspended := true
      resumes := if (s.requests r).iGate = .ready then (s.requests r).resumes + 1
        else (s.requests r).resumes
      iGate := .waiting }) := by
  have hok := h.good.base.account.request r
  have hres := hok.resumes
  have hgate := hok.gate
  rw [hs] at hres hgate
  have hzero : (s.requests r).resumes = 0 := by simpa using hres
  have hnew : RequestOk { s.requests r with
      suspended := true
      resumes := if (s.requests r).iGate = .ready then (s.requests r).resumes + 1
        else (s.requests r).resumes
      iGate := .waiting } := by
    constructor
    · exact hok.publishes
    · show (if (s.requests r).iGate = .ready then (s.requests r).resumes + 1
        else (s.requests r).resumes) = if (s.requests r).iDone = true ∧ true = true then 1 else 0
      rw [hzero]
      -- the gate is ready if the request was published before
      cases hd : (s.requests r).iDone with
      | false =>
        rw [hd] at hgate
        rw [show (s.requests r).iGate = .idle from hgate]
        rfl
      | true =>
        rw [hd] at hgate
        rw [show (s.requests r).iGate = .ready from hgate]
        rfl
    · show Gate.waiting = if true then (if (s.requests r).iDone then Gate.waiting else .waiting)
        else _
      cases (s.requests r).iDone with
      | false => rfl
      | true => rfl
    · exact fun _ => hr
  exact h.setRequest hnew (fun _ => rfl) (h.good.base.account.total r) fun _ _ => rfl

/-! ## `Shutdown` -/

/-- The requests of a list fail, one after the other. -/
def failAll (l : List Nat) (s : Impl) : Impl :=
  l.foldl (fun s r => publish s r true (some .closed)) s

theorem failAll_cons (r : Nat) (rest : List Nat) (s : Impl) :
    failAll (r :: rest) s = failAll rest (publish s r true (some .closed)) := rfl

theorem Base.failAll : ∀ (l : List Nat), Base { s with queue := l } →
    Base { Http.failAll l s with queue := [] } := by
  intro l
  induction l generalizing s with
  | nil => exact fun h => h
  | cons r rest ih =>
    intro h
    rw [failAll_cons]
    apply ih
    have hdrop := h.dropQueue r rest
      (by rw [List.count_cons_self])
      (fun q hq => by rw [List.count_cons_of_ne hq.symm]) (some .closed)
    have hsame : publish { s with queue := rest } r true (some .closed) =
        { publish s r true (some .closed) with queue := rest } := by
      rw [publish, publish]
      dsimp only
      split
      · rfl
      · rfl
    rw [← hsame]
    exact hdrop

theorem failAll_same : ∀ (l : List Nat) (s : Impl),
    failAll l s = { s with requests := (failAll l s).requests } := by
  intro l
  induction l with
  | nil =>
    intro s
    rfl
  | cons r rest ih =>
    intro s
    rw [failAll_cons, ih, publish_same]

/-- At most one session is open. -/
theorem Wired.map_cases (h : Wired s) : s.sessionMap = [] ∨ ∃ i, s.sessionMap = [i] := by
  rcases hmap : s.sessionMap with _ | ⟨i, rest⟩
  · exact Or.inl rfl
  · right
    rcases rest with _ | ⟨j, rest⟩
    · exact ⟨i, rfl⟩
    · -- two open sessions would both be the session of use
      have hi := h.one i (by rw [hmap]; exact List.mem_cons_self)
      have hj := h.one j (by rw [hmap]; exact List.mem_cons_of_mem _ List.mem_cons_self)
      rw [hi] at hj
      obtain rfl := Option.some.inj hj
      have hnodup := h.nodup
      rw [hmap] at hnodup
      exact absurd List.mem_cons_self (List.nodup_cons.1 hnodup).1

theorem failAll_requests : ∀ (l : List Nat) (s t : Impl), s.requests = t.requests →
    (failAll l s).requests = (failAll l t).requests := by
  intro l
  induction l with
  | nil => exact fun _ _ h => h
  | cons r rest ih =>
    intro s t h
    rw [failAll_cons, failAll_cons]
    apply ih
    rw [publish, publish, h]
    split
    · exact h
    · rw [Impl.setRequest, Impl.setRequest, h]

/-- The session of use gives up its response. -/
def released (s : Impl) : Impl :=
  match s.session with
  | some i => s.setSession i (s.sessions i).abandon
  | none => s

theorem released_record (s : Impl) (j : Nat) :
    ((released s).sessions j).isOpen = (s.sessions j).isOpen ∧
      ((released s).sessions j).spans = (s.sessions j).spans ∧
      ((released s).sessions j).early = (s.sessions j).early ∧
      ((released s).sessions j).received = (s.sessions j).received := by
  rw [released]
  split
  case h_1 i _ =>
    by_cases hj : j = i
    · subst hj
      rw [setSession_self]
      exact ⟨rfl, rfl, rfl, rfl⟩
    · rw [setSession_ne s _ hj]
      exact ⟨rfl, rfl, rfl, rfl⟩
  case h_2 => exact ⟨rfl, rfl, rfl, rfl⟩

theorem released_inactive (h : Wired s) (j : Nat) : ((released s).sessions j).active = false := by
  rw [released]
  split
  case h_1 i hi =>
    by_cases hj : j = i
    · subst hj
      rw [setSession_self]
      rfl
    · rw [setSession_ne s _ hj]
      exact h.inactive hi hj
  case h_2 hi =>
    cases hon : (s.sessions j).active with
    | false => rfl
    | true =>
      have hsession := (h.active j hon).1
      rw [hi] at hsession
      cases hsession

/-- All requests wait in the queue, and the session of use is free. -/
theorem released_base (h : Base s) (hclosed : s.closed = false) :
    Base { s with
      sessions := (released s).sessions, flight := none, queue := s.flight.toList ++ s.queue } where
  wired := by
    apply h.wired.release
    · exact fun j => (released_record s j).1
    · exact released_inactive h.wired
    · rfl
    · intro hc
      rw [hclosed] at hc
      cases hc
    · exact ⟨rfl, rfl, rfl, rfl, rfl, rfl, rfl, rfl, rfl, rfl⟩
  account := h.account.congr rfl fun r => by
    show s.posted.count r + (s.flight.toList ++ s.queue).count r + 0 =
      s.posted.count r + s.queue.count r + (if s.flight = some r then 1 else 0)
    rw [List.count_append]
    cases s.flight with
    | none =>
      show s.posted.count r + (0 + s.queue.count r) + 0 = _
      rw [if_neg (fun he => by cases he), Nat.zero_add]
    | some q =>
      show s.posted.count r + ([q].count r + s.queue.count r) + 0 = _
      rw [List.count_singleton]
      simp only [beq_iff_eq, Option.some.injEq]
      omega
  sessions := fun j => by
    obtain ⟨_, hspans, hearly, hreceived⟩ := released_record s j
    exact (h.sessions j).congr hspans hearly hreceived
  told := h.told.congr (Nat.le_refl _) rfl fun j _ => (released_record s j).2.1

/-- The client after `Shutdown` has failed all requests and has given up the connect attempt. -/
def halted (s : Impl) (requests : Nat → Request) (generation : Nat) : Impl :=
  { s with
    closed := true, flight := none, queue := [], sessions := (released s).sessions
    requests := requests, bConnectPending := false, iConnectGeneration := generation }

theorem halted_base (h : Base s) (hclosed : s.closed = false) (generation : Nat) :
    Base (halted s (failAll (s.flight.toList ++ s.queue) s).requests generation) := by
  have hfail := Base.failAll (s := { s with sessions := (released s).sessions, flight := none })
    (s.flight.toList ++ s.queue) (released_base h hclosed)
  have hrequests : (failAll (s.flight.toList ++ s.queue)
      { s with sessions := (released s).sessions, flight := none }).requests =
      (failAll (s.flight.toList ++ s.queue) s).requests := failAll_requests _ _ s rfl
  rw [failAll_same, hrequests] at hfail
  exact
    { wired := { hfail.wired with
        pending := fun he => by cases he
        trying := fun _ hc => by cases hc
        shut := fun _ => ⟨rfl, rfl⟩ }
      account := hfail.account.congr rfl fun _ => rfl
      sessions := hfail.sessions
      told := hfail.told.congr (Nat.le_refl _) rfl fun _ _ => rfl }

theorem shutdown_eq (env : Env) (hclosed : s.closed = false) :
    ∃ generation, shutdown env s =
      closeAllSessions (calls env 3)
        (halted s (failAll (s.flight.toList ++ s.queue) s).requests generation) := by
  have hmatch : (match ({ s with closed := true } : Impl).session with
      | some i => ({ s with closed := true } : Impl).setSession i (s.sessions i).abandon
      | none => { s with closed := true }) =
      { s with closed := true, sessions := (released s).sessions } := by
    rw [released]
    dsimp only
    cases s.session with
    | none => rfl
    | some i => rfl
  have hfront : shutdown env s =
      (fun u : Impl =>
        let t := failAll (u.flight.toList ++ u.queue) { u with flight := none, queue := [] }
        closeAllSessions ((cancelConnect t).calls env) (cancelConnect t))
        { s with closed := true, sessions := (released s).sessions } := by
    rw [shutdown, if_neg (by rw [hclosed]; exact Bool.false_ne_true), ← hmatch]
    rfl
  have hrequests : (failAll (s.flight.toList ++ s.queue)
      { s with
        closed := true, sessions := (released s).sessions, flight := none, queue := [] }).requests =
      (failAll (s.flight.toList ++ s.queue) s).requests := failAll_requests _ _ s rfl
  rw [hfront]
  dsimp only
  rw [failAll_same, hrequests, cancelConnect]
  split
  · exact ⟨s.iConnectGeneration + 1, rfl⟩
  case isFalse hp =>
    have hnone : s.bConnectPending = false := by simpa using hp
    refine ⟨s.iConnectGeneration, ?_⟩
    rw [halted, ← hnone]
    rfl

/-- **`Shutdown`.** -/
theorem shutdown_done (h : Done s) : Done (shutdown env s) := by
  cases hclosed : s.closed with
  | true =>
    rw [shutdown, if_pos hclosed]
    exact h
  | false =>
    obtain ⟨generation, he⟩ := shutdown_eq env hclosed
    have hbase := halted_base h.good.base hclosed generation
    rw [he, closeAllSessions]
    rcases hbase.wired.map_cases with hmap | ⟨i, hmap⟩
    · rw [hmap, List.foldl_nil]
      refine (hbase.good rfl ?_).done_of_closed rfl
      intro j ho _
      have hin := (hbase.wired.opened j).1 ho
      rw [hmap] at hin
      cases hin
    · rw [hmap, List.foldl_cons, List.foldl_nil]
      have hserve := (calls_serve env 3).close i _ hbase (fun r hr => by cases hr)
        (by rw [hmap]; exact List.mem_cons_self) (Nat.le_succ 2)
      exact hserve.1

/-! ## All runs -/

theorem init_done : Done init := by
  have hwired : Wired init := by
    constructor
    · rfl
    · intro i
      exact ⟨(fun he => by cases he), (fun he => by cases he)⟩
    · exact fun i hi => by cases hi
    · exact fun i hi => by cases hi
    · exact List.nodup_nil
    · rfl
    · rfl
    · exact fun i hi => by cases hi
    · exact fun r hr => by cases hr
    · exact fun hp => by cases hp
    · exact fun _ _ hc => by cases hc
    · exact fun hc => by cases hc
  have hbase : Base init :=
    { wired := hwired
      account := ⟨fun _ => requestOk_new, fun _ => rfl⟩
      sessions := fun _ => (sessionOk_new "").congr rfl rfl rfl
      told := fun r hr => by cases hr }
  have hgood : Good init := hbase.good rfl fun i ho => by cases ho
  exact ⟨hgood, fun hq => absurd rfl hq⟩

/-- **Whatever the poll thread is called with, the client is `Done` afterwards.** -/
theorem step_done {s' : Impl} {e : Event} (h : Done s) (hstep : step env s e = some s') :
    Done s' := by
  have hdeep := calls_serve env (3 * s.queue.length + 3)
  cases e with
  | await r =>
    rw [step] at hstep
    dsimp only at hstep
    obtain ⟨hr, rfl⟩ := of_guard_not hstep
    exact await_done h (by simpa using hr)
  | enqueue r =>
    obtain ⟨hr, rfl⟩ := of_guard hstep
    exact enqueueOnLoop_done h hr
  | suspend r =>
    obtain ⟨hr, rfl⟩ := of_guard hstep
    exact suspend_done h hr.1 hr.2
  | dataIn i segment =>
    obtain rfl := Option.some.inj hstep
    cases hactive : (s.sessions i).active with
    | true => exact dataIn_active h hactive
    | false => exact dataIn_idle h hactive
  | passiveClose i =>
    obtain rfl := Option.some.inj hstep
    exact passiveClose_done h
  | onClose i =>
    obtain ⟨hi, rfl⟩ := of_guard_not hstep
    exact onClose_done h (by simpa using hi)
  | timeout r =>
    obtain rfl := Option.some.inj hstep
    exact onTimeout_done h
  | resolved generation bOk endpoint =>
    obtain rfl := Option.some.inj hstep
    exact (hdeep.onResolved generation bOk endpoint h.good (fun _ => h.settled)
      (fun _ => h.settled) (Nat.succ_pos _) (Nat.le_add_right _ 3)).1
  | connected generation =>
    obtain rfl := Option.some.inj hstep
    exact (hdeep.completeConnect generation h.good (fun _ => h.settled) (fun _ => h.settled)
      (Nat.succ_pos _) (Nat.le_add_right _ 3)).1
  | connectFailed generation =>
    obtain rfl := Option.some.inj hstep
    exact (hdeep.abortSession generation h.good (fun _ => h.settled) (fun _ => h.settled)
      (Nat.succ_pos _) (Nat.le_add_right _ 5)).1
  | shutdown =>
    obtain rfl := Option.some.inj hstep
    exact shutdown_done h
  | requestStop =>
    obtain rfl := Option.some.inj hstep
    have hwired : Wired { s with stopRequested := true } :=
      { h.good.base.wired with trying := fun he => by cases he }
    exact ⟨⟨⟨hwired, h.good.base.account.congr rfl fun _ => rfl, h.good.base.sessions,
      h.good.base.told.congr (Nat.le_refl _) rfl fun _ _ => rfl⟩, h.good.serving, h.good.flying,
      h.good.clean⟩, h.settled⟩

theorem run_done {es : List Event} (h : runFrom (step env) init es = some s) : Done s :=
  runFrom_invariant (fun _ _ _ hd hstep => step_done hd hstep) init_done h

/-! ## The queue is never stuck -/

/-- **The queue goes on.** A queue that is not empty waits for the request in flight or for a
session; while the process runs, a session that is waited for is being connected; and the request in
flight was sent on the session of use, which is open. -/
structure Moving (s : Impl) : Prop where
  waits : s.queue ≠ [] → s.flight.isSome = true ∨ s.connecting = true
  attempt : s.stopRequested = false → s.connecting = true → s.bConnectPending = true
  sent : ∀ r, s.flight = some r → ∃ i, s.session = some i ∧ (s.sessions i).isOpen = true ∧
    r ∈ (s.sessions i).sent

/-- **The queue is never stuck.** After each call of the poll thread, in whatever order they come
and whatever the network answers, the nested calls have ended, and the queue of a client that is not
shut down goes on. -/
theorem never_stuck {env : Env} {es : List Event} {s : Impl}
    (h : runFrom (step env) init es = some s) :
    s.overrun = false ∧ (s.closed = false → Moving s) := by
  have hdone := run_done h
  refine ⟨hdone.good.base.wired.depth, fun hclosed => ?_⟩
  constructor
  · exact hdone.settled
  · exact fun hgo hing => hdone.good.base.wired.trying hgo hclosed hing
  · exact hdone.good.flying

/-- The network resolves and connects at once, but the first connect and the second send fail. -/
def fragile : Env where
  sHost := "h"
  iPort := 80
  bReuse := true
  hostEndpoint := "h:80"
  sends := fun tick => tick != 7
  resolve := fun _ => .done true "h:80"
  connect := fun tick => if tick = 1 then .refused else .connected

/-- Three requests: the first fails with its connect, inside of `EnqueueOnLoop`; the answer to the
second comes with more bytes, so that its session is closed, and the third fails with its send on
the next session, which is closed as well. A fourth connects once more, and is in flight. -/
def nestedRun : List Event :=
  [.await 0, .await 1, .await 2, .await 3, .enqueue 0, .enqueue 1, .enqueue 2,
    .dataIn 2 (ascii "HTTP/1.1 204 No\r\n\r\nHTTP"), .enqueue 3, .timeout 1]

theorem never_stuck_nestedRun : ∃ s, runFrom (step fragile) init nestedRun = some s ∧
    Moving s ∧ s.flight = some 3 ∧ s.session = some 4 ∧ s.sessionMap = [4] ∧ s.queue = [] := by
  have hrun : (runFrom (step fragile) init nestedRun).map (fun s => decide
      (s.closed = false ∧ s.flight = some 3 ∧ s.session = some 4 ∧ s.sessionMap = [4] ∧
        s.queue = [])) = some true := by
    decide +kernel
  obtain ⟨s, hs, hfacts⟩ := Option.map_eq_some_iff.1 hrun
  obtain ⟨hclosed, hrest⟩ := of_decide_eq_true hfacts
  exact ⟨s, hs, (never_stuck hs).2 hclosed, hrest⟩

end OpenIdea.Http
