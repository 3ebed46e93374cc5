import OpenIdea.Registry.Client
import Mathlib.Data.List.GetD

/-!
# The registry client hands each reply to its own pull

The frames carry no call id, so everything rests on one fact, `Aligned`: `vPendingPulls` holds
exactly the pulls of the current session that have no reply yet, in the order they were sent.  A
pull whose caller has given up keeps its entry, and an expired pull takes its whole session with it.

The result slot of `PullSync` is shared by all synchronous callers.  `SlotOk` says who may write it:
at most one entry of the queue is synchronous, and it belongs to the `PullSync` that is waiting.

Main result: `replies_paired`.
-/

set_option autoImplicit false

namespace OpenIdea.Registry.Client

open OpenIdea.Lib OpenIdea.Lib.Runs

/-! ## The sessions -/

variable {s s' : State} {n sid : Nat} {p : PendingPull}

/-- One session changes, the others stay. -/
theorem line_modify (h : sid < s.sessions.length) (f : Line Nat → Line Nat) (i : Nat) :
    (s.sessions.modify sid f).getD i {} = if i = sid then f (s.line sid) else s.line i := by
  split
  · rename_i hi
    subst hi
    simp [State.line, List.getD_eq_getElem?_getD, h]
  · rename_i hi
    simp [State.line, List.getD_eq_getElem?_getD, Ne.symm hi]

/-- A session that has sent nothing looks like one that does not exist yet. -/
theorem line_concat (s : State) (i : Nat) :
    (s.sessions ++ [({} : Line Nat)]).getD i {} = s.line i := by
  unfold State.line
  rcases Nat.lt_trichotomy i s.sessions.length with h | rfl | h
  · rw [List.getD_append _ _ _ _ h]
  · simp
  · rw [List.getD_eq_default _ _ (by simp; omega), List.getD_eq_default _ _ (by omega)]

/-- The queue is the outstanding part of the current session, and each reply handed out so far went
to the pull at its own position. -/
structure Aligned (s : State) : Prop where
  sound : ∀ sid, (s.line sid).Sound
  exists_session : ∀ sid, s.sessionId = some sid → sid < s.sessions.length
  queue : ∀ sid, s.sessionId = some sid →
    s.pendingPulls.map (·.serial) = (s.line sid).outstanding
  no_queue : s.sessionId = none → s.pendingPulls = []
  paired : ∀ c ∈ s.consumed, (s.line c.session).sent[c.reply]? = some c.pull
  answered : ∀ c ∈ s.consumed, c.reply < (s.line c.session).answered
  nodup : (s.consumed.map fun c => (c.session, c.reply)).Nodup

theorem aligned_init : Aligned {} where
  sound := fun _ => Line.sound_empty
  exists_session := by simp
  queue := by simp
  no_queue := fun _ => rfl
  paired := by simp
  answered := by simp
  nodup := List.nodup_nil

/-- `Aligned` looks at four fields only. -/
theorem Aligned.of_eq (h : Aligned s) (hsid : s'.sessionId = s.sessionId)
    (hpend : s'.pendingPulls.map (·.serial) = s.pendingPulls.map (·.serial))
    (hses : s'.sessions = s.sessions) (hcon : s'.consumed = s.consumed) : Aligned s' := by
  have hline : ∀ i, s'.line i = s.line i := by
    intro i
    rw [State.line, hses]
    rfl
  constructor
  · intro sid
    rw [hline]
    exact h.sound sid
  · rw [hsid, hses]
    exact h.exists_session
  · intro sid hs
    rw [hpend, hline]
    exact h.queue sid (hsid.symm.trans hs)
  · intro hs
    have hnil := h.no_queue (hsid.symm.trans hs)
    rw [hnil] at hpend
    exact List.map_eq_nil_iff.1 hpend
  · simp only [hcon, hline]
    exact h.paired
  · simp only [hcon, hline]
    exact h.answered
  · rw [hcon]
    exact h.nodup

/-- A pull that is sent joins the queue and the session at once. -/
theorem Aligned.enqueueSentPull (h : Aligned s) (p : PendingPull) (now : Nat) (o : SendOutcome) :
    Aligned (Client.enqueueSentPull p now o s).1 := by
  obtain ⟨sid, hsid, heq⟩ | ⟨r, -, heq⟩ := enqueueSentPull_cases p now o s
  · rw [heq]
    have hlt := h.exists_session sid hsid
    have hline := line_modify hlt (·.send p.serial)
    constructor
    · intro i
      rw [State.line, hline]
      split
      · exact (h.sound sid).send _
      · exact h.sound i
    · intro i hi
      rw [List.length_modify]
      exact h.exists_session i hi
    · intro i hi
      obtain rfl := Option.some.inj (hsid.symm.trans hi)
      rw [State.line, hline, if_pos rfl, (h.sound _).outstanding_send, ← h.queue _ hsid]
      simp
    · intro hi
      rw [show (armPullTimeout s).sessionId = s.sessionId from rfl, hsid] at hi
      cases hi
    · intro c hc
      have hpair := h.paired c hc
      rw [State.line, hline]
      split
      · rename_i heqs
        rw [heqs] at hpair
        exact Line.getElem?_send hpair
      · exact hpair
    · intro c hc
      have hans := h.answered c hc
      rw [State.line, hline]
      split
      · rename_i heqs
        rw [heqs] at hans
        exact hans
      · exact hans
    · exact h.nodup
  · rw [heq]
    exact h.of_eq rfl rfl rfl rfl

/-- The session and its queue are dropped together. -/
theorem Aligned.dropSession (h : Aligned s) (hsid : s'.sessionId = none)
    (hpend : s'.pendingPulls = []) (hses : s'.sessions = s.sessions)
    (hcon : s'.consumed = s.consumed) : Aligned s' := by
  have hline : ∀ i, s'.line i = s.line i := by
    intro i
    rw [State.line, hses]
    rfl
  constructor
  · intro sid
    rw [hline]
    exact h.sound sid
  · rw [hsid]
    simp
  · rw [hsid]
    simp
  · exact fun _ => hpend
  · simp only [hcon, hline]
    exact h.paired
  · simp only [hcon, hline]
    exact h.answered
  · rw [hcon]
    exact h.nodup

theorem Aligned.invalidate (h : Aligned s) (now : Nat) : Aligned (Client.invalidate now s) := by
  obtain heq | ⟨p, -, -, heq⟩ := invalidate_cases now s
  · rw [heq]
    exact h.dropSession rfl rfl rfl rfl
  · rw [heq]
    exact h.dropSession rfl rfl rfl rfl

theorem Aligned.expirePulls (h : Aligned s) (now : Nat) : Aligned (Client.expirePulls now s) := by
  have hdef : Aligned (expireDeferred now s) := h.of_eq rfl rfl rfl rfl
  unfold Client.expirePulls
  dsimp only
  split
  · exact hdef.invalidate now
  · exact hdef

theorem Aligned.resend : ∀ {ps : List PendingPull} {as : List Attempt} {s : State}, Aligned s →
    Aligned (Client.resend ps as s).1
  | [], _, _, h => h
  | p :: ps, as, s, h => by
      have hsent := h.enqueueSentPull p (as.headD {}).now (as.headD {}).send
      unfold Client.resend
      dsimp only
      split
      · exact Aligned.resend h
      · generalize Client.enqueueSentPull p (as.headD {}).now (as.headD {}).send s = r at hsent ⊢
        obtain ⟨s', o⟩ := r
        cases o with
        | accepted => exact Aligned.resend hsent
        | refused => exact Aligned.resend hsent
        | threw => exact Aligned.resend hsent

/-- A new session starts with an empty queue. -/
theorem Aligned.onAddSession (h : Aligned s) (attempts : List Attempt) :
    Aligned (Client.onAddSession attempts s) := by
  have hnew : Aligned
      { s with
        pendingPulls := []
        deferredPulls := []
        sessionId := some s.sessions.length
        failed := false
        connected := true
        connecting := false
        sessions := s.sessions ++ [{}] } := by
    constructor
    · intro sid
      rw [State.line, line_concat]
      exact h.sound sid
    · intro sid hsid
      obtain rfl := Option.some.inj hsid
      simp
    · intro sid hsid
      obtain rfl := Option.some.inj hsid
      rw [State.line, List.getD_append_right _ _ _ _ (Nat.le_refl _)]
      simp
    · intro hsid
      cases hsid
    · intro c hc
      rw [State.line, line_concat]
      exact h.paired c hc
    · intro c hc
      rw [State.line, line_concat]
      exact h.answered c hc
    · exact h.nodup
  exact (@Aligned.resend s.deferredPulls attempts _ hnew).of_eq rfl rfl rfl rfl

theorem Aligned.onDelSession (h : Aligned s) (sid : Nat) : Aligned (Client.onDelSession sid s) := by
  unfold Client.onDelSession
  split
  · exact h.dropSession rfl rfl rfl rfl
  · exact h

theorem Aligned.connect (h : Aligned s) (cfg : Config) (o : Start) :
    Aligned (Client.connect cfg o s).1 := by
  have hflags : Aligned { s with addressReady := true, connecting := true, failed := false } :=
    h.of_eq rfl rfl rfl rfl
  unfold Client.connect
  dsimp only
  split
  · exact h
  split
  · exact h
  split
  · exact h.of_eq rfl rfl rfl rfl
  split
  · exact h.of_eq rfl rfl rfl rfl
  split
  · exact hflags
  · exact hflags.of_eq rfl rfl rfl rfl
  · exact hflags.onAddSession _
  · exact hflags

theorem Aligned.finishPull (h : Aligned s) (state : Option Nat) (code : Int) (list : List Instance)
    : Aligned (Client.finishPull state code list s) := by
  unfold Client.finishPull
  split
  · exact h
  split
  · exact h
  · exact h.of_eq rfl rfl rfl rfl

theorem Aligned.giveUp (h : Aligned s) (n deadline : Nat) (code : Int) :
    Aligned (Client.giveUp n deadline code s) :=
  h.of_eq rfl rfl rfl rfl

theorem Aligned.pullAsyncLocked (h : Aligned s) (cfg : Config) (env : AsyncEnv) (p : PendingPull) :
    Aligned (Client.pullAsyncLocked cfg env p s) := by
  have hconn := h.connect cfg env.start
  unfold Client.pullAsyncLocked
  dsimp only
  split
  · exact h.giveUp _ _ _
  · exact h.giveUp _ _ _
  generalize Client.connect cfg env.start s = res at hconn ⊢
  obtain ⟨s₁, r⟩ := res
  cases r with
  | none => exact hconn.giveUp _ _ _
  | some b =>
    cases b with
    | false => exact hconn.giveUp _ _ _
    | true =>
      dsimp only at hconn ⊢
      have harmed : Aligned (armPullTimeout s₁) := hconn.of_eq rfl rfl rfl rfl
      have hsent := harmed.enqueueSentPull p env.now env.send
      split
      · exact hconn.giveUp _ _ _
      split
      · exact harmed.giveUp _ _ _
      split
      · generalize Client.enqueueSentPull p env.now env.send (armPullTimeout s₁) = r at hsent ⊢
        obtain ⟨s', o⟩ := r
        cases o with
        | accepted => exact hsent
        | refused => exact hsent.giveUp _ _ _
        | threw => exact hsent.giveUp _ _ _
      split
      · split
        · exact harmed.of_eq rfl rfl rfl rfl
        · exact harmed.giveUp _ _ _
      · exact harmed.giveUp _ _ _

theorem Aligned.pullAsync (h : Aligned s) (cfg : Config) (name : Text) (timeout : Int)
    (env : AsyncEnv) : Aligned (Client.pullAsync cfg name timeout env s) := by
  have hnew : Aligned { s with
      issued := s.issued + 1
      asyncs := s.asyncs ++ [(s.issued, asyncDeadline env.started timeout)] } :=
    h.of_eq rfl rfl rfl rfl
  unfold Client.pullAsync
  dsimp only
  split
  · exact h.of_eq rfl rfl rfl rfl
  split
  · exact hnew.giveUp _ _ _
  split
  · exact hnew.giveUp _ _ _
  · exact hnew.pullAsyncLocked cfg env _

theorem Aligned.pull (h : Aligned s) (cfg : Config) (names : List Text) (sawConnected : Bool)
    (start : Start) (now : Nat) (o : SendOutcome) :
    Aligned (Client.pull cfg names sawConnected start now o s) := by
  have hnew : Aligned { s with issued := s.issued + 1 } := h.of_eq rfl rfl rfl rfl
  unfold Client.pull
  split
  · exact h
  split
  · exact h.connect cfg start
  split
  · exact h
  split
  · exact hnew.enqueueSentPull _ now o
  · exact h

/-- The oldest outstanding pull takes the reply: it is the one the reply is for. -/
theorem Aligned.deliver {s : State} (h : Aligned s) {sid : Nat} (hsid : s.sessionId = some sid)
    (howes : (s.line sid).Owes) {p : PendingPull} {rest : List PendingPull}
    (hp : s.pendingPulls = p :: rest) (c : Consumption) (hcs : c.session = sid)
    (hcr : c.reply = (s.line sid).answered) (hcp : c.pull = p.serial) :
    Aligned (Client.deliver p c
      { s with sessions := s.sessions.modify sid (·.answer), pendingPulls := rest }) := by
  have hlt := h.exists_session sid hsid
  have hline := line_modify hlt (·.answer)
  have hqueue := h.queue sid hsid
  rw [hp, List.map_cons] at hqueue
  have key : Aligned { s with
      sessions := s.sessions.modify sid (·.answer)
      pendingPulls := rest
      consumed := s.consumed ++ [c] } := by
    constructor
    · intro i
      rw [State.line, hline]
      split
      · exact howes.sound_answer
      · exact h.sound i
    · intro i hi
      rw [List.length_modify]
      exact h.exists_session i hi
    · intro i hi
      obtain rfl := Option.some.inj (hsid.symm.trans hi)
      rw [State.line, hline, if_pos rfl, Line.outstanding_answer, ← hqueue]
      rfl
    · intro hi
      rw [show ({ s with
        sessions := s.sessions.modify sid (·.answer)
        pendingPulls := rest
        consumed := s.consumed ++ [c] } : State).sessionId = s.sessionId from rfl, hsid] at hi
      cases hi
    · intro x hx
      rw [State.line, hline]
      rcases List.mem_append.1 hx with hx | hx
      · have hpair := h.paired x hx
        split
        · rename_i heq
          rw [heq] at hpair
          exact hpair
        · exact hpair
      · rw [List.mem_singleton.1 hx, if_pos hcs, Line.answer_sent, hcr, ← Line.head?_outstanding,
          ← hqueue, hcp]
        rfl
    · intro x hx
      rw [State.line, hline]
      rcases List.mem_append.1 hx with hx | hx
      · have hans := h.answered x hx
        split
        · rename_i heq
          rw [heq] at hans
          exact Nat.lt_succ_of_lt hans
        · exact hans
      · rw [List.mem_singleton.1 hx, if_pos hcs, Line.answer_answered, hcr]
        exact Nat.lt_succ_self _
    · rw [List.map_append, List.map_singleton, List.nodup_append]
      refine ⟨h.nodup, List.nodup_singleton _, ?_⟩
      intro a ha b hb
      obtain ⟨x, hx, rfl⟩ := List.mem_map.1 ha
      rw [List.mem_singleton.1 hb]
      intro heq
      -- an earlier reply of the session has a smaller number
      have hans := h.answered x hx
      rw [(Prod.mk.inj heq).1, (Prod.mk.inj heq).2, hcs, hcr] at hans
      exact Nat.lt_irrefl _ hans
  unfold Client.deliver
  dsimp only
  split
  · exact key.finishPull _ _ _
  split
  · exact key.of_eq rfl rfl rfl rfl
  split
  · exact key.of_eq rfl rfl rfl rfl
  · exact key

/-- A reply to a pull of an old session is not handed to anyone. -/
theorem Aligned.answerElsewhere (h : Aligned s) (hsid : s.sessionId ≠ some sid)
    (howes : (s.line sid).Owes) :
    Aligned { s with sessions := s.sessions.modify sid (·.answer) } := by
  have hlt : sid < s.sessions.length := by
    by_contra hge
    have hline : s.line sid = {} := List.getD_eq_default _ _ (by omega)
    rw [hline] at howes
    exact absurd howes (by decide)
  have hline := line_modify hlt (·.answer)
  constructor
  · intro i
    rw [State.line, hline]
    split
    · exact howes.sound_answer
    · exact h.sound i
  · intro i hi
    rw [List.length_modify]
    exact h.exists_session i hi
  · intro i hi
    have hne : i ≠ sid := by
      rintro rfl
      exact hsid hi
    rw [State.line, hline, if_neg hne]
    exact h.queue i hi
  · exact h.no_queue
  · intro c hc
    have hpair := h.paired c hc
    rw [State.line, hline]
    split
    · rename_i heq
      rw [heq] at hpair
      exact hpair
    · exact hpair
  · intro c hc
    have hans := h.answered c hc
    rw [State.line, hline]
    split
    · rename_i heq
      rw [heq] at hans
      exact Nat.lt_succ_of_lt hans
    · exact hans
  · exact h.nodup

/-! ## The result slot -/

/-- The pull whose reply the synchronous caller still waits for. -/
def SyncPhase.live : SyncPhase → List Nat
  | .waiting n => [n]
  | .cancelling n true => [n]
  | _ => []

/-- The slot holds the outcome of pull `n`. -/
def Published (s : State) (n : Nat) : Prop :=
  (s.writer = .expired n ∧ (s.code = errTimeout ∨ s.code = errConnect)) ∨
  (s.writer = .reply n ∧ ∃ c ∈ s.consumed, c.pull = n ∧ c.result = (s.code, s.responseList))

/-- What a `PullSync` returned is its own: a code it chose itself, the verdict of `ExpirePulls` on
its own pull, or the reply to its own pull. -/
def SyncReturn.Own (consumed : List Consumption) (r : SyncReturn) : Prop :=
  match r.writer with
  | .caller => r.ok = false ∧ r.list = []
  | .expired n => n = r.pull ∧ r.ok = false ∧ r.list = []
  | .reply n => n = r.pull ∧ ∃ c ∈ consumed, c.pull = r.pull ∧ c.result.1 = r.code ∧
      r.list = if r.ok then c.result.2 else []
  | .registration => False

theorem SyncReturn.Own.mono {consumed consumed' : List Consumption} {r : SyncReturn}
    (h : r.Own consumed) (hsub : ∀ c ∈ consumed, c ∈ consumed') : r.Own consumed' := by
  unfold SyncReturn.Own at h ⊢
  split at h
  · exact h
  · exact h
  · obtain ⟨hn, c, hc, hrest⟩ := h
    exact ⟨hn, c, hsub c hc, hrest⟩
  · exact h

/-- Who may write the slot. -/
structure SlotOk (s : State) : Prop where
  registration : s.registrationWaiting = false
  /-- The synchronous entries belong to the caller that waits. -/
  live : ((s.pendingPulls.filter (·.synchronous)).map (·.serial)).Sublist s.sync.live
  /-- They have no callback. -/
  no_state : ∀ p ∈ s.pendingPulls, p.synchronous = true → p.state = none
  deferred : ∀ p ∈ s.deferredPulls, p.synchronous = false
  /-- Once the flag is up, no entry is left that could write. -/
  waiting : ∀ n, s.sync = .waiting n → s.got = true →
    Published s n ∧ s.pendingPulls.filter (·.synchronous) = []
  reading : ∀ n, s.sync = .reading n → Published s n
  returned : ∀ r ∈ s.returned, r.Own s.consumed

theorem slotOk_init : SlotOk {} where
  registration := rfl
  live := List.Sublist.refl _
  no_state := by simp
  deferred := by simp
  waiting := by simp
  reading := by simp
  returned := by simp

/-- A change that leaves the slot and its readers alone: synchronous entries may go, none may come.
-/
structure Calm (s s' : State) : Prop where
  syncs : (s'.pendingPulls.filter (·.synchronous)).Sublist (s.pendingPulls.filter (·.synchronous))
  deferred : (∀ p ∈ s.deferredPulls, p.synchronous = false) →
    ∀ p ∈ s'.deferredPulls, p.synchronous = false
  registration : s'.registrationWaiting = s.registrationWaiting
  sync : s'.sync = s.sync
  got : s'.got = s.got
  code : s'.code = s.code
  responseList : s'.responseList = s.responseList
  writer : s'.writer = s.writer
  consumed : s'.consumed = s.consumed
  returned : s'.returned = s.returned

theorem Calm.refl (s : State) : Calm s s :=
  ⟨List.Sublist.refl _, id, rfl, rfl, rfl, rfl, rfl, rfl, rfl, rfl⟩

theorem Calm.trans {t u : State} (h : Calm s t) (h' : Calm t u) : Calm s u where
  syncs := h'.syncs.trans h.syncs
  deferred := fun hd => h'.deferred (h.deferred hd)
  registration := h'.registration.trans h.registration
  sync := h'.sync.trans h.sync
  got := h'.got.trans h.got
  code := h'.code.trans h.code
  responseList := h'.responseList.trans h.responseList
  writer := h'.writer.trans h.writer
  consumed := h'.consumed.trans h.consumed
  returned := h'.returned.trans h.returned

theorem SlotOk.calm (h : SlotOk s) (hc : Calm s s') : SlotOk s' where
  registration := hc.registration.trans h.registration
  live := by
    rw [hc.sync]
    exact (hc.syncs.map _).trans h.live
  no_state := by
    intro p hp hsync
    have hmem := hc.syncs.subset (List.mem_filter.2 ⟨hp, hsync⟩)
    exact h.no_state p (List.mem_filter.1 hmem).1 hsync
  deferred := hc.deferred h.deferred
  waiting := by
    intro n hn hgot
    obtain ⟨hpub, hnone⟩ := h.waiting n (hc.sync.symm.trans hn) (hc.got.symm.trans hgot)
    refine ⟨?_, List.sublist_nil.1 (hnone ▸ hc.syncs)⟩
    unfold Published
    rw [hc.writer, hc.code, hc.consumed, hc.responseList]
    exact hpub
  reading := by
    intro n hn
    unfold Published
    rw [hc.writer, hc.code, hc.consumed, hc.responseList]
    exact h.reading n (hc.sync.symm.trans hn)
  returned := by
    rw [hc.returned, hc.consumed]
    exact h.returned

theorem filter_concat_of_not (hp : p.synchronous = false) (ps : List PendingPull) :
    (ps ++ [p]).filter (·.synchronous) = ps.filter (·.synchronous) := by
  rw [List.filter_append, List.filter_singleton, hp]
  simp

theorem calm_enqueueSentPull (hp : p.synchronous = false) (now : Nat) (o : SendOutcome) (s : State)
    : Calm s (enqueueSentPull p now o s).1 := by
  obtain ⟨sid, -, heq⟩ | ⟨r, -, heq⟩ := enqueueSentPull_cases p now o s
  · rw [heq]
    refine ⟨?_, id, rfl, rfl, rfl, rfl, rfl, rfl, rfl, rfl⟩
    rw [filter_concat_of_not (by rw [PendingPull.stamped_synchronous, hp])]
  · rw [heq]
    exact ⟨List.Sublist.refl _, id, rfl, rfl, rfl, rfl, rfl, rfl, rfl, rfl⟩

theorem calm_resend : ∀ {ps : List PendingPull} (as : List Attempt) (s : State),
    (∀ p ∈ ps, p.synchronous = false) → Calm s (resend ps as s).1
  | [], _, s, _ => Calm.refl s
  | p :: ps, as, s, hps => by
      obtain ⟨hp, hps⟩ := List.forall_mem_cons.1 hps
      have hsent := calm_enqueueSentPull hp (as.headD {}).now (as.headD {}).send s
      unfold resend
      dsimp only
      split
      · exact calm_resend _ _ hps
      · generalize enqueueSentPull p (as.headD {}).now (as.headD {}).send s = r at hsent ⊢
        obtain ⟨s', o⟩ := r
        cases o with
        | accepted => exact hsent.trans (calm_resend _ _ hps)
        | refused => exact hsent.trans (calm_resend _ _ hps)
        | threw => exact hsent.trans (calm_resend _ _ hps)

theorem calm_onAddSession (hd : ∀ p ∈ s.deferredPulls, p.synchronous = false)
    (attempts : List Attempt) : Calm s (onAddSession attempts s) := by
  have hnew : Calm s
      { s with
        pendingPulls := []
        deferredPulls := []
        sessionId := some s.sessions.length
        failed := false
        connected := true
        connecting := false
        sessions := s.sessions ++ [{}] } :=
    ⟨List.nil_sublist _, by simp, rfl, rfl, rfl, rfl, rfl, rfl, rfl, rfl⟩
  have hloop := hnew.trans (calm_resend attempts _ hd)
  exact ⟨hloop.syncs, hloop.deferred, hloop.registration, hloop.sync, hloop.got, hloop.code,
    hloop.responseList, hloop.writer, hloop.consumed, hloop.returned⟩

theorem calm_onDelSession (sid : Nat) (s : State) : Calm s (onDelSession sid s) := by
  unfold onDelSession
  split
  · exact ⟨List.nil_sublist _, by simp, rfl, rfl, rfl, rfl, rfl, rfl, rfl, rfl⟩
  · exact Calm.refl s

theorem calm_onConnectFailed (s : State) : Calm s (onConnectFailed s) :=
  ⟨List.Sublist.refl _, by simp [onConnectFailed], rfl, rfl, rfl, rfl, rfl, rfl, rfl, rfl⟩

theorem calm_connect {s : State} (hd : ∀ p ∈ s.deferredPulls, p.synchronous = false) (cfg : Config)
    (o : Start) : Calm s (connect cfg o s).1 := by
  have hflags : Calm s { s with addressReady := true, connecting := true, failed := false } :=
    ⟨List.Sublist.refl _, id, rfl, rfl, rfl, rfl, rfl, rfl, rfl, rfl⟩
  unfold connect
  dsimp only
  split
  · exact Calm.refl s
  split
  · exact Calm.refl s
  split
  · exact ⟨List.Sublist.refl _, id, rfl, rfl, rfl, rfl, rfl, rfl, rfl, rfl⟩
  split
  · exact ⟨List.Sublist.refl _, id, rfl, rfl, rfl, rfl, rfl, rfl, rfl, rfl⟩
  split
  · exact hflags
  · exact hflags.trans (calm_onConnectFailed _)
  · refine hflags.trans (calm_onAddSession ?_ _)
    exact hd
  · exact hflags

theorem calm_giveUp (n deadline : Nat) (code : Int) (s : State) : Calm s (giveUp n deadline code s) :=
  ⟨List.Sublist.refl _, id, rfl, rfl, rfl, rfl, rfl, rfl, rfl, rfl⟩

theorem calm_finishPull (state : Option Nat) (code : Int) (list : List Instance) (s : State) :
    Calm s (finishPull state code list s) := by
  unfold finishPull
  split
  · exact Calm.refl s
  split
  · exact Calm.refl s
  · exact ⟨List.Sublist.refl _, id, rfl, rfl, rfl, rfl, rfl, rfl, rfl, rfl⟩

theorem calm_pullAsyncLocked (hd : ∀ p ∈ s.deferredPulls, p.synchronous = false) (cfg : Config)
    (env : AsyncEnv) (hp : p.synchronous = false) : Calm s (pullAsyncLocked cfg env p s) := by
  have hconn := calm_connect hd cfg env.start
  unfold pullAsyncLocked
  dsimp only
  split
  · exact calm_giveUp _ _ _ s
  · exact calm_giveUp _ _ _ s
  generalize connect cfg env.start s = res at hconn ⊢
  obtain ⟨s₁, r⟩ := res
  cases r with
  | none => exact hconn.trans (calm_giveUp _ _ _ s₁)
  | some b =>
    cases b with
    | false => exact hconn.trans (calm_giveUp _ _ _ s₁)
    | true =>
      dsimp only at hconn ⊢
      have harmed : Calm s (armPullTimeout s₁) :=
        hconn.trans ⟨List.Sublist.refl _, id, rfl, rfl, rfl, rfl, rfl, rfl, rfl, rfl⟩
      have hsent := harmed.trans (calm_enqueueSentPull hp env.now env.send _)
      split
      · exact hconn.trans (calm_giveUp _ _ _ s₁)
      split
      · exact harmed.trans (calm_giveUp _ _ _ _)
      split
      · generalize enqueueSentPull p env.now env.send (armPullTimeout s₁) = r at hsent ⊢
        obtain ⟨s', o⟩ := r
        cases o with
        | accepted => exact hsent
        | refused => exact hsent.trans (calm_giveUp _ _ _ _)
        | threw => exact hsent.trans (calm_giveUp _ _ _ _)
      split
      · split
        · refine harmed.trans ⟨List.Sublist.refl _, ?_, rfl, rfl, rfl, rfl, rfl, rfl, rfl, rfl⟩
          intro hdef q hq
          rcases List.mem_append.1 hq with hq | hq
          · exact hdef q hq
          · rw [List.mem_singleton.1 hq]
            exact hp
        · exact harmed.trans (calm_giveUp _ _ _ _)
      · exact harmed.trans (calm_giveUp _ _ _ _)

theorem calm_pullAsync (hd : ∀ p ∈ s.deferredPulls, p.synchronous = false) (cfg : Config)
    (name : Text) (timeout : Int) (env : AsyncEnv) : Calm s (pullAsync cfg name timeout env s) := by
  have hnew : Calm s { s with
      issued := s.issued + 1
      asyncs := s.asyncs ++ [(s.issued, asyncDeadline env.started timeout)] } :=
    ⟨List.Sublist.refl _, id, rfl, rfl, rfl, rfl, rfl, rfl, rfl, rfl⟩
  unfold pullAsync
  dsimp only
  split
  · exact ⟨List.Sublist.refl _, id, rfl, rfl, rfl, rfl, rfl, rfl, rfl, rfl⟩
  split
  · exact hnew.trans (calm_giveUp _ _ _ _)
  split
  · exact hnew.trans (calm_giveUp _ _ _ _)
  · refine hnew.trans (calm_pullAsyncLocked ?_ cfg env rfl)
    exact hd

theorem calm_pull (hd : ∀ p ∈ s.deferredPulls, p.synchronous = false) (cfg : Config)
    (names : List Text) (sawConnected : Bool) (start : Start) (now : Nat) (o : SendOutcome) :
    Calm s (pull cfg names sawConnected start now o s) := by
  have hnew : Calm s { s with issued := s.issued + 1 } :=
    ⟨List.Sublist.refl _, id, rfl, rfl, rfl, rfl, rfl, rfl, rfl, rfl⟩
  unfold pull
  split
  · exact Calm.refl s
  split
  · exact calm_connect hd cfg start
  split
  · exact Calm.refl s
  split
  · exact hnew.trans (calm_enqueueSentPull rfl now o _)
  · exact Calm.refl s

/-! ## The writers and readers of the slot -/

/-- A synchronous entry belongs to the caller that waits, and it is the only one. -/
theorem SlotOk.owner (h : SlotOk s) (hp : p ∈ s.pendingPulls) (hsync : p.synchronous = true) :
    s.sync = .waiting p.serial ∨ s.sync = .cancelling p.serial true := by
  have hmem : p.serial ∈ s.sync.live :=
    h.live.subset (List.mem_map.2 ⟨p, List.mem_filter.2 ⟨hp, hsync⟩, rfl⟩)
  unfold SyncPhase.live at hmem
  split at hmem
  · rename_i n hn
    rw [List.mem_singleton.1 hmem]
    exact Or.inl hn
  · rename_i n hn
    rw [List.mem_singleton.1 hmem]
    exact Or.inr hn
  · cases hmem

theorem SlotOk.expireDeferred (h : SlotOk s) (now : Nat) : SlotOk (Client.expireDeferred now s) :=
  h.calm ⟨List.Sublist.refl _, fun hd p hp => hd p (List.mem_filter.1 hp).1, rfl, rfl, rfl, rfl, rfl,
    rfl, rfl, rfl⟩

/-- The queue is dropped; its synchronous entry, if there is one, leaves its own verdict. -/
theorem SlotOk.invalidate (h : SlotOk s) (now : Nat) : SlotOk (Client.invalidate now s) := by
  obtain heq | ⟨p, hmem, hp, heq⟩ := invalidate_cases now s
  · rw [heq]
    exact h.calm ⟨List.nil_sublist _, id, rfl, rfl, rfl, rfl, rfl, rfl, rfl, rfl⟩
  · rw [heq]
    have hcode : (if p.deadline ≤ now then errTimeout else errConnect) = errTimeout ∨
        (if p.deadline ≤ now then errTimeout else errConnect) = errConnect := by
      split
      · exact Or.inl rfl
      · exact Or.inr rfl
    refine ⟨h.registration, List.nil_sublist _, ?_, h.deferred, ?_, ?_, h.returned⟩
    · intro q hq
      cases hq
    · intro n hn _
      refine ⟨Or.inl ⟨?_, hcode⟩, rfl⟩
      obtain hw | hw := h.owner hmem hp
      · have hsame := hw.symm.trans hn
        injection hsame with hsame
        rw [hsame]
      · exact absurd (hw.symm.trans hn) (by simp)
    · intro n hn
      obtain hw | hw := h.owner hmem hp
      · exact absurd (hw.symm.trans hn) (by simp)
      · exact absurd (hw.symm.trans hn) (by simp)

theorem SlotOk.expirePulls (h : SlotOk s) (now : Nat) : SlotOk (Client.expirePulls now s) := by
  unfold Client.expirePulls
  dsimp only
  split
  · exact (h.expireDeferred now).invalidate now
  · exact h.expireDeferred now

/-- A reply that goes to a callback or to the watched names leaves the slot alone; one for the
waiting caller fills it. -/
theorem SlotOk.deliver {s : State} (h : SlotOk s) {p : PendingPull} {rest : List PendingPull}
    (hp : s.pendingPulls = p :: rest) (c : Consumption) (hc : c.pull = p.serial) :
    SlotOk (Client.deliver p c { s with pendingPulls := rest }) := by
  have hlog : ∀ x ∈ s.consumed, x ∈ s.consumed ++ [c] := fun x hx => List.mem_append_left _ hx
  have hsub : (rest.filter (·.synchronous)).Sublist (s.pendingPulls.filter (·.synchronous)) := by
    rw [hp]
    exact (List.sublist_cons_self p rest).filter _
  -- what the longer log means for the rest of the record
  have hpub : ∀ n, Published s n → Published { s with
      pendingPulls := rest, consumed := s.consumed ++ [c] } n := by
    intro n hn
    obtain hn | ⟨hw, x, hx, hrest⟩ := hn
    · exact Or.inl hn
    · exact Or.inr ⟨hw, x, hlog x hx, hrest⟩
  have key : SlotOk { s with pendingPulls := rest, consumed := s.consumed ++ [c] } := by
    refine ⟨h.registration, (hsub.map _).trans h.live, ?_, h.deferred, ?_, ?_, ?_⟩
    · intro q hq
      exact h.no_state q (by rw [hp]; exact List.mem_cons_of_mem _ hq)
    · intro n hn hgot
      obtain ⟨hn, hnone⟩ := h.waiting n hn hgot
      exact ⟨hpub n hn, List.sublist_nil.1 (hnone ▸ hsub)⟩
    · intro n hn
      exact hpub n (h.reading n hn)
    · intro r hr
      exact (h.returned r hr).mono hlog
  unfold Client.deliver
  dsimp only
  split
  · exact key.calm (calm_finishPull _ _ _ _)
  split
  · rename_i hsync
    have hmem : p ∈ s.pendingPulls := by
      rw [hp]
      exact List.mem_cons_self
    refine ⟨h.registration, (hsub.map _).trans h.live, key.no_state, h.deferred, ?_, ?_,
      key.returned⟩
    · intro n hn _
      -- the entry was the only synchronous one
      have hlive := h.live
      have hw : s.sync = .waiting n := hn
      rw [hp, List.filter_cons_of_pos hsync, List.map_cons, hw] at hlive
      obtain ⟨hser, hnil⟩ : p.serial = n ∧ rest.filter (·.synchronous) = [] := by
        cases hlive with
        | cons _ hnil => simp at hnil
        | cons_cons _ hnil =>
          refine ⟨rfl, ?_⟩
          exact List.map_eq_nil_iff.1 (List.sublist_nil.1 hnil)
      refine ⟨Or.inr ⟨by rw [hser], c, List.mem_append_right _ (List.mem_singleton_self c),
        hc.trans hser, rfl⟩, hnil⟩
    · intro n hn
      obtain hw | hw := h.owner hmem hsync
      · exact absurd (hw.symm.trans hn) (by simp)
      · exact absurd (hw.symm.trans hn) (by simp)
  split
  · exact key.calm ⟨List.Sublist.refl _, id, rfl, rfl, rfl, rfl, rfl, rfl, rfl, rfl⟩
  · exact key

/-- Replies to registrations and heartbeats: no `Publish` is waiting. -/
theorem SlotOk.otherFrame (h : SlotOk s) (sid k : Nat) {f : Frame}
    (hf : ∀ code list, f ≠ .pullRes code list) (now : Nat) : SlotOk (onFrame sid k f now s) := by
  have hreg := h.registration
  have hflags : ∀ registered lost, SlotOk { s with registered := registered, lost := lost } := by
    intro registered lost
    exact h.calm ⟨List.Sublist.refl _, id, rfl, rfl, rfl, rfl, rfl, rfl, rfl, rfl⟩
  unfold onFrame
  split
  · exact h
  cases f with
  | registerRes code =>
    dsimp only
    split
    · rw [if_neg (by simp [hreg])]
      exact hflags _ _
    split
    · rw [if_neg (by simp [hreg])]
      exact hflags _ _
    · rw [if_neg (by simp [hreg])]
      exact h
  | heartbeatRes code =>
    dsimp only
    split
    · exact hflags _ _
    split
    · exact hflags _ _
    · exact h
  | pullRes code list => exact absurd rfl (hf code list)

/-- A caller in a phase without a live pull moves on. -/
theorem SlotOk.toPhase {s : State} (h : SlotOk s) {phase : SyncPhase} (hlive : s.sync.live = [])
    (hw : ∀ n, phase ≠ .waiting n) (hr : ∀ n, phase ≠ .reading n) :
    SlotOk { s with sync := phase } := by
  refine ⟨h.registration, ?_, h.no_state, h.deferred, ?_, ?_, h.returned⟩
  · have hsub := h.live
    rw [hlive] at hsub
    exact hsub.trans (List.nil_sublist _)
  · intro n hn
    exact absurd hn (hw n)
  · intro n hn
    exact absurd hn (hr n)

theorem SlotOk.syncReturn (h : SlotOk s) (hlive : s.sync.live = []) (n : Nat) (code : Int) :
    SlotOk (Client.syncReturn n code s) := by
  have hidle := @SlotOk.toPhase _ h .idle hlive (by simp) (by simp)
  refine ⟨hidle.registration, hidle.live, hidle.no_state, hidle.deferred, by simp [Client.syncReturn],
    by simp [Client.syncReturn], ?_⟩
  intro r hr
  rcases List.mem_append.1 hr with hr | hr
  · exact h.returned r hr
  · rw [List.mem_singleton.1 hr]
    exact ⟨rfl, rfl⟩

theorem SlotOk.syncEnter (h : SlotOk s) (hidle : s.sync = .idle) (cfg : Config) (name : Text)
    (inPoll sawConnected : Bool) (start : Start) :
    SlotOk (Client.syncEnter cfg name inPoll sawConnected start s) := by
  have h₁ : SlotOk { s with issued := s.issued + 1 } :=
    h.calm ⟨List.Sublist.refl _, id, rfl, rfl, rfl, rfl, rfl, rfl, rfl, rfl⟩
  have hconn := @calm_connect { s with issued := s.issued + 1 } h.deferred cfg start
  have h₂ := h₁.calm hconn
  have hlive : ({ s with issued := s.issued + 1 } : State).sync.live = [] := by
    rw [show ({ s with issued := s.issued + 1 } : State).sync = .idle from hidle]
    rfl
  have hlive₂ : (connect cfg start { s with issued := s.issued + 1 }).1.sync.live = [] := by
    rw [hconn.sync]
    exact hlive
  unfold Client.syncEnter
  dsimp only
  split
  · exact h₁.syncReturn hlive _ _
  split
  · exact h₁
  split
  · exact h₁.toPhase hlive (by simp) (by simp)
  generalize Client.connect cfg start { s with issued := s.issued + 1 } = res at h₂ hlive₂ ⊢
  obtain ⟨s₁, r⟩ := res
  dsimp only at h₂ hlive₂
  match r with
  | none => exact h₂
  | some false => exact h₂.syncReturn hlive₂ _ _
  | some true => exact h₂.toPhase hlive₂ (by simp) (by simp)

/-- The slot is reset and the caller's pull joins the queue as its only synchronous entry. -/
theorem SlotOk.syncSend (h : SlotOk s) {name : Text} (hph : s.sync = .sending n name) (cfg : Config)
    (now : Nat) (o : SendOutcome) : SlotOk (Client.syncSend cfg n name now o s) := by
  have hlive : s.sync.live = [] := by
    rw [hph]
    rfl
  have hnone : s.pendingPulls.filter (·.synchronous) = [] := by
    have hsub := h.live
    rw [hlive] at hsub
    exact List.map_eq_nil_iff.1 (List.sublist_nil.1 hsub)
  have hreset : SlotOk { s with got := false, code := errFail, writer := .caller } := by
    refine ⟨h.registration, h.live, h.no_state, h.deferred, ?_, ?_, h.returned⟩
    · intro m hm
      exact absurd (hph.symm.trans hm) (by simp)
    · intro m hm
      exact absurd (hph.symm.trans hm) (by simp)
  unfold Client.syncSend
  split
  · exact h.toPhase hlive (by simp) (by simp)
  · exact h.syncReturn hlive _ _
  dsimp only
  obtain ⟨sid, -, heq⟩ | ⟨r, hr, heq⟩ := enqueueSentPull_cases ⟨n, true, 0, [name], none⟩ now o
    { s with got := false, code := errFail, writer := .caller }
  · rw [heq]
    refine ⟨h.registration, ?_, ?_, h.deferred, ?_, ?_, h.returned⟩
    · rw [List.filter_append, hnone, List.nil_append, List.filter_singleton]
      simp [SyncPhase.live]
    · intro q hq hsync
      rcases List.mem_append.1 hq with hq | hq
      · exact h.no_state q hq hsync
      · rw [List.mem_singleton.1 hq, PendingPull.stamped_state]
    · intro m _ hgot
      cases hgot
    · intro m hm
      cases hm
  · rw [heq]
    have harmed : SlotOk (armPullTimeout { s with
        got := false, code := errFail, writer := .caller }) :=
      hreset.calm ⟨List.Sublist.refl _, id, rfl, rfl, rfl, rfl, rfl, rfl, rfl, rfl⟩
    cases r with
    | accepted => exact absurd rfl hr
    | refused => exact harmed.toPhase hlive (by simp) (by simp)
    | threw => exact harmed.toPhase hlive (by simp) (by simp)

/-- With the flag up the slot holds the caller's outcome; without it the caller withdraws. -/
theorem SlotOk.syncWaitEnds (h : SlotOk s) (hph : s.sync = .waiting n) :
    SlotOk (Client.syncWaitEnds n s) := by
  have hlive := h.live
  rw [hph] at hlive
  unfold Client.syncWaitEnds
  cases hgot : s.got with
  | true =>
    obtain ⟨hpub, hnone⟩ := h.waiting n hph hgot
    refine ⟨h.registration, ?_, h.no_state, h.deferred, ?_, ?_, h.returned⟩
    · rw [hnone]
      exact List.nil_sublist _
    · intro m hm
      cases hm
    · intro m hm
      cases hm
      exact hpub
  | false =>
    refine ⟨h.registration, hlive, h.no_state, h.deferred, ?_, ?_, h.returned⟩
    · intro m hm
      cases hm
    · intro m hm
      cases hm

/-- With at most one synchronous entry, clearing the first clears them all. -/
theorem filter_clearSynchronous : ∀ {ps : List PendingPull},
    (ps.filter (·.synchronous)).length ≤ 1 → (clearSynchronous ps).filter (·.synchronous) = []
  | [], _ => rfl
  | p :: ps, h => by
      unfold clearSynchronous
      split
      · rename_i hp
        rw [List.filter_cons_of_pos hp, List.length_cons] at h
        have hnil : ps.filter (·.synchronous) = [] := 
          List.length_eq_zero_iff.1 (Nat.le_zero.1 (Nat.le_of_succ_le_succ h))
        rw [List.filter_cons_of_neg (by simp), hnil]
      · rename_i hp
        rw [List.filter_cons_of_neg hp] at h ⊢
        exact filter_clearSynchronous h

theorem SlotOk.syncCancel (h : SlotOk s) {sent : Bool} (hph : s.sync = .cancelling n sent) :
    SlotOk (Client.syncCancel n sent s) := by
  have hlen : (s.pendingPulls.filter (·.synchronous)).length ≤ 1 := by
    have hle := h.live.length_le
    rw [hph, List.length_map] at hle
    cases sent with
    | true => exact hle
    | false => exact Nat.le_succ_of_le hle
  have hnone := filter_clearSynchronous hlen
  refine ⟨h.registration, ?_, ?_, h.deferred, ?_, ?_, h.returned⟩
  · show (((clearSynchronous s.pendingPulls).filter (·.synchronous)).map (·.serial)).Sublist _
    rw [hnone]
    exact List.nil_sublist _
  · intro p hp hsync
    have hmem : p ∈ (clearSynchronous s.pendingPulls).filter (·.synchronous) :=
      List.mem_filter.2 ⟨hp, hsync⟩
    rw [hnone] at hmem
    cases hmem
  · intro m hm
    cases hm
  · intro m hm
    cases hm

theorem expirePulls_sync (now : Nat) (s : State) : (Client.expirePulls now s).sync = s.sync := by
  unfold Client.expirePulls
  dsimp only
  split
  · obtain heq | ⟨p, -, -, heq⟩ := invalidate_cases now (Client.expireDeferred now s)
    · rw [heq]
      rfl
    · rw [heq]
      rfl
  · rfl

theorem SlotOk.syncRead (h : SlotOk s) (hph : s.sync = .reading n) :
    SlotOk (Client.syncRead n s) := by
  have hpub := h.reading n hph
  have hlive : s.sync.live = [] := by
    rw [hph]
    rfl
  have hidle := @SlotOk.toPhase _ h .idle hlive (by simp) (by simp)
  refine ⟨hidle.registration, hidle.live, hidle.no_state, hidle.deferred, by simp [Client.syncRead],
    by simp [Client.syncRead], ?_⟩
  intro r hr
  rcases List.mem_append.1 hr with hr | hr
  · exact h.returned r hr
  · rw [List.mem_singleton.1 hr]
    unfold SyncReturn.Own
    dsimp only
    obtain ⟨hw, hcode⟩ | ⟨hw, c, hc, hcn, hres⟩ := hpub
    · rw [hw]
      refine ⟨rfl, ?_⟩
      rcases hcode with hcode | hcode <;> simp [hcode]
    · rw [hw]
      refine ⟨rfl, c, hc, hcn, ?_, ?_⟩
      · rw [hres]
      · rw [hres]

/-! ## Runs -/

/-- Both halves of the invariant. -/
structure Coherent (s : State) : Prop where
  aligned : Aligned s
  slot : SlotOk s

theorem Coherent.calm (h : Coherent s) (ha : Aligned s') (hc : Calm s s') : Coherent s' :=
  ⟨ha, h.slot.calm hc⟩

/-- A pull's reply on the current session finds its own pull at the front of the queue. -/
theorem Aligned.front (h : Aligned s) (hsid : s.sessionId = some sid) (howes : (s.line sid).Owes) :
    ∃ p rest, s.pendingPulls = p :: rest ∧
      (s.line sid).sent[(s.line sid).answered]? = some p.serial := by
  obtain ⟨n, ns, hout, hget⟩ := howes.exists_outstanding
  have hqueue := h.queue sid hsid
  rw [hout] at hqueue
  obtain ⟨p, rest, hp, rfl, -⟩ := List.map_eq_cons_iff.1 hqueue
  exact ⟨p, rest, hp, hget⟩

theorem Coherent.pullRes (h : Coherent s) (howes : (s.line sid).Owes) (code : Int)
    (list : List Instance) (now : Nat) :
    Coherent (onFrame sid (s.line sid).answered (.pullRes code list) now
      { s with sessions := s.sessions.modify sid (·.answer) }) := by
  have hanswered : SlotOk { s with sessions := s.sessions.modify sid (·.answer) } :=
    h.slot.calm ⟨List.Sublist.refl _, id, rfl, rfl, rfl, rfl, rfl, rfl, rfl, rfl⟩
  unfold onFrame
  split
  · rename_i hsid
    exact ⟨h.aligned.answerElsewhere hsid howes, hanswered⟩
  · rename_i hsid
    have hsid : s.sessionId = some sid := not_not.1 hsid
    obtain ⟨p, rest, hp, -⟩ := h.aligned.front hsid howes
    rw [show ({ s with sessions := s.sessions.modify sid (·.answer) } : State).pendingPulls =
      p :: rest from hp]
    exact ⟨h.aligned.deliver hsid howes hp _ rfl rfl rfl, hanswered.deliver hp _ rfl⟩

theorem Aligned.otherFrame (h : Aligned s) (sid k : Nat) {f : Frame}
    (hf : ∀ code list, f ≠ .pullRes code list) (now : Nat) : Aligned (onFrame sid k f now s) := by
  unfold onFrame
  split
  · exact h
  cases f with
  | registerRes code =>
    dsimp only
    split <;> split
    · exact h.of_eq rfl rfl rfl rfl
    · exact h.of_eq rfl rfl rfl rfl
    · split <;> exact h.of_eq rfl rfl rfl rfl
    · split <;> exact h.of_eq rfl rfl rfl rfl
  | heartbeatRes code =>
    dsimp only
    split
    · exact h.of_eq rfl rfl rfl rfl
    split
    · exact h.of_eq rfl rfl rfl rfl
    · exact h
  | pullRes code list => exact absurd rfl (hf code list)

theorem Aligned.syncEnter (h : Aligned s) (cfg : Config) (name : Text) (inPoll sawConnected : Bool)
    (start : Start) : Aligned (Client.syncEnter cfg name inPoll sawConnected start s) := by
  have h₁ : Aligned { s with issued := s.issued + 1 } := h.of_eq rfl rfl rfl rfl
  have h₂ := h₁.connect cfg start
  unfold Client.syncEnter
  dsimp only
  split
  · exact h₁.of_eq rfl rfl rfl rfl
  split
  · exact h₁
  split
  · exact h₁.of_eq rfl rfl rfl rfl
  generalize Client.connect cfg start { s with issued := s.issued + 1 } = res at h₂ ⊢
  obtain ⟨s₁, r⟩ := res
  match r with
  | none => exact h₂
  | some false => exact h₂.of_eq rfl rfl rfl rfl
  | some true => exact h₂.of_eq rfl rfl rfl rfl

theorem Aligned.syncSend (h : Aligned s) (cfg : Config) (n : Nat) (name : Text) (now : Nat)
    (o : SendOutcome) : Aligned (Client.syncSend cfg n name now o s) := by
  have hreset : Aligned { s with got := false, code := errFail, writer := .caller } :=
    h.of_eq rfl rfl rfl rfl
  have hsent := hreset.enqueueSentPull ⟨n, true, 0, [name], none⟩ now o
  unfold Client.syncSend
  split
  · exact h.of_eq rfl rfl rfl rfl
  · exact h.of_eq rfl rfl rfl rfl
  dsimp only
  generalize Client.enqueueSentPull ⟨n, true, 0, [name], none⟩ now o
    { s with got := false, code := errFail, writer := .caller } = res at hsent ⊢
  obtain ⟨s₁, r⟩ := res
  cases r with
  | accepted => exact hsent.of_eq rfl rfl rfl rfl
  | refused => exact hsent.of_eq rfl rfl rfl rfl
  | threw => exact hsent.of_eq rfl rfl rfl rfl

theorem Coherent.step {cfg : Config} {e : Event} (h : Coherent s)
    (hs : Client.step cfg s e = some s') : Coherent s' := by
  have ha := h.aligned
  have hd := h.slot.deferred
  cases stepped hs with
  | pullAsync name timeout env =>
    exact h.calm (ha.pullAsync cfg name timeout env) (calm_pullAsync hd cfg name timeout env)
  | pull names sawConnected start now o =>
    exact h.calm (ha.pull cfg names sawConnected start now o)
      (calm_pull hd cfg names sawConnected start now o)
  | syncEnter name inPoll sawConnected start hph =>
    exact ⟨ha.syncEnter cfg name inPoll sawConnected start,
      h.slot.syncEnter hph cfg name inPoll sawConnected start⟩
  | syncEnsured n name hph =>
    have hlive : s.sync.live = [] := by
      rw [hph]
      rfl
    unfold Client.syncEnsured
    split
    · exact ⟨ha.of_eq rfl rfl rfl rfl, h.slot.toPhase hlive (by simp) (by simp)⟩
    · exact ⟨ha.of_eq rfl rfl rfl rfl, h.slot.syncReturn hlive n errFail⟩
  | syncSend n name now o hph =>
    exact ⟨ha.syncSend cfg n name now o, h.slot.syncSend hph cfg now o⟩
  | syncWaitEnds n hph => exact ⟨ha.of_eq rfl rfl rfl rfl, h.slot.syncWaitEnds hph⟩
  | syncCancel n sent hph =>
    exact ⟨ha.of_eq rfl (clearSynchronous_map (fun _ => rfl) _) rfl rfl, h.slot.syncCancel hph⟩
  | syncExpire n sent now hph =>
    have hlive : (Client.expirePulls now s).sync.live = [] := by
      rw [expirePulls_sync, hph]
      rfl
    exact ⟨(ha.expirePulls now).of_eq rfl rfl rfl rfl,
      (h.slot.expirePulls now).syncReturn hlive n _⟩
  | syncRead n hph => exact ⟨ha.of_eq rfl rfl rfl rfl, h.slot.syncRead hph⟩
  | expirePulls now => exact ⟨ha.expirePulls now, h.slot.expirePulls now⟩
  | onAddSession attempts => exact h.calm (ha.onAddSession attempts) (calm_onAddSession hd attempts)
  | onDelSession sid => exact h.calm (ha.onDelSession sid) (calm_onDelSession sid s)
  | onConnectFailed => exact h.calm (ha.of_eq rfl rfl rfl rfl) (calm_onConnectFailed s)
  | registerRes sid code now | heartbeatRes sid code now =>
    exact ⟨ha.otherFrame sid 0 (by simp) now, h.slot.otherFrame sid 0 (by simp) now⟩
  | pullRes sid code list now howes => exact h.pullRes howes code list now
  | finish i t now ht =>
    have herased : Aligned { s with finishing := s.finishing.eraseIdx i } :=
      ha.of_eq rfl rfl rfl rfl
    have hcalm : Calm s { s with finishing := s.finishing.eraseIdx i } :=
      ⟨List.Sublist.refl _, id, rfl, rfl, rfl, rfl, rfl, rfl, rfl, rfl⟩
    exact h.calm (herased.finishPull _ _ _) (hcalm.trans (calm_finishPull _ _ _ _))

/-- Each reply is paired with the pull at its position. -/
structure RepliesPaired (s : State) : Prop where
  /-- A reply that was handed out went to the pull sent at the same position of its session. -/
  consumed : ∀ c ∈ s.consumed, (s.line c.session).sent[c.reply]? = some c.pull
  /-- No reply was handed out twice. -/
  once : (s.consumed.map fun c => (c.session, c.reply)).Nodup
  /-- The next reply of the current session is handed to the pull it answers: to its callback, to
  its synchronous waiter or to its watched names. -/
  next : ∀ sid code list now, s.sessionId = some sid → (s.line sid).Owes → ∃ p rest,
    s.pendingPulls = p :: rest ∧ (s.line sid).sent[(s.line sid).answered]? = some p.serial ∧
    onFrame sid (s.line sid).answered (.pullRes code list) now s =
      deliver p ⟨sid, (s.line sid).answered, p.serial, code, list, decide (p.deadline ≤ now)⟩
        { s with pendingPulls := rest }
  /-- A frame of any other session changes nothing. -/
  elsewhere : ∀ sid k f now, s.sessionId ≠ some sid → onFrame sid k f now s = s
  /-- `PullSync` returns nothing that belongs to another pull. -/
  returned : ∀ r ∈ s.returned, r.Own s.consumed

/-- **Replies are paired with their own pull.**  With a registry that answers the pulls of a session
in the order they were sent, this holds after every run of the client's operations. -/
theorem replies_paired (cfg : Config) {es : List Event} {s : State}
    (hrun : runFrom (step cfg) {} es = some s) : RepliesPaired s := by
  have h : Coherent s :=
    runFrom_invariant (fun _ _ _ hI hs => hI.step hs) ⟨aligned_init, slotOk_init⟩ hrun
  refine ⟨h.aligned.paired, h.aligned.nodup, ?_, ?_, h.slot.returned⟩
  · intro sid code list now hsid howes
    obtain ⟨p, rest, hp, hget⟩ := h.aligned.front hsid howes
    refine ⟨p, rest, hp, hget, ?_⟩
    unfold onFrame
    rw [if_neg (not_not.2 hsid)]
    dsimp only
    rw [hp]
  · intro sid k f now hsid
    unfold onFrame
    rw [if_pos hsid]

/-- A first `PullSync` times out; its reply comes after the second one has been sent. -/
def lateReply : List Event :=
  [.onAddSession [], .pullSync ['a'] false true {}, .syncSend 10 .accepted, .syncWaitEnds,
    .syncCancel, .syncExpire 900, .pullSync ['b'] false true {}, .syncSend 901 .accepted,
    .onFrame 0 (.pullRes 0 [⟨['a'], 1, [], [], []⟩]) 905,
    .onFrame 0 (.pullRes 0 [⟨['b'], 2, [], [], []⟩]) 906, .syncWaitEnds, .syncRead]

/-- The second `PullSync` returns the second reply. -/
theorem replies_paired_lateReply :
    ∃ s, runFrom (step {}) {} lateReply = some s ∧ RepliesPaired s ∧
      s.returned = [⟨0, false, errTimeout, [], .caller⟩,
        ⟨1, true, 0, [⟨['b'], 2, [], [], []⟩], .reply 1⟩] := by
  have hend : (runFrom (step {}) {} lateReply).map (·.returned) =
      some [⟨0, false, errTimeout, [], .caller⟩,
        ⟨1, true, 0, [⟨['b'], 2, [], [], []⟩], .reply 1⟩] := by
    decide +kernel
  obtain ⟨s, hs, hret⟩ := Option.map_eq_some_iff.1 hend
  exact ⟨s, hs, replies_paired {} hs, hret⟩

end OpenIdea.Registry.Client
