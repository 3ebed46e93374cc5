import OpenIdea.Redis.ClientCalls

/-!
# The Redis client hands each reply to its own command

Replies carry no number.  The client relies on `m_vWait` being the commands of the current session
that have no reply yet, in the order they were sent: `Aligned` says so, and that the reader holds
the front part of the replies that are still to be parsed.  `Paired` is what follows for the replies
that have been handed out.

Main result: `replies_to_own_commands`.
-/

set_option autoImplicit false

namespace OpenIdea.Redis.Client

open OpenIdea.Lib OpenIdea.Lib.Runs

variable {ρ : Type}

/-! ## Sessions -/

section Modify

variable (s : State ρ) (f : Session ρ → Session ρ)

theorem session_modify_ne {sid m : Nat} (h : m ≠ sid) :
    ({ s with sessions := s.sessions.modify sid f } : State ρ).session m = s.session m := by
  simp only [State.session, List.getD_eq_getElem?_getD, List.getElem?_modify]
  simp [Ne.symm h]

theorem session_modify_self {sid : Nat} (h : sid < s.sessions.length) :
    ({ s with sessions := s.sessions.modify sid f } : State ρ).session sid = f (s.session sid) := by
  simp only [State.session, List.getD_eq_getElem?_getD, List.getElem?_modify]
  simp [List.getElem?_eq_getElem h]

/-- A session that does not exist is not changed. -/
theorem session_modify_unknown {sid : Nat} (h : ¬ sid < s.sessions.length) (m : Nat) :
    ({ s with sessions := s.sessions.modify sid f } : State ρ).session m = s.session m := by
  simp only [State.session]
  rw [List.modify_eq_self (Nat.le_of_not_lt h)]

/-- What the change keeps is kept everywhere. -/
theorem session_modify {β : Type} {g : Session ρ → β} (hg : ∀ v, g (f v) = g v) (sid m : Nat) :
    g (({ s with sessions := s.sessions.modify sid f } : State ρ).session m) = g (s.session m) := by
  by_cases hlt : sid < s.sessions.length
  · by_cases hm : m = sid
    · subst hm
      rw [session_modify_self s f hlt, hg]
    · rw [session_modify_ne s f hm]
  · rw [session_modify_unknown s f hlt]

end Modify

variable {s s' : State ρ} {n sid : Nat} {cfg : Config ρ}

theorem session_unknown (h : ¬ sid < s.sessions.length) : s.session sid = {} := by
  unfold State.session
  rw [List.getD_eq_getElem?_getD, List.getElem?_eq_none (Nat.le_of_not_lt h)]
  rfl

/-- The server has not given more replies than it got commands, nor has the client parsed more. -/
structure SessionOk (v : Session ρ) : Prop where
  received : v.line.answered ≤ v.replies.length
  given : v.replies.length ≤ v.line.sent.length

theorem sessionOk_empty : SessionOk ({} : Session ρ) := ⟨Nat.le_refl 0, Nat.le_refl 0⟩

theorem SessionOk.sound {v : Session ρ} (h : SessionOk v) : v.line.Sound :=
  Nat.le_trans h.received h.given

/-! ## The current session -/

/-- What follows the running operation. -/
def Loop.after : Loop → After
  | .failing _ _ after => after
  | .failed _ _ _ after => after
  | _ => .nothing

/-- The session whose bytes are being read. -/
def Loop.feeds : Loop → Option Nat
  | .feeding sid => some sid
  | .answered _ sid => some sid
  | _ => none

/-- The queue and the reader are those of the session. -/
structure Reading (cfg : Config ρ) (s : State ρ) (sid : Nat) : Prop where
  known : sid < s.sessions.length
  wait : s.wait = (s.session sid).line.outstanding
  held : ∃ held, s.reader = some ⟨held, false⟩ ∧ held ++ (s.session sid).wire =
    cfg.hiredis.stream ((s.session sid).replies.drop (s.session sid).line.answered)

/-- The queue follows the current session.  While everything is being dropped, it is empty. -/
structure Aligned (cfg : Config ρ) (s : State ρ) : Prop where
  sessions : ∀ sid, SessionOk (s.session sid)
  waiting : ∀ n ∈ s.wait, ∃ sid, s.readerSid = some sid ∧ (s.call n).sessionId = some sid
  reading : s.loop.after = .nothing → ∀ sid, s.readerSid = some sid → Reading cfg s sid
  dropping : s.loop.after ≠ .nothing → s.wait = []
  /-- The reader meets no error. -/
  no_error : s.loop.after ≠ .closeSession
  fresh : ∀ sid, s.loop.after = .connected sid → sid < s.sessions.length ∧ s.session sid = {}
  feeding : ∀ sid, s.loop.feeds = some sid → s.readerSid = some sid

/-- The replies that have been handed out are those of the commands they were handed to. -/
structure Paired (s : State ρ) : Prop where
  order : ∀ sid, (s.consumed.filter fun c => c.session = sid).map (·.index) =
    List.range (s.session sid).line.answered
  own : ∀ c ∈ s.consumed, (s.session c.session).line.sent[c.index]? = some c.call ∧
    (s.session c.session).replies[c.index]? = some c.reply
  delivered : ∀ t ∈ s.ledger.settled, ∀ x, t.reply = some x →
    ∃ c ∈ s.consumed, c.call = t.call ∧ c.reply = x

/-- A call is sent once at most. -/
structure SentOnce (s : State ρ) : Prop where
  submitted : ∀ sid, ∀ n ∈ (s.session sid).line.sent, (s.call n).submitted = true
  once : ∀ {sid sid' k k' n : Nat}, (s.session sid).line.sent[k]? = some n →
    (s.session sid').line.sent[k']? = some n → sid = sid' ∧ k = k'

/-- All of it. -/
structure Coherent (cfg : Config ρ) (s : State ρ) : Prop where
  aligned : Aligned cfg s
  paired : Paired s
  sent : SentOnce s

theorem coherent_init (cfg : Config ρ) : Coherent cfg {} where
  aligned :=
    { sessions := fun _ => sessionOk_empty
      waiting := fun _ hn => absurd hn List.not_mem_nil
      reading := fun _ _ hsid => by cases hsid
      dropping := fun _ => rfl
      no_error := by
        intro h
        cases h
      fresh := fun _ hsid => by cases hsid
      feeding := fun _ hsid => by cases hsid }
  paired :=
    { order := fun _ => rfl
      own := fun _ hc => absurd hc List.not_mem_nil
      delivered := fun _ ht => absurd ht List.not_mem_nil }
  sent :=
    { submitted := fun _ _ hn => absurd hn List.not_mem_nil
      once := fun hk _ => by cases hk }

/-! ## Steps that leave the session alone -/

/-- The queue, the reader and the sessions stay, and no call gets a reply. -/
structure Calm (s s' : State ρ) : Prop where
  readerSid : s'.readerSid = s.readerSid
  reader : s'.reader = s.reader
  wait : s'.wait = s.wait
  sessions : s'.sessions = s.sessions
  consumed : s'.consumed = s.consumed
  sessionId : ∀ n ∈ s.wait, (s'.call n).sessionId = (s.call n).sessionId
  submitted : ∀ n, (s.call n).submitted = true → (s'.call n).submitted = true
  settled : ∀ t ∈ s'.ledger.settled, t ∈ s.ledger.settled ∨ t.reply = none

namespace Calm

variable {t u : State ρ}

theorem refl (s : State ρ) : Calm s s :=
  ⟨rfl, rfl, rfl, rfl, rfl, fun _ _ => rfl, fun _ => id, fun _ => Or.inl⟩

theorem trans (h : Calm s t) (h' : Calm t u) : Calm s u where
  readerSid := h'.readerSid.trans h.readerSid
  reader := h'.reader.trans h.reader
  wait := h'.wait.trans h.wait
  sessions := h'.sessions.trans h.sessions
  consumed := h'.consumed.trans h.consumed
  sessionId := fun n hn => (h'.sessionId n (h.wait ▸ hn)).trans (h.sessionId n hn)
  submitted := fun n hn => h'.submitted n (h.submitted n hn)
  settled := by
    intro x hx
    rcases h'.settled x hx with hx | hx
    · exact h.settled x hx
    · exact Or.inr hx

theorem session (h : Calm s t) (sid : Nat) : t.session sid = s.session sid := by
  unfold State.session
  rw [h.sessions]

end Calm

theorem calm_set {c : Call ρ} (hsid : c.sessionId = (s.call n).sessionId)
    (hsub : c.submitted = (s.call n).submitted) : Calm s { s with ledger := s.ledger.set n c } := by
  refine ⟨rfl, rfl, rfl, rfl, rfl, ?_, ?_, fun _ => Or.inl⟩
  · intro m _
    by_cases hm : m = n
    · subst hm
      simp only [State.call, Ledger.set_calls_self]
      exact hsid
    · simp only [State.call, Ledger.set_calls_ne hm]
  · intro m hsubm
    by_cases hm : m = n
    · subst hm
      simp only [State.call, Ledger.set_calls_self]
      exact hsub.trans hsubm
    · simp only [State.call, Ledger.set_calls_ne hm]
      exact hsubm

theorem settle_call_keeps (n : Nat) (x : Option ρ) (status : Status) (s : State ρ) (m : Nat) :
    ((settle n x status s).call m).sessionId = (s.call m).sessionId ∧
    ((settle n x status s).call m).submitted = (s.call m).submitted := by
  show ((s.ledger.settle n x status).calls m).sessionId = (s.ledger.calls m).sessionId ∧
    ((s.ledger.settle n x status).calls m).submitted = (s.ledger.calls m).submitted
  by_cases hm : m = n
  · subst hm
    rcases Ledger.settle_calls_self s.ledger m x status with h | h
    · rw [h]
      exact ⟨rfl, rfl⟩
    · rw [h]
      exact ⟨rfl, rfl⟩
  · rw [Ledger.settle_calls_ne hm]
    exact ⟨rfl, rfl⟩

theorem calm_settle (n : Nat) (status : Status) (s : State ρ) : Calm s (settle n none status s) := by
  have hself := settle_call_keeps n none status s
  exact ⟨rfl, rfl, rfl, rfl, rfl, fun m _ => (hself m).1, fun m h => (hself m).2.trans h,
    fun _ => Ledger.mem_settle_none⟩

theorem calm_release (n : Nat) (s : State ρ) : Calm s (release n s) := by
  have hself : ∀ m, ((release n s).call m).sessionId = (s.call m).sessionId ∧
      ((release n s).call m).submitted = (s.call m).submitted := by
    intro m
    by_cases hm : m = n
    · subst hm
      show ((s.ledger.release m).calls m).sessionId = _ ∧
        ((s.ledger.release m).calls m).submitted = _
      obtain ⟨r, f, h⟩ := Ledger.release_calls_self s.ledger m
      rw [h]
      exact ⟨rfl, rfl⟩
    · have h := Ledger.release_calls_ne (l := s.ledger) hm
      exact ⟨congrArg Call.sessionId h, congrArg Call.submitted h⟩
  refine ⟨rfl, rfl, rfl, rfl, rfl, fun m _ => (hself m).1, fun m h => (hself m).2.trans h, ?_⟩
  intro t ht
  have ht : t ∈ (s.ledger.release n).settled := ht
  rw [Ledger.release_settled] at ht
  exact Or.inl ht

/-- The changes of other fields do not matter. -/
theorem Calm.of_eq {t u : State ρ} (h : Calm s t) (hr : u.readerSid = t.readerSid)
    (hd : u.reader = t.reader) (hw : u.wait = t.wait) (hs : u.sessions = t.sessions)
    (hc : u.consumed = t.consumed) (hl : u.ledger = t.ledger) : Calm s u := by
  apply h.trans
  have hcall : u.call = t.call := by
    unfold State.call
    rw [hl]
  refine ⟨hr, hd, hw, hs, hc, ?_, ?_, ?_⟩
  · intro n _
    rw [hcall]
  · intro n hn
    rw [hcall]
    exact hn
  · intro x hx
    rw [hl] at hx
    exact Or.inl hx

theorem Aligned.calm (h : Aligned cfg s) (hc : Calm s s') (ha : s'.loop.after = s.loop.after)
    (hf : ∀ sid, s'.loop.feeds = some sid →
      s.loop.feeds = some sid) : Aligned cfg s' where
  sessions := fun sid => hc.session sid ▸ h.sessions sid
  waiting := by
    intro n hn
    rw [hc.wait] at hn
    obtain ⟨sid, hr, hs⟩ := h.waiting n hn
    exact ⟨sid, hc.readerSid.trans hr, (hc.sessionId n hn).trans hs⟩
  reading := by
    intro hafter sid hsid
    have hread := h.reading (ha.symm.trans hafter) sid (hc.readerSid.symm.trans hsid)
    refine ⟨?_, ?_, ?_⟩
    · rw [hc.sessions]
      exact hread.known
    · rw [hc.wait, hc.session]
      exact hread.wait
    · rw [hc.reader, hc.session]
      exact hread.held
  dropping := by
    intro hafter
    rw [hc.wait]
    exact h.dropping (fun hn => hafter (ha.trans hn))
  no_error := by
    rw [ha]
    exact h.no_error
  fresh := by
    intro sid hafter
    rw [hc.sessions, hc.session]
    exact h.fresh sid (ha.symm.trans hafter)
  feeding := fun sid hsid => hc.readerSid.trans (h.feeding sid (hf sid hsid))

theorem Paired.calm (h : Paired s) (hc : Calm s s') : Paired s' where
  order := by
    intro sid
    rw [hc.consumed, hc.session]
    exact h.order sid
  own := by
    intro c hmem
    rw [hc.consumed] at hmem
    rw [hc.session]
    exact h.own c hmem
  delivered := by
    intro t ht x hx
    rw [hc.consumed]
    rcases hc.settled t ht with ht | hnone
    · exact h.delivered t ht x hx
    · rw [hnone] at hx
      cases hx

theorem SentOnce.calm (h : SentOnce s) (hc : Calm s s') : SentOnce s' where
  submitted := by
    intro sid n hn
    rw [hc.session] at hn
    exact hc.submitted n (h.submitted sid n hn)
  once := by
    intro sid sid' k k' n hk hk'
    rw [hc.session] at hk hk'
    exact h.once hk hk'

theorem Coherent.calm (h : Coherent cfg s) (hc : Calm s s') (ha : s'.loop.after = s.loop.after)
    (hf : ∀ sid, s'.loop.feeds = some sid →
      s.loop.feeds = some sid) : Coherent cfg s' :=
  ⟨h.aligned.calm hc ha hf, h.paired.calm hc, h.sent.calm hc⟩

/-! ## Sending -/

theorem calm_unsent (h : Unsent n s s') (hn : n ∉ s.wait) (hsub : (s'.call n).submitted = true) :
    Calm s s' := by
  have hfr := h.frame
  refine ⟨by rw [hfr], by rw [hfr], by rw [hfr], by rw [hfr], by rw [hfr], ?_, ?_, h.settled⟩
  · intro m hm
    have hmn : m ≠ n := by
      rintro rfl
      exact hn hm
    rw [h.others m hmn]
  · intro m hm
    by_cases hmn : m = n
    · rw [hmn]
      exact hsub
    · rw [h.others m hmn]
      exact hm

section Sent

variable {now : Nat}

theorem Sent.session_self (hs : Sent cfg n now sid s s') (hlt : sid < s.sessions.length) :
    s'.session sid = { s.session sid with line := (s.session sid).line.send n } := by
  rw [hs.frame]
  exact session_modify_self s (fun v => { v with line := v.line.send n }) hlt

theorem Sent.session_ne (hs : Sent cfg n now sid s s') {m : Nat} (hm : m ≠ sid) :
    s'.session m = s.session m := by
  rw [hs.frame]
  exact session_modify_ne s (fun v => { v with line := v.line.send n }) hm

/-- A command that was there keeps its place. -/
theorem Sent.getElem? (hs : Sent cfg n now sid s s') (hlt : sid < s.sessions.length) {m k x : Nat}
    (hk : (s.session m).line.sent[k]? = some x) : (s'.session m).line.sent[k]? = some x := by
  by_cases hm : m = sid
  · subst hm
    rw [hs.session_self hlt]
    exact Line.getElem?_send hk
  · rw [hs.session_ne hm]
    exact hk

/-- A command of the session was there, or is the one that was sent. -/
theorem Sent.sent_cases (hs : Sent cfg n now sid s s') (hlt : sid < s.sessions.length) {m k x : Nat}
    (hk : (s'.session m).line.sent[k]? = some x) :
    (s.session m).line.sent[k]? = some x ∨
    (x = n ∧ m = sid ∧ k = (s.session sid).line.sent.length) := by
  by_cases hm : m = sid
  · subst hm
    rw [hs.session_self hlt] at hk
    have hk : ((s.session m).line.sent ++ [n])[k]? = some x := hk
    by_cases hkl : k < (s.session m).line.sent.length
    · rw [List.getElem?_append_left hkl] at hk
      exact Or.inl hk
    · rw [List.getElem?_append_right (Nat.le_of_not_lt hkl)] at hk
      have hz : k - (s.session m).line.sent.length = 0 := by
        have hlast := (List.getElem?_eq_some_iff.1 hk).1
        rw [List.length_singleton] at hlast
        omega
      rw [hz] at hk
      refine Or.inr ⟨(Option.some.inj hk).symm, rfl, ?_⟩
      omega
  · rw [hs.session_ne hm] at hk
    exact Or.inl hk

theorem Sent.aligned (hs : Sent cfg n now sid s s') (h : Aligned cfg s)
    (hafter : s.loop.after = .nothing) (hn : n ∉ s.wait) :
    Aligned cfg { s' with loop := .submitting n } := by
  have hread := h.reading hafter sid hs.reader
  have hself := hs.session_self hread.known
  have hfr := hs.frame
  have hreader : s'.readerSid = some sid := by
    rw [hfr]
    exact hs.reader
  have hwait : s'.wait = s.wait ++ [n] := by
    rw [hfr]
  refine ⟨?_, ?_, ?_, ?_, ?_, ?_, ?_⟩
  · intro m
    show SessionOk (s'.session m)
    by_cases hm : m = sid
    · subst hm
      rw [hself]
      have hok := h.sessions m
      refine ⟨hok.received, Nat.le_trans hok.given ?_⟩
      show _ ≤ ((s.session m).line.sent ++ [n]).length
      rw [List.length_append]
      exact Nat.le_add_right _ _
    · rw [hs.session_ne hm]
      exact h.sessions m
  · intro m hm
    have hm : m ∈ s'.wait := hm
    refine ⟨sid, hreader, ?_⟩
    show (s'.call m).sessionId = some sid
    rw [hwait] at hm
    rcases List.mem_append.1 hm with hold | hlast
    · have hmn : m ≠ n := by
        rintro rfl
        exact hn hold
      obtain ⟨sid', hr, hsid'⟩ := h.waiting m hold
      rw [hs.others m hmn, hsid', ← hr, hs.reader]
    · rw [List.mem_singleton.1 hlast]
      exact hs.session
  · intro _ m hm
    have hm : s'.readerSid = some m := hm
    obtain rfl : sid = m := Option.some.inj (hreader.symm.trans hm)
    refine ⟨?_, ?_, ?_⟩
    · show sid < s'.sessions.length
      rw [hfr]
      show sid < (s.sessions.modify sid _).length
      rw [List.length_modify]
      exact hread.known
    · show s'.wait = (s'.session sid).line.outstanding
      rw [hwait, hself, hread.wait]
      exact ((h.sessions sid).sound.outstanding_send n).symm
    · show ∃ held, s'.reader = _ ∧ held ++ (s'.session sid).wire =
        cfg.hiredis.stream ((s'.session sid).replies.drop (s'.session sid).line.answered)
      rw [hself, show s'.reader = s.reader by rw [hfr]]
      exact hread.held
  · exact fun hne => absurd rfl hne
  · intro hl
    cases hl
  · intro _ hl
    cases hl
  · intro _ hl
    cases hl

theorem Sent.paired (hs : Sent cfg n now sid s s') (h : Paired s) (hlt : sid < s.sessions.length) :
    Paired s' := by
  have hfr := hs.frame
  have hcons : s'.consumed = s.consumed := by
    rw [hfr]
  have hline : ∀ m, (s'.session m).line.answered = (s.session m).line.answered ∧
      (s'.session m).replies = (s.session m).replies := by
    intro m
    by_cases hm : m = sid
    · subst hm
      rw [hs.session_self hlt]
      exact ⟨rfl, rfl⟩
    · rw [hs.session_ne hm]
      exact ⟨rfl, rfl⟩
  refine ⟨?_, ?_, ?_⟩
  · intro m
    rw [hcons, (hline m).1]
    exact h.order m
  · intro c hc
    rw [hcons] at hc
    rw [(hline c.session).2]
    exact ⟨hs.getElem? hlt (h.own c hc).1, (h.own c hc).2⟩
  · intro t ht
    rw [hs.settled] at ht
    rw [hcons]
    exact h.delivered t ht

theorem Sent.sentOnce (hs : Sent cfg n now sid s s') (h : SentOnce s) (hlt : sid < s.sessions.length)
    (hnew : ∀ m, n ∉ (s.session m).line.sent) (hsub : (s'.call n).submitted = true) :
    SentOnce s' := by
  refine ⟨?_, ?_⟩
  · intro m x hx
    obtain ⟨k, hk⟩ := List.getElem?_of_mem hx
    rcases hs.sent_cases hlt hk with hk | ⟨rfl, -, -⟩
    · have hold := List.mem_of_getElem? hk
      have hxn : x ≠ n := by
        rintro rfl
        exact hnew m hold
      rw [hs.others x hxn]
      exact h.submitted m x hold
    · exact hsub
  · intro m m' k k' x hk hk'
    rcases hs.sent_cases hlt hk with hk | ⟨rfl, rfl, rfl⟩
    · rcases hs.sent_cases hlt hk' with hk' | ⟨rfl, rfl, rfl⟩
      · exact h.once hk hk'
      · exact absurd (List.mem_of_getElem? hk) (hnew m)
    · rcases hs.sent_cases hlt hk' with hk' | ⟨-, rfl, rfl⟩
      · exact absurd (List.mem_of_getElem? hk') (hnew m')
      · exact ⟨rfl, rfl⟩

end Sent

/-- The call that `Submit` takes. -/
theorem CallsOk.posted_head (h : CallsOk s) {rest : List Nat} (hp : s.posted = n :: rest) :
    (s.call n).submitted = false ∧ n ∉ s.wait := by
  have hn := h.good n
  have hsub := (hn.posted (by rw [hp]; simp)).1
  refine ⟨hsub, ?_⟩
  intro hw
  have hq := hn.queued (Nat.add_pos_left (List.count_pos_iff.2 hw) _)
  rw [hsub] at hq
  cases hq

theorem Coherent.submit (h : Coherent cfg s) (hcalls : CallsOk s) (hsw : SweepOk cfg s)
    (hloop : s.loop = .idle) {rest : List Nat} (hp : s.posted = n :: rest) {now : Nat}
    {env : SendEnv}
    (hcalls' : CallsOk (Client.submit cfg n now env { s with posted := rest, clock := now })) :
    Coherent cfg (Client.submit cfg n now env { s with posted := rest, clock := now }) := by
  obtain ⟨hsub, hn⟩ := hcalls.posted_head hp
  have hnew : ∀ m, n ∉ (s.session m).line.sent := by
    intro m hm
    have hyes := h.sent.submitted m n hm
    rw [hsub] at hyes
    cases hyes
  have hsub' := (hcalls'.good n).queued (Nat.add_pos_right _ (List.count_pos_iff.2
    (List.mem_singleton_self n)))
  unfold Client.submit at hsub' ⊢
  dsimp only at hsub' ⊢
  have hc₁ : Calm s { s with
      posted := rest
      clock := now
      ledger := (s.ledger.retain n).set n
        { (s.ledger.retain n).calls n with submitted := true } } := by
    refine ⟨rfl, rfl, rfl, rfl, rfl, ?_, ?_, ?_⟩
    · intro m hm
      have hmn : m ≠ n := by
        rintro rfl
        exact hn hm
      simp only [State.call, Ledger.set_calls_ne hmn, Ledger.retain_calls_ne hmn]
    · intro m hm
      by_cases hmn : m = n
      · subst hmn
        rw [hsub] at hm
        cases hm
      · simp only [State.call, Ledger.set_calls_ne hmn, Ledger.retain_calls_ne hmn]
        exact hm
    · intro t ht
      have ht : t ∈ (s.ledger.retain n).settled := ht
      rw [Ledger.retain_settled] at ht
      exact Or.inl ht
  generalize hs₁ : ({ s with
      posted := rest
      clock := now
      ledger := (s.ledger.retain n).set n
        { (s.ledger.retain n).calls n with submitted := true } } : State ρ) = s₁ at hc₁
  have hl₁ : s₁.loop = .idle := by
    rw [← hs₁]
    exact hloop
  have hn₁ : n ∉ s₁.wait := by
    rw [hc₁.wait]
    exact hn
  have hswept : s₁.swept ≤ s₁.wait.length := by
    rw [← hs₁]
    exact hsw.swept_le
  have h₁ : Coherent cfg s₁ := by
    apply h.calm hc₁
    · rw [hl₁, hloop]
    · intro m hm
      rw [hl₁] at hm
      cases hm
  rw [hs₁] at hsub'
  obtain hun | ⟨sid, hsent⟩ := @enqueue_cases _ cfg n now env s₁ hn₁ hswept
  · refine h₁.calm ?_ ?_ ?_
    · exact (calm_unsent hun hn₁ hsub').of_eq rfl rfl rfl rfl rfl rfl
    · rw [hl₁]
      rfl
    · intro m hm
      cases hm
  · have hafter : s₁.loop.after = .nothing := by
      rw [hl₁]
      rfl
    have hlt := (h₁.aligned.reading hafter sid hsent.reader).known
    have hnew₁ : ∀ m, n ∉ (s₁.session m).line.sent := by
      intro m
      rw [hc₁.session]
      exact hnew m
    have hpaired := hsent.paired h₁.paired hlt
    have honce := hsent.sentOnce h₁.sent hlt hnew₁ hsub'
    exact ⟨hsent.aligned h₁.aligned hafter hn₁, ⟨hpaired.order, hpaired.own, hpaired.delivered⟩,
      ⟨honce.submitted, honce.once⟩⟩

/-! ## Reading -/

section Modified

variable {f : Session ρ → Session ρ}

/-- Changes to a session that leave its line and its replies alone. -/
theorem Paired.modify (h : Paired s) (sid : Nat)
    (hf : ∀ v, (f v).line = v.line ∧ v.replies <+: (f v).replies) :
    Paired { s with sessions := s.sessions.modify sid f } := by
  have hline : ∀ m, (({ s with sessions := s.sessions.modify sid f } : State ρ).session m).line =
      (s.session m).line := session_modify s f (fun v => (hf v).1) sid
  have hreplies : ∀ m, (s.session m).replies <+:
      (({ s with sessions := s.sessions.modify sid f } : State ρ).session m).replies := by
    intro m
    by_cases hlt : sid < s.sessions.length
    · by_cases hm : m = sid
      · subst hm
        rw [session_modify_self s f hlt]
        exact (hf _).2
      · simp only [session_modify_ne s f hm, List.prefix_rfl]
    · simp only [session_modify_unknown s f hlt, List.prefix_rfl]
  refine ⟨?_, ?_, h.delivered⟩
  · intro m
    rw [hline]
    exact h.order m
  · intro c hc
    have hown := h.own c hc
    rw [hline]
    refine ⟨hown.1, ?_⟩
    obtain ⟨more, hmore⟩ := hreplies c.session
    have hk := (List.getElem?_eq_some_iff.1 hown.2).1
    rw [← hmore, List.getElem?_append_left hk]
    exact hown.2

theorem SentOnce.modify (h : SentOnce s) (sid : Nat)
    (hf : ∀ v, (f v).line.sent = v.line.sent) :
    SentOnce { s with sessions := s.sessions.modify sid f } := by
  have hline : ∀ m, (({ s with sessions := s.sessions.modify sid f } : State ρ).session m).line.sent =
      (s.session m).line.sent :=
    session_modify s f (g := fun v => v.line.sent) hf sid
  refine ⟨?_, ?_⟩
  · intro m n hn
    rw [hline] at hn
    exact h.submitted m n hn
  · intro m m' k k' n hk hk'
    rw [hline] at hk hk'
    exact h.once hk hk'

end Modified

/-- The server's reply is at the end of the replies and of the wire. -/
theorem Coherent.serverReply (h : Coherent cfg s) (x : ρ)
    (hlt : (s.session sid).replies.length < (s.session sid).line.sent.length) :
    Coherent cfg { s with sessions := s.sessions.modify sid fun v =>
      { v with replies := v.replies ++ [x], wire := v.wire ++ cfg.hiredis.encode x } } := by
  have hknown : sid < s.sessions.length := by
    by_contra hno
    rw [session_unknown hno] at hlt
    exact absurd hlt (Nat.lt_irrefl 0)
  have hself := session_modify_self s (fun v =>
    { v with replies := v.replies ++ [x], wire := v.wire ++ cfg.hiredis.encode x }) hknown
  refine ⟨?_, ?_, ?_⟩
  · have ha := h.aligned
    refine ⟨?_, ha.waiting, ?_, ha.dropping, ha.no_error, ?_, ha.feeding⟩
    · intro m
      by_cases hm : m = sid
      · subst hm
        rw [hself]
        have hok := ha.sessions m
        refine ⟨?_, ?_⟩
        · show _ ≤ ((s.session m).replies ++ [x]).length
          rw [List.length_append]
          exact Nat.le_trans hok.received (Nat.le_add_right _ _)
        · show ((s.session m).replies ++ [x]).length ≤ _
          rw [List.length_append]
          exact hlt
      · rw [session_modify_ne s _ hm]
        exact ha.sessions m
    · intro hafter m hm
      have hread := ha.reading hafter m hm
      by_cases hms : m = sid
      · subst hms
        refine ⟨?_, ?_, ?_⟩
        · show m < (s.sessions.modify m _).length
          rw [List.length_modify]
          exact hknown
        · rw [hself]
          exact hread.wait
        · obtain ⟨held, hr, hstream⟩ := hread.held
          refine ⟨held, hr, ?_⟩
          rw [hself]
          show held ++ ((s.session m).wire ++ cfg.hiredis.encode x) =
            cfg.hiredis.stream (((s.session m).replies ++ [x]).drop (s.session m).line.answered)
          rw [List.drop_append_of_le_length (ha.sessions m).received, StreamParser.stream_concat,
            ← hstream, List.append_assoc]
      · refine ⟨?_, ?_, ?_⟩
        · show m < (s.sessions.modify sid _).length
          rw [List.length_modify]
          exact hread.known
        · rw [session_modify_ne s _ hms]
          exact hread.wait
        · rw [session_modify_ne s _ hms]
          exact hread.held
    · intro m hm
      obtain ⟨hmlt, hempty⟩ := ha.fresh m hm
      have hms : m ≠ sid := by
        rintro rfl
        rw [hempty] at hlt
        exact absurd hlt (Nat.lt_irrefl 0)
      refine ⟨?_, ?_⟩
      · show m < (s.sessions.modify sid _).length
        rw [List.length_modify]
        exact hmlt
      · rw [session_modify_ne s _ hms]
        exact hempty
  · exact h.paired.modify sid (fun v => ⟨rfl, List.prefix_append _ _⟩)
  · exact h.sent.modify sid (fun _ => rfl)

/-- Bytes of the current session go to the reader; others are dropped. -/
theorem Coherent.feed (h : Coherent cfg s) (hloop : s.loop = .idle) (sid size : Nat) :
    Coherent cfg (Client.feed sid ((s.session sid).wire.take size)
      { s with sessions := s.sessions.modify sid fun v => { v with wire := v.wire.drop size } }) := by
  have ha := h.aligned
  have hafter : s.loop.after = .nothing := by
    rw [hloop]
    rfl
  have hp := h.paired.modify (f := fun v => { v with wire := v.wire.drop size }) sid
    (fun v => ⟨rfl, List.prefix_rfl⟩)
  have hs := h.sent.modify (f := fun v => { v with wire := v.wire.drop size }) sid (fun _ => rfl)
  have hok : ∀ m, SessionOk (({ s with
      sessions := s.sessions.modify sid fun v => { v with wire := v.wire.drop size } } :
      State ρ).session m) := by
    intro m
    have hl := session_modify s (fun v => { v with wire := v.wire.drop size })
      (g := fun v => (v.line, v.replies)) (fun _ => rfl) sid m
    obtain ⟨hline, hrep⟩ := Prod.mk.inj hl
    refine ⟨?_, ?_⟩
    · rw [hline, hrep]
      exact (ha.sessions m).received
    · rw [hline, hrep]
      exact (ha.sessions m).given
  unfold Client.feed
  split
  · rename_i hne
    have hne : s.readerSid ≠ some sid := hne
    refine ⟨⟨hok, ha.waiting, ?_, ha.dropping, ha.no_error, ?_, ha.feeding⟩, hp, hs⟩
    · intro _ m hm
      have hread := ha.reading hafter m hm
      have hms : m ≠ sid := by
        rintro rfl
        exact hne hm
      refine ⟨?_, ?_, ?_⟩
      · show m < (s.sessions.modify sid _).length
        rw [List.length_modify]
        exact hread.known
      · rw [session_modify_ne s _ hms]
        exact hread.wait
      · rw [session_modify_ne s _ hms]
        exact hread.held
    · intro m hm
      have hm : s.loop.after = .connected m := hm
      rw [hafter] at hm
      cases hm
  · rename_i heq
    have heq : s.readerSid = some sid := not_not.1 heq
    have hread := ha.reading hafter sid heq
    obtain ⟨held, hr, hstream⟩ := hread.held
    have hself := session_modify_self s (fun v => { v with wire := v.wire.drop size }) hread.known
    dsimp only
    rw [hr]
    refine ⟨⟨hok, ha.waiting, ?_, fun hne => absurd rfl hne, ?_, ?_, ?_⟩,
      ⟨hp.order, hp.own, hp.delivered⟩, ⟨hs.submitted, hs.once⟩⟩
    · intro _ m hm
      have hm : s.readerSid = some m := hm
      obtain rfl : sid = m := Option.some.inj (heq.symm.trans hm)
      refine ⟨?_, ?_, ?_⟩
      · show sid < (s.sessions.modify sid _).length
        rw [List.length_modify]
        exact hread.known
      · exact hread.wait.trans (congrArg (fun v => v.line.outstanding) hself).symm
      · refine ⟨held ++ (s.session sid).wire.take size, rfl, ?_⟩
        have hcut : (held ++ (s.session sid).wire.take size) ++ (s.session sid).wire.drop size =
            cfg.hiredis.stream ((s.session sid).replies.drop (s.session sid).line.answered) := by
          rw [List.append_assoc, List.take_append_drop]
          exact hstream
        exact (congrArg (fun v : Session ρ => (held ++ (s.session sid).wire.take size) ++ v.wire =
          cfg.hiredis.stream (v.replies.drop v.line.answered)) hself).mpr hcut
    · intro hl
      cases hl
    · intro m hm
      cases hm
    · intro m hm
      have hm : some sid = some m := hm
      rw [← hm]
      exact heq

/-- A parsed reply: it is the next one of its session, and its command is at the front. -/
structure Next (cfg : Config ρ) (sid n : Nat) (x : ρ) (held : List UInt8) (s : State ρ) : Prop where
  front : s.wait = n :: s.wait.tail
  command : (s.session sid).line.sent[(s.session sid).line.answered]? = some n
  reply : (s.session sid).replies[(s.session sid).line.answered]? = some x
  rest : held ++ (s.session sid).wire =
    cfg.hiredis.stream ((s.session sid).replies.drop ((s.session sid).line.answered + 1))

/-- `redisReaderGetReply` on the replies of the current session: no error, and no reply that the
queue has no command for. -/
theorem Aligned.next (h : Aligned cfg s) (hloop : s.loop = .feeding sid) :
    Client.nextReply cfg sid s = { s with loop := .idle } ∨
    ∃ n x held, Next cfg sid n x held s ∧ Client.nextReply cfg sid s =
      Client.takeReply cfg sid x { s with reader := some ⟨held, false⟩ } := by
  have hsid : s.readerSid = some sid := h.feeding sid (by rw [hloop]; rfl)
  have hread := h.reading (by rw [hloop]; rfl) sid hsid
  obtain ⟨held, hr, hstream⟩ := hread.held
  unfold Client.nextReply
  rw [hr]
  dsimp only [Option.getD_some]
  rw [if_neg Bool.false_ne_true]
  obtain hmore | ⟨x, xs, rest, hxs, hparse, hrest⟩ := cfg.hiredis.next_of_stream hstream
  · left
    rw [hmore]
  · right
    rw [hparse]
    -- a reply that was not parsed yet belongs to a command that was sent
    have hreply : (s.session sid).replies[(s.session sid).line.answered]? = some x := by
      rw [← List.head?_drop, hxs]
      rfl
    have hlt := (List.getElem?_eq_some_iff.1 hreply).1
    have howes : (s.session sid).line.Owes := Nat.lt_of_lt_of_le hlt (h.sessions sid).given
    obtain ⟨n, left, hout, hget⟩ := howes.exists_outstanding
    refine ⟨n, x, rest, ⟨?_, hget, hreply, ?_⟩, rfl⟩
    · rw [hread.wait, hout]
      rfl
    · rw [← List.tail_drop, hxs]
      exact hrest

/-- What a reply does, when the queue is not empty. -/
theorem takeReply_front {x : ρ} {rest : List Nat} (hw : s.wait = n :: rest) :
    Client.takeReply cfg sid x s =
      { settle n (some x) (if cfg.isError x then .serverError else .ok)
          { s with
            sessions := s.sessions.modify sid fun v => { v with line := v.line.answer }
            wait := rest
            swept := s.swept - 1
            consumed := s.consumed ++ [⟨sid, (s.session sid).line.answered, n, x⟩] } with
        loop := .answered n sid } := by
  unfold Client.takeReply
  dsimp only
  rw [hw]

section Taken

variable {x : ρ} {held : List UInt8}

theorem Next.aligned (hx : Next cfg sid n x held s) (h : Aligned cfg s)
    (hloop : s.loop = .feeding sid) :
    Aligned cfg (Client.takeReply cfg sid x { s with reader := some ⟨held, false⟩ }) := by
  have hsid : s.readerSid = some sid := h.feeding sid (by rw [hloop]; rfl)
  have hread := h.reading (by rw [hloop]; rfl) sid hsid
  have hself := session_modify_self s (fun v => { v with line := v.line.answer }) hread.known
  have hlt := (List.getElem?_eq_some_iff.1 hx.reply).1
  rw [takeReply_front (s := { s with reader := some ⟨held, false⟩ }) hx.front]
  refine ⟨?_, ?_, ?_, fun hne => absurd rfl hne, ?_, ?_, ?_⟩
  · intro m
    by_cases hm : m = sid
    · subst hm
      exact (congrArg SessionOk hself).mpr ⟨hlt, (h.sessions m).given⟩
    · exact (congrArg SessionOk (session_modify_ne s _ hm)).mpr (h.sessions m)
  · intro m hm
    have hm : m ∈ s.wait.tail := hm
    obtain ⟨sid', hr, hs⟩ := h.waiting m (List.mem_of_mem_tail hm)
    refine ⟨sid', hr, ?_⟩
    exact (settle_call_keeps n (some x) _ s m).1.trans hs
  · intro _ m hm
    have hm : s.readerSid = some m := hm
    obtain rfl : sid = m := Option.some.inj (hsid.symm.trans hm)
    refine ⟨?_, ?_, held, rfl, ?_⟩
    · show sid < (s.sessions.modify sid _).length
      rw [List.length_modify]
      exact hread.known
    · have hout : s.wait.tail = (s.session sid).line.answer.outstanding := by
        rw [Line.outstanding_answer, hread.wait]
      exact hout.trans (congrArg (fun v => v.line.outstanding) hself).symm
    · exact (congrArg (fun v : Session ρ => held ++ v.wire =
        cfg.hiredis.stream (v.replies.drop v.line.answered)) hself).mpr hx.rest
  · intro hl
    cases hl
  · intro m hm
    cases hm
  · intro m hm
    have hm : some sid = some m := hm
    rw [← hm]
    exact hsid

theorem Next.paired (hx : Next cfg sid n x held s) (h : Paired s) (hknown : sid < s.sessions.length) :
    Paired (Client.takeReply cfg sid x { s with reader := some ⟨held, false⟩ }) := by
  have hself := session_modify_self s (fun v => { v with line := v.line.answer }) hknown
  have hkeep := session_modify s (fun v => { v with line := v.line.answer })
    (g := fun v => (v.line.sent, v.replies)) (fun _ => rfl) sid
  rw [takeReply_front (s := { s with reader := some ⟨held, false⟩ }) hx.front]
  refine ⟨?_, ?_, ?_⟩
  · intro m
    show ((s.consumed ++ ([⟨sid, (s.session sid).line.answered, n, x⟩] :
      List (Consumption ρ))).filter fun c => c.session = m).map (·.index) = _
    rw [List.filter_append, List.map_append, h.order m]
    by_cases hm : m = sid
    · subst hm
      refine Eq.trans ?_ (congrArg (fun v => List.range v.line.answered) hself).symm
      show _ = List.range ((s.session m).line.answered + 1)
      rw [List.range_succ]
      simp
    · refine Eq.trans ?_ (congrArg (fun v => List.range v.line.answered)
        (session_modify_ne s _ hm)).symm
      simp [Ne.symm hm]
  · intro c hc
    have hc : c ∈ s.consumed ++ [⟨sid, (s.session sid).line.answered, n, x⟩] := hc
    obtain ⟨hsent, hreplies⟩ := Prod.mk.inj (hkeep c.session)
    have hgoal : (s.session c.session).line.sent[c.index]? = some c.call ∧
        (s.session c.session).replies[c.index]? = some c.reply := by
      rcases List.mem_append.1 hc with hold | hlast
      · exact h.own c hold
      · rw [List.mem_singleton.1 hlast]
        exact ⟨hx.command, hx.reply⟩
    exact ⟨(congrArg (fun l => l[c.index]?) hsent).trans hgoal.1,
      (congrArg (fun l => l[c.index]?) hreplies).trans hgoal.2⟩
  · intro t ht y hy
    have hsettled := s.ledger.settle_settled n (some x) (if cfg.isError x then .serverError else .ok)
    have ht : t ∈ (s.ledger.settle n (some x)
        (if cfg.isError x then .serverError else .ok)).settled := ht
    have hold : t ∈ s.ledger.settled → ∃ c ∈ s.consumed ++
        ([⟨sid, (s.session sid).line.answered, n, x⟩] : List (Consumption ρ)),
        c.call = t.call ∧ c.reply = y := by
      intro ht
      obtain ⟨c, hc, hown⟩ := h.delivered t ht y hy
      exact ⟨c, List.mem_append_left _ hc, hown⟩
    rcases hsettled with heq | heq
    · rw [heq] at ht
      exact hold ht
    · rw [heq] at ht
      rcases List.mem_append.1 ht with ht | ht
      · exact hold ht
      · rw [List.mem_singleton.1 ht] at hy ⊢
        exact ⟨_, List.mem_append_right _ (List.mem_singleton_self _), rfl, Option.some.inj hy⟩

theorem Next.sentOnce (hx : Next cfg sid n x held s) (h : SentOnce s) :
    SentOnce (Client.takeReply cfg sid x { s with reader := some ⟨held, false⟩ }) := by
  rw [takeReply_front (s := { s with reader := some ⟨held, false⟩ }) hx.front]
  have hs := h.modify (f := fun v => { v with line := v.line.answer }) sid (fun _ => rfl)
  refine ⟨?_, hs.once⟩
  intro m y hy
  exact (settle_call_keeps n (some x) _ s y).2.trans (hs.submitted m y hy)

end Taken

theorem Coherent.nextReply (h : Coherent cfg s) (hloop : s.loop = .feeding sid) :
    Coherent cfg (Client.nextReply cfg sid s) := by
  have hsid : s.readerSid = some sid := h.aligned.feeding sid (by rw [hloop]; rfl)
  have hread := h.aligned.reading (by rw [hloop]; rfl) sid hsid
  obtain heq | ⟨n, x, held, hx, heq⟩ := h.aligned.next hloop
  · rw [heq]
    refine h.calm ?_ ?_ ?_
    · exact (Calm.refl s).of_eq rfl rfl rfl rfl rfl rfl
    · rw [hloop]
      rfl
    · intro m hm
      cases hm
  · rw [heq]
    exact ⟨hx.aligned h.aligned hloop, hx.paired h.paired hread.known, hx.sentOnce h.sent⟩

/-! ## Connections -/

/-- A new session is empty, as one that does not exist is. -/
theorem session_append_empty (s : State ρ) (m : Nat) :
    ({ s with sessions := s.sessions ++ [{}] } : State ρ).session m = s.session m := by
  unfold State.session
  rw [List.getD_eq_getElem?_getD, List.getD_eq_getElem?_getD]
  by_cases hm : m < s.sessions.length
  · rw [List.getElem?_append_left hm]
  · rw [List.getElem?_append_right (Nat.le_of_not_lt hm),
      List.getElem?_eq_none (Nat.le_of_not_lt hm)]
    cases m - s.sessions.length with
    | zero => rfl
    | succ k => rfl

theorem Coherent.connect (h : Coherent cfg s) : Coherent cfg (Client.connect s) := by
  have hsess := session_append_empty s
  refine ⟨⟨?_, ?_, ?_, fun _ => rfl, ?_, ?_, ?_⟩, ⟨?_, ?_, h.paired.delivered⟩, ⟨?_, ?_⟩⟩
  · intro m
    exact (congrArg SessionOk (hsess m)).mpr (h.aligned.sessions m)
  · intro n hn
    cases hn
  · intro hl
    cases hl
  · intro hl
    cases hl
  · intro m hm
    have hm : After.connected s.sessions.length = .connected m := hm
    cases hm
    refine ⟨?_, ?_⟩
    · show s.sessions.length < (s.sessions ++ [({} : Session ρ)]).length
      rw [List.length_append]
      exact Nat.lt_add_one _
    · exact (hsess _).trans (session_unknown (Nat.lt_irrefl _))
  · intro m hm
    cases hm
  · intro m
    exact (h.paired.order m).trans (congrArg (fun v => List.range v.line.answered) (hsess m)).symm
  · intro c hc
    have hown := h.paired.own c hc
    exact ⟨(congrArg (fun v => v.line.sent[c.index]?) (hsess _)).trans hown.1,
      (congrArg (fun v => v.replies[c.index]?) (hsess _)).trans hown.2⟩
  · intro m n hn
    exact h.sent.submitted m n ((congrArg (fun v => n ∈ v.line.sent) (hsess m)).mp hn)
  · intro m m' k k' n hk hk'
    exact h.sent.once ((congrArg (fun v => v.line.sent[k]?) (hsess m)).symm.trans hk)
      ((congrArg (fun v => v.line.sent[k']?) (hsess m')).symm.trans hk')

/-- The stop handler drops the whole queue. -/
theorem Coherent.stop (h : Coherent cfg s) :
    Coherent cfg (failAll .disconnected .stopped s) where
  aligned :=
    { sessions := h.aligned.sessions
      waiting := fun _ hn => by cases hn
      reading := fun hl => by cases hl
      dropping := fun _ => rfl
      no_error := by
        intro hl
        cases hl
      fresh := fun _ hl => by cases hl
      feeding := fun _ hl => by cases hl }
  paired := ⟨h.paired.order, h.paired.own, h.paired.delivered⟩
  sent := ⟨h.sent.submitted, h.sent.once⟩

theorem Coherent.failDone (h : Coherent cfg s) {status : Status} {after : After}
    (hloop : s.loop = .failing [] status after) : Coherent cfg (Client.failDone after s) := by
  have ha := h.aligned
  have hafter : s.loop.after = after := by
    rw [hloop]
    rfl
  have hp : Paired s := h.paired
  have hs : SentOnce s := h.sent
  cases after with
  | nothing =>
    refine h.calm ?_ ?_ ?_
    · exact (Calm.refl s).of_eq rfl rfl rfl rfl rfl rfl
    · exact hafter.symm
    · intro m hm
      cases hm
  | connected sid =>
    obtain ⟨hlt, hempty⟩ := ha.fresh sid hafter
    have hwait : s.wait = [] := by
      apply ha.dropping
      rw [hafter]
      exact fun hl => by cases hl
    refine ⟨⟨ha.sessions, ?_, ?_, fun hne => absurd rfl hne, ?_, ?_, ?_⟩,
      ⟨hp.order, hp.own, hp.delivered⟩, ⟨hs.submitted, hs.once⟩⟩
    · intro n hn
      have hn : n ∈ s.wait := hn
      rw [hwait] at hn
      cases hn
    · intro _ m hm
      have hm : some sid = some m := hm
      cases hm
      refine ⟨hlt, ?_, [], rfl, ?_⟩
      · show s.wait = (s.session sid).line.outstanding
        rw [hwait, hempty]
        rfl
      · show [] ++ (s.session sid).wire = cfg.hiredis.stream
          ((s.session sid).replies.drop (s.session sid).line.answered)
        rw [hempty]
        rfl
    · intro hl
      cases hl
    · intro m hm
      cases hm
    · intro m hm
      cases hm
  | closeSession => exact absurd hafter ha.no_error
  | stopped =>
    have hwait : s.wait = [] := by
      apply ha.dropping
      rw [hafter]
      exact fun hl => by cases hl
    refine ⟨⟨ha.sessions, ?_, ?_, fun hne => absurd rfl hne, ?_, ?_, ?_⟩,
      ⟨hp.order, hp.own, hp.delivered⟩, ⟨hs.submitted, hs.once⟩⟩
    · intro n hn
      have hn : n ∈ s.wait := hn
      rw [hwait] at hn
      cases hn
    · intro _ m hm
      cases hm
    · intro hl
      cases hl
    · intro m hm
      cases hm
    · intro m hm
      cases hm

/-- `FailSid` of the current session empties the queue; of another one, it takes nothing. -/
theorem Aligned.filter_sentOn (h : Aligned cfg s) (sid : Nat) :
    s.wait.filter (fun n => !s.sentOn sid n) = if s.readerSid = some sid then [] else s.wait := by
  split
  · rename_i hsid
    rw [List.filter_eq_nil_iff]
    intro n hn
    obtain ⟨sid', hr, hs⟩ := h.waiting n hn
    rw [hsid] at hr
    simp [State.sentOn, hs, hr]
  · rename_i hsid
    rw [List.filter_eq_self]
    intro n hn
    obtain ⟨sid', hr, hs⟩ := h.waiting n hn
    have hne : ¬ (s.call n).sessionId = some sid := by
      rw [hs, ← hr]
      exact hsid
    simp [State.sentOn, hne]

theorem Coherent.disconnect (h : Coherent cfg s) (hloop : s.loop = .idle) (sid : Nat) :
    Coherent cfg (Client.disconnect sid s) := by
  have ha := h.aligned
  have hafter : s.loop.after = .nothing := by
    rw [hloop]
    rfl
  have hfilter := ha.filter_sentOn sid
  have hp : Paired s := h.paired
  have hs : SentOnce s := h.sent
  -- what `OnDelSession` does to `ConnectedSid()` does not matter here
  have hconn : ∀ c : Option Nat, Coherent cfg (failSid sid
      (if s.readerSid = some sid then { s with connectedSid := c, readerSid := none, reader := none }
        else { s with connectedSid := c })) := by
    intro c
    split
    · rename_i hsid
      rw [if_pos hsid] at hfilter
      refine ⟨⟨ha.sessions, ?_, ?_, fun hne => absurd rfl hne, ?_, ?_, ?_⟩,
        ⟨hp.order, hp.own, hp.delivered⟩, ⟨hs.submitted, hs.once⟩⟩
      · intro n hn
        have hn : n ∈ s.wait.filter (fun n => !s.sentOn sid n) := hn
        rw [hfilter] at hn
        cases hn
      · intro _ m hm
        cases hm
      · intro hl
        cases hl
      · intro m hm
        cases hm
      · intro m hm
        cases hm
    · rename_i hsid
      rw [if_neg hsid] at hfilter
      refine h.calm ⟨rfl, rfl, hfilter, rfl, rfl, fun _ _ => rfl, fun _ => id, fun _ => Or.inl⟩ ?_ ?_
      · exact hafter.symm
      · intro m hm
        cases hm
  unfold Client.disconnect
  dsimp only
  by_cases hc : s.connectedSid = some sid
  · rw [if_pos hc]
    exact hconn none
  · rw [if_neg hc]
    exact hconn s.connectedSid

/-! ## Steps and runs -/

/-- A call that was not issued is not in the queue and was not submitted. -/
theorem CallsOk.calm_new (h : CallsOk s) (c : Call ρ) :
    Calm s { s with ledger := s.ledger.set s.issued c } := by
  have hn := h.good s.issued
  have hunsub : (s.call s.issued).submitted = false := (hn.unissued (by simp)).2.1
  refine ⟨rfl, rfl, rfl, rfl, rfl, ?_, ?_, fun _ => Or.inl⟩
  · intro m hm
    have hmn : m ≠ s.issued := by
      rintro rfl
      have hsub := hn.queued (Nat.add_pos_left (List.count_pos_iff.2 hm) _)
      exact absurd hsub (ne_true_of_eq_false hunsub)
    simp only [State.call, Ledger.set_calls_ne hmn]
  · intro m hm
    have hmn : m ≠ s.issued := by
      rintro rfl
      rw [hunsub] at hm
      cases hm
    simp only [State.call, Ledger.set_calls_ne hmn]
    exact hm

theorem Coherent.step {cfg : Config ρ} {s s' : State ρ} {e : Event ρ} (h : Coherent cfg s)
    (hc : CallsOk s) (hw : SweepOk cfg s) (hs : Client.step cfg s e = some s') :
    Coherent cfg s' := by
  have hc' : CallsOk s' := hc.step hw hs
  have hcaller : ∀ n p, Calm s (setCaller n p s) := fun n p => calm_set rfl rfl
  have hleave : ∀ n, Calm s (release n (setCaller n .gone s)) := fun n =>
    (hcaller n .gone).trans (calm_release n _)
  -- a caller's step does not move the poll thread
  have hkeep : ∀ {t : State ρ}, Calm s t → t.loop = s.loop → Coherent cfg t := by
    intro t ht hl
    exact h.calm ht (congrArg Loop.after hl) (fun sid hsid => hl ▸ hsid)
  cases stepped hs with
  | call arguments => exact hkeep ((hc.calm_new _).of_eq rfl rfl rfl rfl rfl rfl) rfl
  | callSync arguments => exact hkeep ((hc.calm_new _).of_eq rfl rfl rfl rfl rfl rfl) rfl
  | awaitStop n _ => exact hkeep (hcaller n _) rfl
  | await n _ => exact hkeep ((hcaller n .posted).of_eq rfl rfl rfl rfl rfl rfl) rfl
  | gateReady n _ _ => exact hkeep (hcaller n _) rfl
  | suspend n _ _ => exact hkeep (calm_set rfl rfl) rfl
  | resume n _ _ => exact hkeep (hcaller n _) rfl
  | syncReturn n _ _ => exact hkeep (hleave n) rfl
  | syncStop n _ _ _ =>
    have hset : Calm s (setCaller n .gone (settle n none .disconnected s)) :=
      (calm_settle n .disconnected s).trans (calm_set rfl rfl)
    exact hkeep (hset.trans (calm_release n _)) rfl
  | destroy n _ => exact hkeep (hleave n) rfl
  | requestStop => exact hkeep ((Calm.refl s).of_eq rfl rfl rfl rfl rfl rfl) rfl
  | submit n rest now env hloop hp hnow => exact h.submit hc hw hloop hp hc'
  | submitDone n hloop =>
    refine h.calm ?_ ?_ ?_
    · exact (calm_release n s).of_eq rfl rfl rfl rfl rfl rfl
    · rw [hloop]
      rfl
    · intro sid hsid
      cases hsid
  | feed sid size hloop => exact h.feed hloop sid size
  | nextReply sid hloop => exact h.nextReply hloop
  | replyDone n sid hloop =>
    refine h.calm ?_ ?_ ?_
    · exact (calm_release n s).of_eq rfl rfl rfl rfl rfl rfl
    · rw [hloop]
      rfl
    · intro m hm
      rw [hloop]
      exact hm
  | sweepTimeout now hloop hnow | sweepDone hloop =>
    refine h.calm ?_ ?_ ?_
    · exact (Calm.refl s).of_eq rfl rfl rfl rfl rfl rfl
    · rw [hloop]
      rfl
    · intro sid hsid
      cases hsid
  | sweepNext n left hloop =>
    refine h.calm ?_ ?_ ?_
    · exact (calm_settle n .timeout s).of_eq rfl rfl rfl rfl rfl rfl
    · rw [hloop]
      rfl
    · intro sid hsid
      cases hsid
  | failNext n left status after hloop =>
    refine h.calm ?_ ?_ ?_
    · exact (calm_settle n status s).of_eq rfl rfl rfl rfl rfl rfl
    · rw [hloop]
      rfl
    · intro sid hsid
      cases hsid
  | failRelease n left status after hloop =>
    refine h.calm ?_ ?_ ?_
    · exact (calm_release n s).of_eq rfl rfl rfl rfl rfl rfl
    · rw [hloop]
      rfl
    · intro sid hsid
      cases hsid
  | failDone status after hloop => exact h.failDone hloop
  | connect hloop => exact h.connect
  | disconnect sid hloop => exact h.disconnect hloop sid
  | stop hloop => exact h.stop
  | serverReply sid x hlt => exact h.serverReply x hlt

theorem coherent_run {es : List (Event ρ)} (hrun : runFrom (step cfg) {} es = some s) :
    CallsOk s ∧ SweepOk cfg s ∧ Coherent cfg s :=
  runFrom_invariant (I := fun s => CallsOk s ∧ SweepOk cfg s ∧ Coherent cfg s)
    (fun _ _ _ hI hs => ⟨hI.1.step hI.2.1 hs, hI.2.1.step hI.1 hs, hI.2.2.step hI.1 hI.2.1 hs⟩)
    ⟨callsOk_init, sweepOk_init cfg, coherent_init cfg⟩ hrun

/-- What the next round of `Feed` does with the reply it has parsed: reply number `k` of the session
is taken by command number `k`.  If that call has its outcome already, no call changes. -/
structure TakenBy (s s' : State ρ) (sid n : Nat) (x : ρ) : Prop where
  command : (s.session sid).line.sent[(s.session sid).line.answered]? = some n
  reply : (s.session sid).replies[(s.session sid).line.answered]? = some x
  wait : s.wait = n :: s'.wait
  consumed : s'.consumed = s.consumed ++ [⟨sid, (s.session sid).line.answered, n, x⟩]
  others : ∀ m ≠ n, s'.call m = s.call m
  late : (s.call n).won = true → s'.ledger = s.ledger
  delivered : (s.call n).won = false → (s'.call n).reply = some x ∧ (s'.call n).won = true

/-- Reply `k` belongs to command `k`. -/
structure OwnReplies (cfg : Config ρ) (s : State ρ) : Prop where
  /-- The queue is the commands of the current session that have no reply yet. -/
  queue : s.loop = .idle → ∀ sid, s.readerSid = some sid →
    s.wait = (s.session sid).line.outstanding
  /-- The replies received on a session are handed out one by one, -/
  order : ∀ sid, (s.consumed.filter fun c => c.session = sid).map (·.index) =
    List.range (s.session sid).line.answered
  /-- each to the command with its number, -/
  own : ∀ c ∈ s.consumed, (s.session c.session).line.sent[c.index]? = some c.call ∧
    (s.session c.session).replies[c.index]? = some c.reply
  /-- and a call is settled with a reply only if that reply was handed to it. -/
  delivered : ∀ t ∈ s.ledger.settled, ∀ x, t.reply = some x →
    ∃ c ∈ s.consumed, c.call = t.call ∧ c.reply = x
  /-- A call is sent as one command. -/
  sent_once : ∀ {sid sid' k k' n : Nat}, (s.session sid).line.sent[k]? = some n →
    (s.session sid').line.sent[k']? = some n → sid = sid' ∧ k = k'
  /-- The next round of `Feed` has not got a whole reply, or hands it to its command. -/
  next : ∀ sid s', s.loop = .feeding sid → step cfg s .nextReply = some s' →
    s' = { s with loop := .idle } ∨ ∃ n x, TakenBy s s' sid n x
  /-- What comes on another session than the current one is dropped. -/
  elsewhere : ∀ sid size s', s.readerSid ≠ some sid → step cfg s (.feed sid size) = some s' →
    s' = { s with sessions := s.sessions.modify sid fun v => { v with wire := v.wire.drop size } }

theorem Next.takenBy {x : ρ} {held : List UInt8} (hx : Next cfg sid n x held s) (hc : CallsOk s) :
    TakenBy s (Client.takeReply cfg sid x { s with reader := some ⟨held, false⟩ }) sid n x := by
  have hmem : n ∈ s.wait := by
    rw [hx.front]
    exact List.mem_cons_self
  have hfreed : (s.ledger.calls n).freed = false := by
    have hpos := List.count_pos_iff.2 hmem
    exact (hc.good n).not_freed (by omega)
  rw [takeReply_front (s := { s with reader := some ⟨held, false⟩ }) hx.front]
  refine ⟨hx.command, hx.reply, hx.front, rfl, ?_, ?_, ?_⟩
  · intro m hm
    exact Ledger.settle_calls_ne hm _ _
  · intro hwon
    have hwon : (s.ledger.calls n).won = true := hwon
    show s.ledger.settle n (some x) _ = s.ledger
    unfold Ledger.settle
    rw [if_neg (by rw [hfreed]; exact Bool.false_ne_true), if_pos hwon]
  · intro hwon
    have hwon : (s.ledger.calls n).won = false := hwon
    show ((s.ledger.settle n (some x) _).calls n).reply = some x ∧
      ((s.ledger.settle n (some x) _).calls n).won = true
    unfold Ledger.settle
    rw [if_neg (by rw [hfreed]; exact Bool.false_ne_true),
      if_neg (by rw [hwon]; exact Bool.false_ne_true)]
    show ((s.ledger.set n _).calls n).reply = some x ∧ ((s.ledger.set n _).calls n).won = true
    rw [Ledger.set_calls_self]
    exact ⟨rfl, rfl⟩

/-- **Reply `k` belongs to command `k`.**  With a server that answers the commands of a session in
order, and however its replies are cut into chunks, this holds in every run of callers, sends,
replies, sweeps, connects and disconnects. -/
theorem replies_to_own_commands (cfg : Config ρ) {es : List (Event ρ)} {s : State ρ}
    (hrun : runFrom (step cfg) {} es = some s) : OwnReplies cfg s := by
  obtain ⟨hc, -, h⟩ := coherent_run hrun
  refine ⟨?_, h.paired.order, h.paired.own, h.paired.delivered, h.sent.once, ?_, ?_⟩
  · intro hloop sid hsid
    exact (h.aligned.reading (by rw [hloop]; rfl) sid hsid).wait
  · intro sid s' hloop hs
    unfold step at hs
    simp only [hloop] at hs
    obtain rfl := Option.some.inj hs
    obtain heq | ⟨n, x, held, hx, heq⟩ := h.aligned.next hloop
    · exact Or.inl heq
    · rw [heq]
      exact Or.inr ⟨n, x, hx.takenBy hc⟩
  · intro sid size s' hne hs
    obtain ⟨_, rfl⟩ := of_guard hs
    unfold Client.feed
    exact if_pos hne

/-- The reply of the call that timed out is taken by it, and the next one goes to the second call.
-/
theorem replies_to_own_commands_lateReply :
    ∃ s, runFrom (step smallClient) {} lateReply = some s ∧ OwnReplies smallClient s ∧
      s.consumed.map (fun c => (c.session, c.index, c.call, c.reply)) =
        [(0, 0, 0, 3), (0, 1, 1, 4)] ∧
      s.ledger.settled.map (fun t => (t.call, t.reply)) = [(0, none), (1, some 4)] := by
  have hend : (runFrom (step smallClient) {} lateReply).map
      (fun s => (s.consumed.map (fun c => (c.session, c.index, c.call, c.reply)),
        s.ledger.settled.map (fun t => (t.call, t.reply)))) =
      some ([(0, 0, 0, 3), (0, 1, 1, 4)], [(0, none), (1, some 4)]) := by
    decide +kernel
  obtain ⟨s, hs, heq⟩ := Option.map_eq_some_iff.1 hend
  simp only [Prod.mk.injEq] at heq
  exact ⟨s, hs, replies_to_own_commands smallClient hs, heq.1, heq.2⟩

end OpenIdea.Redis.Client
