import OpenIdea.Redis.Proxy
import Mathlib.Algebra.BigOperators.Group.List.Basic

/-!
# The Redis proxy returns one reply for each command, in order

Replies carry no number, and the sessions share the connections.  `Link.Matched` says that
`vPending` of a link is what hiredis has to call back for, with the right number of bytes;
`Forwarding` adds that the replies a session has got and the commands of it that are on their way
are, together and in this order, all commands that were taken from it.

Main result: `replies_in_order`.
-/

set_option autoImplicit false

namespace OpenIdea.Redis.Proxy

open OpenIdea.Lib OpenIdea.Lib.Runs OpenIdea.Redis

variable {ρ : Type}

/-! ## The invariant -/

/-- The entry of `vPending` for a command. -/
def Handed.pending (h : Handed) : Pending := ⟨h.sid, h.command.length⟩

/-- `vPending` is what hiredis has to call back for, and the credit is counted right. -/
structure Link.Matched (cfg : Config) (k : Link) : Prop where
  pending : k.pending = k.handed.map Handed.pending
  bytes : k.pendingBytes = (k.pending.map (·.bytes)).sum
  bytes_le : k.pendingBytes ≤ cfg.maxPendingBytes
  commands_le : k.pending.length ≤ cfg.maxPendingCommands

/-- A command by its session and number. -/
def Handed.key (h : Handed) : Nat × Nat := (h.sid, h.number)

/-- The command that a reply answers. -/
def Answer.key (a : Answer ρ) : Nat × Nat := (a.sid, a.number)

/-- The commands of the session that are on their way. -/
def State.onTheWay (s : State ρ) (sid : Nat) : List Handed :=
  (s.links (s.sessions sid).link).handed.filter fun h => h.sid = sid

/-- All that was taken from the session has been answered, or is on its way, in order.  `called` are
the commands that hiredis has called back for and `OnReply` is just answering. -/
def State.InOrder (called : List Handed) (s : State ρ) (sid : Nat) : Prop :=
  (s.sessions sid).answers.map Answer.key ++
      ((called.filter fun h => h.sid = sid) ++ s.onTheWay sid).map Handed.key =
    (List.range (s.sessions sid).accepted.length).map fun n => (sid, n)

structure Forwarding (cfg : Config) (called : List Handed) (s : State ρ) : Prop where
  link : ∀ l, (s.links l).Matched cfg
  /-- A command is on the link of its session. -/
  home : ∀ l, ∀ h ∈ (s.links l).handed, (s.sessions h.sid).link = l ∧
    (s.sessions h.sid).accepted[h.number]? = some h.command
  order : ∀ sid, (s.sessions sid).closed = false → s.InOrder called sid
  known : ∀ sid, (s.sessions sid).closed = false → sid < s.count
  unknown : ∀ sid, s.count ≤ sid → (s.sessions sid).accepted = []

/-- hiredis has nothing of a connection that is down. -/
def Flushed (s : State ρ) : Prop := ∀ l, (s.links l).up = false → (s.links l).handed = []

/-- The input of a session is what was taken from it, and the rest. -/
def Fed (s : State ρ) (sid : Nat) (rest : List UInt8) : Prop :=
  (s.sessions sid).closed = false →
    (s.sessions sid).received = (s.sessions sid).accepted.flatten ++ rest

theorem forwarding_init (cfg : Config) : Forwarding cfg [] (State.init : State ρ) where
  link := fun _ => ⟨rfl, rfl, Nat.zero_le _, Nat.zero_le _⟩
  home := fun _ _ hh => absurd hh List.not_mem_nil
  order := fun _ hc => by cases hc
  known := fun _ hc => by cases hc
  unknown := fun _ _ => rfl

/-! ## Steps that move no command -/

/-- No command moves and no session is closed. -/
structure SameTraffic (s s' : State ρ) : Prop where
  pending : ∀ l, (s'.links l).pending = (s.links l).pending
  pendingBytes : ∀ l, (s'.links l).pendingBytes = (s.links l).pendingBytes
  handed : ∀ l, (s'.links l).handed = (s.links l).handed
  up : ∀ l, (s'.links l).up = (s.links l).up
  link : ∀ sid, (s'.sessions sid).link = (s.sessions sid).link
  closed : ∀ sid, (s'.sessions sid).closed = (s.sessions sid).closed
  accepted : ∀ sid, (s'.sessions sid).accepted = (s.sessions sid).accepted
  answers : ∀ sid, (s'.sessions sid).answers = (s.sessions sid).answers
  received : ∀ sid, (s'.sessions sid).received = (s.sessions sid).received
  count : s'.count = s.count

/-- And the buffers stay as they are. -/
structure Quiet (s s' : State ρ) : Prop extends SameTraffic s s' where
  buffer : ∀ sid, (s'.sessions sid).buffer = (s.sessions sid).buffer

namespace Quiet

variable {s t u : State ρ}

theorem refl (s : State ρ) : Quiet s s :=
  ⟨⟨fun _ => rfl, fun _ => rfl, fun _ => rfl, fun _ => rfl, fun _ => rfl, fun _ => rfl, fun _ => rfl,
    fun _ => rfl, fun _ => rfl, rfl⟩, fun _ => rfl⟩

theorem trans (h : Quiet s t) (h' : Quiet t u) : Quiet s u where
  pending := fun l => (h'.pending l).trans (h.pending l)
  pendingBytes := fun l => (h'.pendingBytes l).trans (h.pendingBytes l)
  handed := fun l => (h'.handed l).trans (h.handed l)
  up := fun l => (h'.up l).trans (h.up l)
  link := fun sid => (h'.link sid).trans (h.link sid)
  closed := fun sid => (h'.closed sid).trans (h.closed sid)
  accepted := fun sid => (h'.accepted sid).trans (h.accepted sid)
  answers := fun sid => (h'.answers sid).trans (h.answers sid)
  received := fun sid => (h'.received sid).trans (h.received sid)
  count := h'.count.trans h.count
  buffer := fun sid => (h'.buffer sid).trans (h.buffer sid)

/-- Other fields than the links and the sessions do not matter. -/
theorem of_eq (h : Quiet s t) (hl : u.links = t.links) (hs : u.sessions = t.sessions)
    (hc : u.count = t.count) : Quiet s u := by
  apply h.trans
  refine ⟨⟨?_, ?_, ?_, ?_, ?_, ?_, ?_, ?_, ?_, hc⟩, ?_⟩ <;> intro x <;> simp only [hl, hs]

end Quiet

variable {l sid : Nat} {s s' : State ρ} {cfg : Config} {x : Handed}

variable {k : Link} {v : Session ρ}

/-- A change of a link that leaves its commands alone. -/
theorem quiet_setLink (hp : k.pending = (s.links l).pending)
    (hb : k.pendingBytes = (s.links l).pendingBytes) (hh : k.handed = (s.links l).handed)
    (hu : k.up = (s.links l).up) : Quiet s (s.setLink l k) := by
  exact ⟨⟨s.setLink_field (·.pending) hp, s.setLink_field (·.pendingBytes) hb,
    s.setLink_field (·.handed) hh, s.setLink_field (·.up) hu, fun _ => rfl, fun _ => rfl,
    fun _ => rfl, fun _ => rfl, fun _ => rfl, rfl⟩, fun _ => rfl⟩

/-- A change of a session that leaves its commands alone. -/
theorem sameTraffic_setSession (hl : v.link = (s.sessions sid).link)
    (hc : v.closed = (s.sessions sid).closed) (ha : v.accepted = (s.sessions sid).accepted)
    (hn : v.answers = (s.sessions sid).answers) (hr : v.received = (s.sessions sid).received) :
    SameTraffic s (s.setSession sid v) := by
  exact ⟨fun _ => rfl, fun _ => rfl, fun _ => rfl, fun _ => rfl, s.setSession_field (·.link) hl,
    s.setSession_field _ hc, s.setSession_field _ ha, s.setSession_field _ hn,
    s.setSession_field _ hr, rfl⟩

theorem quiet_setSession (h : SameTraffic s (s.setSession sid v))
    (hb : v.buffer = (s.sessions sid).buffer) : Quiet s (s.setSession sid v) := by
  refine ⟨h, ?_⟩
  intro m
  by_cases hm : m = sid
  · subst hm
    rw [State.setSession_self, hb]
  · rw [State.setSession_ne s hm]

theorem quiet_armResume (cfg : Config) (l : Nat) (s : State ρ) : Quiet s (armResume cfg l s) := by
  unfold armResume
  dsimp only
  split
  · exact Quiet.refl s
  · have h : Quiet s (s.setLink l { s.links l with resumeArmed := true }) :=
      quiet_setLink rfl rfl rfl rfl
    exact h.of_eq rfl rfl rfl

theorem quiet_pause (cfg : Config) (l sid : Nat) (s : State ρ) : Quiet s (pause cfg l sid s) := by
  have harm : ∀ {t : State ρ}, Quiet s t → Quiet s
      (if (t.links l).resuming then t else armResume cfg l t) := by
    intro t ht
    split
    · exact ht
    · exact ht.trans (quiet_armResume cfg l t)
  unfold pause
  dsimp only
  apply harm
  split
  · exact Quiet.refl s
  · exact quiet_setLink rfl rfl rfl rfl

theorem quiet_pauseRead (cfg : Config) (sid : Nat) (s : State ρ) : Quiet s (pauseRead cfg sid s) := by
  have h : Quiet s
      (s.setSession sid { s.sessions sid with readPaused := true, reading := false }) :=
    quiet_setSession (sameTraffic_setSession rfl rfl rfl rfl rfl) rfl
  exact h.trans (quiet_pause cfg _ sid _)

theorem quiet_finishResume (cfg : Config) (l : Nat) (progress : Bool) (s : State ρ) :
    Quiet s (finishResume cfg l progress s) := by
  have h : Quiet s (s.setLink l { s.links l with resuming := false }) :=
    quiet_setLink rfl rfl rfl rfl
  have hidle : Quiet s { s.setLink l { s.links l with resuming := false } with loop := .idle } :=
    h.of_eq rfl rfl rfl
  unfold finishResume
  dsimp only
  split
  · exact hidle.trans (quiet_armResume cfg l _)
  · exact hidle

theorem SameTraffic.onTheWay (h : SameTraffic s s') (sid : Nat) :
    s'.onTheWay sid = s.onTheWay sid := by
  unfold State.onTheWay
  rw [h.link, h.handed]

theorem Forwarding.same {called : List Handed} (h : Forwarding cfg called s) (hq : SameTraffic s s')
    : Forwarding cfg called s' where
  link := by
    intro l
    have hl := h.link l
    refine ⟨?_, ?_, ?_, ?_⟩
    · rw [hq.pending, hq.handed]
      exact hl.pending
    · rw [hq.pendingBytes, hq.pending]
      exact hl.bytes
    · rw [hq.pendingBytes]
      exact hl.bytes_le
    · rw [hq.pending]
      exact hl.commands_le
  home := by
    intro l x hx
    rw [hq.handed] at hx
    rw [hq.link, hq.accepted]
    exact h.home l x hx
  order := by
    intro sid hc
    rw [hq.closed] at hc
    unfold State.InOrder
    rw [hq.answers, hq.onTheWay, hq.accepted]
    exact h.order sid hc
  known := by
    intro sid hc
    rw [hq.closed] at hc
    rw [hq.count]
    exact h.known sid hc
  unknown := by
    intro sid hsid
    rw [hq.count] at hsid
    rw [hq.accepted]
    exact h.unknown sid hsid

theorem Flushed.same (h : Flushed s) (hq : SameTraffic s s') : Flushed s' := by
  intro l hl
  rw [hq.up] at hl
  rw [hq.handed]
  exact h l hl

theorem Fed.same {rest : List UInt8} (h : Fed s sid rest) (hq : SameTraffic s s') :
    Fed s' sid rest := by
  intro hc
  rw [hq.closed] at hc
  rw [hq.received, hq.accepted]
  exact h hc

/-! ## Sessions -/

/-- One session changes; more commands may have been taken from it. -/
theorem Forwarding.setSession {called called' : List Handed} (h : Forwarding cfg called s)
    (hlink : v.link = (s.sessions sid).link) (hacc : (s.sessions sid).accepted <+: v.accepted)
    (hsid : sid < s.count)
    (hcalled : ∀ m, m ≠ sid → (called'.filter fun x => x.sid = m) = called.filter fun x => x.sid = m)
    (horder : v.closed = false → (s.setSession sid v).InOrder called' sid) :
    Forwarding cfg called' (s.setSession sid v) where
  link := h.link
  home := by
    intro l x hx
    obtain ⟨hl, hget⟩ := h.home l x hx
    by_cases hm : x.sid = sid
    · rw [hm, State.setSession_self, hlink]
      rw [hm] at hl hget
      refine ⟨hl, ?_⟩
      obtain ⟨more, hmore⟩ := hacc
      rw [← hmore, List.getElem?_append_left (List.getElem?_eq_some_iff.1 hget).1]
      exact hget
    · rw [State.setSession_ne s hm]
      exact ⟨hl, hget⟩
  order := by
    intro m hc
    by_cases hm : m = sid
    · subst hm
      rw [State.setSession_self] at hc
      exact horder hc
    · have hold : (s.setSession sid v).sessions m = s.sessions m := State.setSession_ne s hm v
      rw [hold] at hc
      have hord := h.order m hc
      unfold State.InOrder State.onTheWay at hord ⊢
      rw [hold, State.setSession_links, hcalled m hm]
      exact hord
  known := by
    intro m hc
    by_cases hm : m = sid
    · rw [hm]
      exact hsid
    · rw [State.setSession_ne s hm] at hc
      exact h.known m hc
  unknown := by
    intro m hm
    have hne : m ≠ sid := by
      rintro rfl
      exact absurd hsid (Nat.not_lt.2 hm)
    rw [State.setSession_ne s hne]
    exact h.unknown m hm

theorem closeSession_of_closed (h : (s.sessions sid).closed = true) : closeSession sid s = s := by
  have hself : ({ s.sessions sid with closed := true } : Session ρ) = s.sessions sid := by
    rw [← h]
  unfold closeSession State.setSession
  rw [hself, Function.update_eq_self]

/-- A session that is closed is promised nothing. -/
theorem Forwarding.closeSession {cfg : Config} {called called' : List Handed} {s : State ρ}
    (h : Forwarding cfg called s) {sid : Nat} (hsid : sid < s.count)
    (hcalled : ∀ m, m ≠ sid → (called'.filter fun x => x.sid = m) =
      called.filter fun x => x.sid = m) :
    Forwarding cfg called' (Proxy.closeSession sid s) :=
  h.setSession rfl List.prefix_rfl hsid hcalled fun hc => (by cases hc)

theorem Forwarding.close {cfg : Config} {called : List Handed} {s : State ρ}
    (h : Forwarding cfg called s) (sid : Nat) : Forwarding cfg called (Proxy.closeSession sid s) := by
  by_cases hc : (s.sessions sid).closed = true
  · rw [closeSession_of_closed hc]
    exact h
  · exact h.closeSession (h.known sid (by simpa using hc)) fun _ _ => rfl

/-- `OnReply` answers the command that hiredis has called back for. -/
theorem Forwarding.answer (h : Forwarding cfg [x] s) (body : Option ρ) (sendOk : Bool) :
    Forwarding cfg [] (Proxy.answer x.sid ⟨x.sid, x.number, body⟩ sendOk s) := by
  have hother : ∀ m, m ≠ x.sid → (([] : List Handed).filter fun y => y.sid = m) =
      [x].filter fun y => y.sid = m := by
    intro m hm
    simp [Ne.symm hm]
  unfold Proxy.answer
  split
  · rename_i hopen
    have hopen : (s.sessions x.sid).closed = false := by
      simp only [Bool.and_eq_true, Bool.not_eq_true'] at hopen
      exact hopen.1
    refine h.setSession rfl List.prefix_rfl (h.known _ hopen) hother ?_
    intro _
    have hord := h.order x.sid hopen
    unfold State.InOrder State.onTheWay at hord ⊢
    rw [State.setSession_self, State.setSession_links]
    simp only [List.map_append, List.map_cons, List.map_nil, List.filter_nil, List.nil_append,
      List.append_assoc, List.filter_cons_of_pos, decide_true] at hord ⊢
    exact hord
  · by_cases hc : (s.sessions x.sid).closed = true
    · -- nobody waits for the reply any more
      have hnone : Forwarding cfg [] s := by
        refine ⟨h.link, h.home, ?_, h.known, h.unknown⟩
        intro m hm
        have hne : m ≠ x.sid := by
          rintro rfl
          rw [hc] at hm
          cases hm
        have hord := h.order m hm
        unfold State.InOrder at hord ⊢
        rw [hother m hne]
        exact hord
      exact hnone.close x.sid
    · exact h.closeSession (h.known _ (by simpa using hc)) hother

/-! ## Issuing -/

/-- Without a connection nothing is on its way, and the answer is the next one. -/
theorem Forwarding.issueDown (h : Forwarding cfg [] s) (hflushed : Flushed s)
    (hopen : (s.sessions sid).closed = false) (hup : (s.links (s.sessions sid).link).up = false)
    (command : List UInt8) (sendOk : Bool) :
    Forwarding cfg []
      (Proxy.answer sid ⟨sid, (s.sessions sid).accepted.length, none⟩ sendOk
        (accept sid command s)) := by
  have hsid := h.known sid hopen
  have hway : s.onTheWay sid = [] := by
    unfold State.onTheWay
    rw [hflushed _ hup]
    rfl
  have hord := h.order sid hopen
  unfold State.InOrder at hord
  rw [hway] at hord
  have haccepted : Forwarding cfg [⟨sid, (s.sessions sid).accepted.length, command⟩]
      (accept sid command s) := by
    refine h.setSession rfl (List.prefix_append _ _) hsid ?_ ?_
    · intro m hm
      simp [Ne.symm hm]
    · intro _
      unfold State.InOrder
      have hway' : (s.setSession sid { s.sessions sid with
          accepted := (s.sessions sid).accepted ++ [command] }).onTheWay sid = [] := by
        unfold State.onTheWay
        rw [State.setSession_self, State.setSession_links]
        exact hway
      rw [hway', State.setSession_self]
      simp only [List.length_append, List.length_singleton, List.range_succ, List.map_append, ← hord]
      simp [Handed.key]
  exact haccepted.answer none sendOk

/-- hiredis takes the command. -/
theorem Forwarding.issueHanded (h : Forwarding cfg [] s) (hopen : (s.sessions sid).closed = false)
    {command : List UInt8}
    (hcommands : (s.links (s.sessions sid).link).pending.length < cfg.maxPendingCommands)
    (hbytes : command.length ≤ cfg.maxPendingBytes - (s.links (s.sessions sid).link).pendingBytes) :
    Forwarding cfg [] (accept sid command (s.setLink (s.sessions sid).link
      { (s.links (s.sessions sid).link).push sid command.length with
        handed := (s.links (s.sessions sid).link).handed ++
          [⟨sid, (s.sessions sid).accepted.length, command⟩] })) := by
  have hsid := h.known sid hopen
  have hord := h.order sid hopen
  obtain ⟨l, hl⟩ : ∃ l, (s.sessions sid).link = l := ⟨_, rfl⟩
  unfold State.InOrder State.onTheWay at hord
  rw [hl] at hcommands hbytes hord ⊢
  have hk := h.link l
  obtain ⟨k, hkdef⟩ : ∃ k, s.links l = k := ⟨_, rfl⟩
  rw [hkdef] at hcommands hbytes hord hk ⊢
  have hself : (accept sid command (s.setLink l { k.push sid command.length with
      handed := k.handed ++ [⟨sid, (s.sessions sid).accepted.length, command⟩] })).sessions sid =
      { s.sessions sid with accepted := (s.sessions sid).accepted ++ [command] } :=
    State.setSession_self _ _ _
  have hother : ∀ {m}, m ≠ sid → (accept sid command (s.setLink l { k.push sid command.length with
      handed := k.handed ++ [⟨sid, (s.sessions sid).accepted.length, command⟩] })).sessions m =
      s.sessions m := fun hm => State.setSession_ne _ hm _
  refine ⟨?_, ?_, ?_, ?_, ?_⟩
  · intro m
    show ((s.setLink l _).links m).Matched cfg
    by_cases hm : m = l
    · subst hm
      rw [State.setLink_self]
      refine ⟨?_, ?_, ?_, ?_⟩
      · show k.pending ++ [⟨sid, command.length⟩] = (k.handed ++ [_]).map Handed.pending
        rw [List.map_append, ← hk.pending]
        rfl
      · show k.pendingBytes + command.length =
          ((k.pending ++ [(⟨sid, command.length⟩ : Pending)]).map (·.bytes)).sum
        rw [List.map_append, List.sum_append, ← hk.bytes]
        simp
      · show k.pendingBytes + command.length ≤ cfg.maxPendingBytes
        have := hk.bytes_le
        omega
      · show (k.pending ++ [(⟨sid, command.length⟩ : Pending)]).length ≤ cfg.maxPendingCommands
        rw [List.length_append, List.length_singleton]
        exact hcommands
    · rw [State.setLink_ne s hm]
      exact h.link m
  · intro m x hx
    have hx : x ∈ ((s.setLink l { k.push sid command.length with
      handed := k.handed ++ [⟨sid, (s.sessions sid).accepted.length, command⟩] }).links m).handed := hx
    -- commands that were on their way, and the new one
    have hcases : x ∈ (s.links m).handed ∨
        (m = l ∧ x = ⟨sid, (s.sessions sid).accepted.length, command⟩) := by
      by_cases hm : m = l
      · subst hm
        rw [State.setLink_self] at hx
        rcases List.mem_append.1 hx with hx | hx
        · rw [hkdef]
          exact Or.inl hx
        · exact Or.inr ⟨rfl, List.mem_singleton.1 hx⟩
      · rw [State.setLink_ne s hm] at hx
        exact Or.inl hx
    rcases hcases with hx | ⟨rfl, rfl⟩
    · obtain ⟨hlx, hget⟩ := h.home m x hx
      by_cases hxs : x.sid = sid
      · rw [hxs] at hlx hget ⊢
        rw [hself]
        refine ⟨hlx, ?_⟩
        exact (List.getElem?_append_left (List.getElem?_eq_some_iff.1 hget).1).trans hget
      · rw [hother hxs]
        exact ⟨hlx, hget⟩
    · dsimp only
      rw [hself]
      refine ⟨hl, ?_⟩
      show ((s.sessions sid).accepted ++ [command])[(s.sessions sid).accepted.length]? = some command
      simp
  · intro m hm
    by_cases hms : m = sid
    · subst hms
      unfold State.InOrder State.onTheWay
      rw [hself]
      dsimp only
      rw [hl]
      show _ ++ (_ ++ ((s.setLink l _).links l).handed.filter _).map Handed.key = _
      rw [State.setLink_self]
      show _ ++ (_ ++ (k.handed ++ [_]).filter _).map Handed.key = _
      simp only [List.length_append, List.length_singleton, List.range_succ, List.map_append, ← hord]
      simp [Handed.key]
    · have hold := hother hms
      rw [hold] at hm
      have hordm := h.order m hm
      unfold State.InOrder State.onTheWay at hordm ⊢
      rw [hold]
      show _ ++ (_ ++ ((s.setLink l _).links (s.sessions m).link).handed.filter _).map Handed.key = _
      by_cases hml : (s.sessions m).link = l
      · rw [hml, State.setLink_self]
        rw [hml, hkdef] at hordm
        show _ ++ (_ ++ (k.handed ++ [_]).filter _).map Handed.key = _
        rw [List.filter_append, List.filter_cons_of_neg (by simpa using Ne.symm hms), List.filter_nil,
          List.append_nil]
        exact hordm
      · rw [State.setLink_ne s hml]
        exact hordm
  · intro m hm
    by_cases hms : m = sid
    · rw [hms]
      exact hsid
    · rw [hother hms] at hm
      exact h.known m hm
  · intro m hm
    have hms : m ≠ sid := by
      rintro rfl
      exact absurd hsid (Nat.not_lt.2 hm)
    rw [hother hms]
    exact h.unknown m hm

/-! ## Replies -/

/-- What is left of the link when hiredis has called back and `OnReply` has returned the credit. -/
def Link.pop (k : Link) : Link :=
  { k with
    handed := k.handed.tail
    pendingBytes := k.pendingBytes - (k.pending.head?.map (·.bytes)).getD 0
    pending := k.pending.tail }

/-- `OnReply` where the link is as it should be: the reply goes to the session of its command. -/
theorem onReply_eq {rest : List Handed} (hm : (s.links l).Matched cfg)
    (hhanded : (s.links l).handed = x :: rest) (body : Option ρ) (sendOk : Bool) :
    onReply cfg l body sendOk s =
      answer x.sid ⟨x.sid, x.number, body⟩ sendOk
        (armResume cfg l (s.setLink l (s.links l).pop)) := by
  have hpending : (s.links l).pending = x.pending :: rest.map Handed.pending := by
    rw [hm.pending, hhanded]
    rfl
  unfold onReply releaseCredit
  dsimp only
  rw [hhanded]
  dsimp only
  rw [hpending]
  dsimp only
  rw [State.setLink_self]
  -- the link is written twice
  have htwice : ∀ k k' : Link, (s.setLink l k).setLink l k' = s.setLink l k' := by
    intro k k'
    simp [State.setLink]
  rw [htwice]
  unfold Link.pop
  rw [hpending, hhanded]
  rfl

theorem Link.Matched.pop {rest : List Handed} (hm : k.Matched cfg) (hhanded : k.handed = x :: rest)
    : k.pop.Matched cfg := by
  have hpending : k.pending = x.pending :: rest.map Handed.pending := by
    rw [hm.pending, hhanded]
    rfl
  have hbytes := hm.bytes
  rw [hpending] at hbytes
  refine ⟨?_, ?_, ?_, ?_⟩
  · show k.pending.tail = k.handed.tail.map Handed.pending
    rw [hpending, hhanded]
    rfl
  · show k.pendingBytes - (k.pending.head?.map (·.bytes)).getD 0 = (k.pending.tail.map (·.bytes)).sum
    rw [hpending, hbytes]
    simp
  · exact Nat.le_trans (Nat.sub_le _ _) hm.bytes_le
  · show k.pending.tail.length ≤ cfg.maxPendingCommands
    rw [List.length_tail]
    exact Nat.le_trans (Nat.sub_le _ _) hm.commands_le

theorem Forwarding.pop (h : Forwarding cfg [] s) {rest : List Handed}
    (hhanded : (s.links l).handed = x :: rest) :
    Forwarding cfg [x] (s.setLink l (s.links l).pop) := by
  have hx := (h.home l x (by rw [hhanded]; exact List.mem_cons_self)).1
  have hrest : (s.links l).pop.handed = rest := by
    show (s.links l).handed.tail = rest
    rw [hhanded]
    rfl
  refine ⟨?_, ?_, ?_, h.known, h.unknown⟩
  · intro m
    by_cases hm : m = l
    · subst hm
      rw [State.setLink_self]
      exact (h.link m).pop hhanded
    · rw [State.setLink_ne s hm]
      exact h.link m
  · intro m y hy
    apply h.home m y
    by_cases hm : m = l
    · subst hm
      rw [State.setLink_self, hrest] at hy
      rw [hhanded]
      exact List.mem_cons_of_mem x hy
    · rw [State.setLink_ne s hm] at hy
      exact hy
  · intro sid hc
    have hord := h.order sid hc
    unfold State.InOrder State.onTheWay at hord ⊢
    rw [State.setLink_sessions]
    rw [List.filter_nil, List.nil_append] at hord
    by_cases hl : (s.sessions sid).link = l
    · rw [hl] at hord ⊢
      rw [State.setLink_self, hrest, ← List.filter_append]
      rw [hhanded] at hord
      exact hord
    · -- the command was not on this session's link
      have hne : ¬ x.sid = sid := by
        rintro rfl
        exact hl hx
      rw [State.setLink_ne s hl, List.filter_cons_of_neg (by simpa using hne), List.filter_nil,
        List.nil_append]
      exact hord

theorem Forwarding.onReply (h : Forwarding cfg [] s) {rest : List Handed}
    (hhanded : (s.links l).handed = x :: rest) (body : Option ρ) (sendOk : Bool) :
    Forwarding cfg [] (Proxy.onReply cfg l body sendOk s) := by
  rw [onReply_eq (h.link l) hhanded]
  exact ((h.pop hhanded).same (quiet_armResume cfg l _).toSameTraffic).answer body sendOk

theorem answer_links (sid : Nat) (a : Answer ρ) (sendOk : Bool) (s : State ρ) :
    (answer sid a sendOk s).links = s.links := by
  unfold answer
  split <;> rfl

/-- The links after a reply. -/
theorem onReply_links {rest : List Handed} (hm : (s.links l).Matched cfg)
    (hhanded : (s.links l).handed = x :: rest) (body : Option ρ) (sendOk : Bool) :
    ((Proxy.onReply cfg l body sendOk s).links l).handed = rest ∧
    ∀ m, ((Proxy.onReply cfg l body sendOk s).links m).up = (s.links m).up ∧
      (m ≠ l → ((Proxy.onReply cfg l body sendOk s).links m).handed = (s.links m).handed) := by
  rw [onReply_eq hm hhanded, answer_links]
  have hq := quiet_armResume cfg l (s.setLink l (s.links l).pop)
  refine ⟨?_, ?_⟩
  · rw [hq.handed, State.setLink_self]
    show (s.links l).handed.tail = rest
    rw [hhanded]
    rfl
  · intro m
    rw [hq.up, hq.handed]
    refine ⟨?_, ?_⟩
    · by_cases hml : m = l
      · subst hml
        rw [State.setLink_self]
        rfl
      · rw [State.setLink_ne s hml]
    · intro hml
      rw [State.setLink_ne s hml]

/-- hiredis gives up all commands of a link. -/
theorem Forwarding.flush {cfg : Config} {l : Nat} {send : Nat → Bool} (n : Nat) :
    ∀ {s : State ρ}, Forwarding cfg [] s → (s.links l).handed.length = n →
      Forwarding cfg [] (Proxy.flush cfg l send n s) ∧
      ((Proxy.flush cfg l send n s).links l).handed = [] ∧
      ∀ m, ((Proxy.flush cfg l send n s).links m).up = (s.links m).up ∧
        (m ≠ l → ((Proxy.flush cfg l send n s).links m).handed = (s.links m).handed) := by
  induction n with
  | zero =>
    intro s h hlen
    exact ⟨h, List.length_eq_zero_iff.1 hlen, fun m => ⟨rfl, fun _ => rfl⟩⟩
  | succ n ih =>
    intro s h hlen
    obtain ⟨x, rest, hhanded⟩ := List.exists_cons_of_length_eq_add_one hlen
    rw [hhanded, List.length_cons] at hlen
    have hstep := h.onReply hhanded none (send n)
    obtain ⟨hrest, hothers⟩ := onReply_links (h.link l) hhanded none (send n)
    obtain ⟨hf, hnil, hall⟩ := ih hstep (by rw [hrest]; omega)
    refine ⟨hf, hnil, ?_⟩
    intro m
    refine ⟨(hall m).1.trans (hothers m).1, ?_⟩
    intro hml
    exact ((hall m).2 hml).trans ((hothers m).2 hml)

/-! ## Input -/

/-- The whole invariant. -/
structure Sound (cfg : Config) (s : State ρ) : Prop where
  forwarding : Forwarding cfg [] s
  flushed : Flushed s
  fed : ∀ sid, Fed s sid (s.sessions sid).buffer

theorem sound_init (cfg : Config) : Sound cfg (State.init : State ρ) :=
  ⟨forwarding_init cfg, fun _ _ => rfl, fun _ hc => by cases hc⟩

theorem Sound.quiet (h : Sound cfg s) (hq : Quiet s s') : Sound cfg s' := by
  refine ⟨h.forwarding.same hq.toSameTraffic, h.flushed.same hq.toSameTraffic, ?_⟩
  intro sid
  rw [hq.buffer]
  exact (h.fed sid).same hq.toSameTraffic

/-- What holds within `ProcessInput` of the session, whose buffer is cut at the end. -/
structure Feeding (cfg : Config) (sid : Nat) (rest : List UInt8) (s : State ρ) : Prop where
  forwarding : Forwarding cfg [] s
  flushed : Flushed s
  fed : Fed s sid rest
  others : ∀ m, m ≠ sid → Fed s m (s.sessions m).buffer

namespace Feeding

variable {rest : List UInt8}

theorem quiet (h : Feeding cfg sid rest s) (hq : Quiet s s') : Feeding cfg sid rest s' := by
  refine ⟨h.forwarding.same hq.toSameTraffic, h.flushed.same hq.toSameTraffic,
    h.fed.same hq.toSameTraffic, ?_⟩
  intro m hm
  rw [hq.buffer]
  exact (h.others m hm).same hq.toSameTraffic

/-- The other sessions are as before. -/
theorem others_of_ne (h : Feeding cfg sid rest s) (hs : ∀ m, m ≠ sid → s'.sessions m = s.sessions m)
    : ∀ m, m ≠ sid → Fed s' m (s'.sessions m).buffer := by
  intro m hm hc
  have hold := h.others m hm
  unfold Fed at hold
  rw [hs m hm] at hc ⊢
  exact hold hc

theorem close (h : Feeding cfg sid rest s) (rest' : List UInt8) :
    Feeding cfg sid rest' (closeSession sid s) := by
  refine ⟨h.forwarding.close sid, h.flushed, ?_, h.others_of_ne fun m hm => State.setSession_ne s hm _⟩
  intro hc
  unfold closeSession at hc
  rw [State.setSession_self] at hc
  cases hc

/-- A command of the input has been taken. -/
theorem fed_accept (h : Feeding cfg sid rest s) (hopen : (s.sessions sid).closed = false)
    (size : Nat) (hr : (s'.sessions sid).received = (s.sessions sid).received)
    (ha : (s'.sessions sid).accepted = (s.sessions sid).accepted ++ [rest.take size]) :
    Fed s' sid (rest.drop size) := by
  intro _
  have hfed := h.fed hopen
  rw [hr, ha, hfed, List.flatten_append, List.flatten_singleton, List.append_assoc,
    List.take_append_drop]

/-- A session that is still open has gone past the command. -/
theorem of_open {rest' : List UInt8} (hc : (s.sessions sid).closed = false)
    (h : Feeding cfg sid rest' s) :
    Feeding cfg sid (if (s.sessions sid).closed then rest else rest') s := by
  rw [if_neg (by rw [hc]; exact Bool.false_ne_true)]
  exact h

theorem issue {size : Nat} (h : Feeding cfg sid rest s) (hopen : (s.sessions sid).closed = false)
    (hi : Issued cfg sid (rest.take size) s s' true) :
    Feeding cfg sid (if (s'.sessions sid).closed then rest else rest.drop size) s' := by
  cases hi with
  | closed => exact h.close _
  | down sendOk hup =>
    have hf := h.forwarding.issueDown h.flushed hopen hup (rest.take size) sendOk
    have haccept : ∀ m, m ≠ sid →
        (accept sid (rest.take size) s).sessions m = s.sessions m :=
      fun m hm => State.setSession_ne s hm _
    unfold answer at hf ⊢
    split at hf
    · rename_i hsend
      rw [if_pos hsend]
      rw [State.setSession_self]
      have hsame : ((accept sid (rest.take size) s).sessions sid).closed = false := by
        simp only [Bool.and_eq_true, Bool.not_eq_true'] at hsend
        exact hsend.1
      rw [if_neg (by rw [hsame]; exact Bool.false_ne_true)]
      refine ⟨hf, h.flushed, ?_, ?_⟩
      · refine h.fed_accept hopen size ?_ ?_
        · rw [State.setSession_self]
          show ((accept sid (rest.take size) s).sessions sid).received = _
          unfold accept
          rw [State.setSession_self]
        · rw [State.setSession_self]
          show ((accept sid (rest.take size) s).sessions sid).accepted = _
          unfold accept
          rw [State.setSession_self]
      · refine h.others_of_ne ?_
        intro m hm
        rw [State.setSession_ne _ hm]
        exact haccept m hm
    · rename_i hsend
      rw [if_neg hsend]
      refine ⟨hf, h.flushed, ?_, ?_⟩
      · intro hc
        unfold closeSession at hc
        rw [State.setSession_self] at hc
        cases hc
      · refine h.others_of_ne ?_
        intro m hm
        unfold closeSession
        rw [State.setSession_ne _ hm]
        exact haccept m hm
  | handed hup hturn hcommands hbytes =>
    have hf := h.forwarding.issueHanded hopen hcommands hbytes
    have hself : ∀ t : State ρ, (accept sid (rest.take size) t).sessions sid =
        { t.sessions sid with accepted := (t.sessions sid).accepted ++ [rest.take size] } :=
      fun t => State.setSession_self _ _ _
    apply of_open
    · rw [hself]
      exact hopen
    refine ⟨hf, ?_, ?_, ?_⟩
    · intro l hl
      show ((s.setLink _ _).links l).handed = []
      have hl : ((s.setLink (s.sessions sid).link _).links l).up = false := hl
      by_cases hm : l = (s.sessions sid).link
      · subst hm
        rw [State.setLink_self] at hl
        have hl : (s.links (s.sessions sid).link).up = false := hl
        rw [hup] at hl
        cases hl
      · rw [State.setLink_ne s hm] at hl ⊢
        exact h.flushed l hl
    · refine h.fed_accept hopen size ?_ ?_
      · rw [hself]
        rfl
      · rw [hself]
        rfl
    · exact h.others_of_ne fun m hm => State.setSession_ne _ hm _

end Feeding

theorem Sound.processInput (h : Sound cfg s) (sid budget : Nat) (env : Nat → IssueEnv) :
    Sound cfg (Proxy.processInput cfg sid budget env s).1 := by
  unfold Proxy.processInput
  dsimp only
  split
  · exact h
  rename_i hready
  have hopen := open_of_ready hready
  have hstart : Feeding cfg sid (s.sessions sid).buffer s :=
    ⟨h.forwarding, h.flushed, h.fed sid, fun m _ => h.fed m⟩
  have hend : Feeding cfg sid (processLoop cfg sid env budget (s.sessions sid).buffer s).1
      (processLoop cfg sid env budget (s.sessions sid).buffer s).2 := by
    refine processLoop_rule ?_ ?_ ?_ budget hstart hopen
    · intro rest t ht _
      exact ht.close rest
    · intro rest t ht _
      exact ht.quiet (quiet_pauseRead cfg sid t)
    · intro rest t t' size count ht hc _ hi
      exact ht.issue hc hi
  generalize processLoop cfg sid env budget (s.sessions sid).buffer s = r at hend ⊢
  obtain ⟨rest, t⟩ := r
  dsimp only at hend ⊢
  have hq : SameTraffic t (t.setSession sid { t.sessions sid with buffer := rest }) :=
    sameTraffic_setSession rfl rfl rfl rfl rfl
  refine ⟨hend.forwarding.same hq, hend.flushed.same hq, ?_⟩
  intro m
  by_cases hm : m = sid
  · subst hm
    rw [State.setSession_self]
    exact hend.fed.same hq
  · rw [State.setSession_ne t hm]
    exact (hend.others m hm).same hq

/-- `SwapInBuff` has put input into the buffer. -/
theorem Sound.received {cfg : Config} {s : State ρ} (h : Sound cfg s) (sid : Nat)
    (chunk : List UInt8) :
    Sound cfg (s.setSession sid { s.sessions sid with
      buffer := (s.sessions sid).buffer ++ chunk
      received := (s.sessions sid).received ++ chunk }) := by
  refine ⟨?_, h.flushed, ?_⟩
  · have hf := h.forwarding
    refine ⟨hf.link, ?_, ?_, ?_, ?_⟩
    · intro l x hx
      have hhome := hf.home l x hx
      by_cases hm : x.sid = sid
      · rw [hm] at hhome ⊢
        rw [State.setSession_self]
        exact hhome
      · rw [State.setSession_ne s hm]
        exact hhome
    · intro m hc
      by_cases hm : m = sid
      · subst hm
        rw [State.setSession_self] at hc
        have hord := hf.order m hc
        unfold State.InOrder State.onTheWay at hord ⊢
        rw [State.setSession_self]
        exact hord
      · have hold := State.setSession_ne s hm { s.sessions sid with
          buffer := (s.sessions sid).buffer ++ chunk
          received := (s.sessions sid).received ++ chunk }
        rw [hold] at hc
        have hord := hf.order m hc
        unfold State.InOrder State.onTheWay at hord ⊢
        rw [hold]
        exact hord
    · intro m hc
      by_cases hm : m = sid
      · subst hm
        rw [State.setSession_self] at hc
        exact hf.known m hc
      · rw [State.setSession_ne s hm] at hc
        exact hf.known m hc
    · intro m hm
      have hold := hf.unknown m hm
      by_cases hms : m = sid
      · subst hms
        rw [State.setSession_self]
        exact hold
      · rw [State.setSession_ne s hms]
        exact hold
  · intro m hc
    by_cases hm : m = sid
    · subst hm
      rw [State.setSession_self] at hc ⊢
      have hfed := h.fed m hc
      show (s.sessions m).received ++ chunk = (s.sessions m).accepted.flatten ++
        ((s.sessions m).buffer ++ chunk)
      rw [hfed, List.append_assoc]
    · rw [State.setSession_ne s hm] at hc ⊢
      exact h.fed m hc

theorem Sound.dataIn (h : Sound cfg s) (sid : Nat) (chunk : List UInt8) (env : Nat → IssueEnv) :
    Sound cfg (Proxy.dataIn cfg sid chunk env s) :=
  (h.received sid chunk).processInput sid 32 env

theorem Sound.resumeRead (h : Sound cfg s) (sid : Nat) (env : Nat → IssueEnv) :
    Sound cfg (Proxy.resumeRead cfg sid env s).1 := by
  have hset : ∀ {t : State ρ} {v : Session ρ}, Sound cfg t →
      SameTraffic t (t.setSession sid v) → v.buffer = (t.sessions sid).buffer →
      Sound cfg (t.setSession sid v) := fun ht hq hb => ht.quiet (quiet_setSession hq hb)
  have hallowed : Sound cfg (s.setSession sid { s.sessions sid with readPaused := false }) :=
    hset h (sameTraffic_setSession rfl rfl rfl rfl rfl) rfl
  have hread := hallowed.processInput sid 1 env
  unfold Proxy.resumeRead
  dsimp only
  split
  · exact h
  split
  · exact hset hread (sameTraffic_setSession rfl rfl rfl rfl rfl) rfl
  · exact hread

/-! ## Steps and runs -/

/-- A change of a link that leaves its commands alone; the connection may go up or down. -/
theorem Forwarding.setLink {called : List Handed} (h : Forwarding cfg called s)
    (hp : k.pending = (s.links l).pending) (hb : k.pendingBytes = (s.links l).pendingBytes)
    (hh : k.handed = (s.links l).handed) : Forwarding cfg called (s.setLink l k) := by
  have hhanded : ∀ m, ((s.setLink l k).links m).handed = (s.links m).handed := by
    intro m
    by_cases hm : m = l
    · subst hm
      rw [State.setLink_self, hh]
    · rw [State.setLink_ne s hm]
  refine ⟨?_, ?_, ?_, h.known, h.unknown⟩
  · intro m
    by_cases hm : m = l
    · subst hm
      have hold := h.link m
      rw [State.setLink_self]
      refine ⟨?_, ?_, ?_, ?_⟩
      · rw [hp, hh]
        exact hold.pending
      · rw [hb, hp]
        exact hold.bytes
      · rw [hb]
        exact hold.bytes_le
      · rw [hp]
        exact hold.commands_le
    · rw [State.setLink_ne s hm]
      exact h.link m
  · intro m x hx
    rw [hhanded] at hx
    exact h.home m x hx
  · intro sid hc
    have hord := h.order sid hc
    unfold State.InOrder State.onTheWay at hord ⊢
    rw [hhanded]
    exact hord

theorem Sound.linkDown (h : Sound cfg s) (hhanded : (s.links l).handed = []) :
    Sound cfg (Proxy.linkDown l s) := by
  refine ⟨h.forwarding.setLink rfl rfl rfl, ?_, h.fed⟩
  intro m hm
  unfold Proxy.linkDown at hm ⊢
  by_cases hml : m = l
  · subst hml
    rw [State.setLink_self]
    exact hhanded
  · rw [State.setLink_ne s hml] at hm ⊢
    exact h.flushed m hm

theorem fed_answer (a : Answer ρ) (sendOk : Bool) (h : ∀ m, Fed s m (s.sessions m).buffer) :
    ∀ m, Fed (answer sid a sendOk s) m ((answer sid a sendOk s).sessions m).buffer := by
  intro m hc
  have hm := h m
  unfold Fed at hm
  unfold answer closeSession at hc ⊢
  split at hc
  · rename_i hsend
    rw [if_pos hsend]
    by_cases hms : m = sid
    · subst hms
      rw [State.setSession_self] at hc ⊢
      exact hm hc
    · rw [State.setSession_ne s hms] at hc ⊢
      exact hm hc
  · rename_i hsend
    rw [if_neg hsend]
    by_cases hms : m = sid
    · subst hms
      rw [State.setSession_self] at hc
      cases hc
    · rw [State.setSession_ne s hms] at hc ⊢
      exact hm hc

theorem fed_onReply {rest : List Handed} (hm : (s.links l).Matched cfg)
    (hhanded : (s.links l).handed = x :: rest) (body : Option ρ) (sendOk : Bool)
    (h : ∀ m, Fed s m (s.sessions m).buffer) :
    ∀ m, Fed (onReply cfg l body sendOk s) m ((onReply cfg l body sendOk s).sessions m).buffer := by
  rw [onReply_eq hm hhanded]
  apply fed_answer
  intro m
  have hq := quiet_armResume cfg l (s.setLink l (s.links l).pop)
  have hold : Fed (s.setLink l (s.links l).pop) m (s.sessions m).buffer := h m
  rw [hq.buffer]
  exact hold.same hq.toSameTraffic

theorem Sound.onReply (h : Sound cfg s) {rest : List Handed}
    (hhanded : (s.links l).handed = x :: rest) (body : Option ρ) (sendOk : Bool) :
    Sound cfg (Proxy.onReply cfg l body sendOk s) := by
  have hm := h.forwarding.link l
  obtain ⟨hrest, hothers⟩ := onReply_links hm hhanded body sendOk
  refine ⟨h.forwarding.onReply hhanded body sendOk, ?_, fed_onReply hm hhanded body sendOk h.fed⟩
  intro m hup
  rw [(hothers m).1] at hup
  have hnil := h.flushed m hup
  by_cases hml : m = l
  · subst hml
    rw [hhanded] at hnil
    cases hnil
  · rw [(hothers m).2 hml]
    exact hnil

theorem fed_flush {send : Nat → Bool} (n : Nat) :
    ∀ {s : State ρ}, Forwarding cfg [] s → (s.links l).handed.length = n →
      (∀ m, Fed s m (s.sessions m).buffer) →
      ∀ m, Fed (flush cfg l send n s) m ((flush cfg l send n s).sessions m).buffer := by
  induction n with
  | zero =>
    intro s _ _ hfed
    exact hfed
  | succ n ih =>
    intro s h hlen hfed
    obtain ⟨x, rest, hhanded⟩ := List.exists_cons_of_length_eq_add_one hlen
    rw [hhanded, List.length_cons] at hlen
    apply ih (h.onReply hhanded none (send n))
    · rw [(onReply_links (h.link l) hhanded none (send n)).1]
      omega
    · exact fed_onReply (h.link l) hhanded none (send n) hfed

theorem Sound.connectFailed (h : Sound cfg s) (l : Nat) (send : Nat → Bool) :
    Sound cfg (Proxy.connectFailed cfg l send s) := by
  have hdown : Forwarding cfg [] (Proxy.linkDown l s) := h.forwarding.setLink rfl rfl rfl
  have hself : (Proxy.linkDown l s).links l = { s.links l with up := false, dialing := true } :=
    State.setLink_self _ _ _
  have hlen : ((Proxy.linkDown l s).links l).handed.length = (s.links l).handed.length := by
    rw [hself]
  unfold Proxy.connectFailed
  obtain ⟨hf, hnil, hothers⟩ := @Forwarding.flush _ cfg l send _ _ hdown hlen
  refine ⟨hf, ?_, fed_flush _ hdown hlen h.fed⟩
  intro m hup
  by_cases hml : m = l
  · subst hml
    exact hnil
  · rw [(hothers m).2 hml]
    rw [(hothers m).1] at hup
    unfold Proxy.linkDown at hup ⊢
    rw [State.setLink_ne s hml] at hup ⊢
    exact h.flushed m hup

theorem Sound.dial (h : Sound cfg s) (l : Nat) (ok : Bool) : Sound cfg (Proxy.dial l ok s) := by
  have hset : ∀ k : Link, k.pending = (s.links l).pending →
      k.pendingBytes = (s.links l).pendingBytes → k.handed = (s.links l).handed →
      (k.up = false → (s.links l).up = false) → Sound cfg (s.setLink l k) := by
    intro k hp hb hh hu
    refine ⟨h.forwarding.setLink hp hb hh, ?_, h.fed⟩
    intro m hm
    by_cases hml : m = l
    · subst hml
      rw [State.setLink_self] at hm ⊢
      rw [hh]
      exact h.flushed m (hu hm)
    · rw [State.setLink_ne s hml] at hm ⊢
      exact h.flushed m hm
  unfold Proxy.dial
  dsimp only
  split
  · exact hset _ rfl rfl rfl id
  · rename_i hdown
    exact hset _ rfl rfl rfl fun _ => by simpa using hdown

/-- A new session has no commands, and nothing on its way. -/
theorem Sound.addSession (h : Sound cfg s) :
    Sound cfg { s.setSession s.count
        { link := s.next % cfg.connections, closed := false, deleted := false } with
      count := s.count + 1
      next := s.next + 1 } := by
  have hf := h.forwarding
  -- no command on its way is one of the new session
  have hnot : ∀ l, ∀ x ∈ (s.links l).handed, x.sid ≠ s.count := by
    intro l x hx hsid
    have hget := (hf.home l x hx).2
    rw [hsid, hf.unknown s.count (Nat.le_refl _)] at hget
    cases hget
  have hself : ∀ v : Session ρ, (s.setSession s.count v).sessions s.count = v :=
    State.setSession_self s s.count
  have hother : ∀ (v : Session ρ) {m : Nat}, m ≠ s.count →
      (s.setSession s.count v).sessions m = s.sessions m := fun v _ hm => State.setSession_ne s hm v
  refine ⟨⟨hf.link, ?_, ?_, ?_, ?_⟩, h.flushed, ?_⟩
  · intro l x hx
    show ((s.setSession s.count _).sessions x.sid).link = l ∧
      ((s.setSession s.count _).sessions x.sid).accepted[x.number]? = some x.command
    rw [hother _ (hnot l x hx)]
    exact hf.home l x hx
  · intro m hm
    have hm : ((s.setSession s.count _).sessions m).closed = false := hm
    by_cases hms : m = s.count
    · subst hms
      show ((s.setSession s.count _).sessions s.count).answers.map Answer.key ++ (_ ++
        ((s.links ((s.setSession s.count _).sessions s.count).link).handed.filter _)).map _ = _
      rw [hself]
      have hnone : ((s.links (s.next % cfg.connections)).handed.filter fun x => x.sid = s.count) =
          [] := by
        rw [List.filter_eq_nil_iff]
        intro x hx
        simpa using hnot _ x hx
      dsimp only
      rw [hnone]
      rfl
    · rw [hother _ hms] at hm
      have hord := hf.order m hm
      unfold State.InOrder State.onTheWay at hord
      show ((s.setSession s.count _).sessions m).answers.map Answer.key ++ (_ ++
        ((s.links ((s.setSession s.count _).sessions m).link).handed.filter _)).map _ =
        (List.range ((s.setSession s.count _).sessions m).accepted.length).map _
      rw [hother _ hms]
      exact hord
  · intro m hm
    have hm : ((s.setSession s.count _).sessions m).closed = false := hm
    show m < s.count + 1
    by_cases hms : m = s.count
    · omega
    · rw [hother _ hms] at hm
      have := hf.known m hm
      omega
  · intro m hm
    have hm : s.count + 1 ≤ m := hm
    show ((s.setSession s.count _).sessions m).accepted = []
    rw [hother _ (by omega)]
    exact hf.unknown m (by omega)
  · intro m hm
    have hm : ((s.setSession s.count _).sessions m).closed = false := hm
    show ((s.setSession s.count _).sessions m).received =
      ((s.setSession s.count _).sessions m).accepted.flatten ++
        ((s.setSession s.count _).sessions m).buffer
    by_cases hms : m = s.count
    · subst hms
      rw [hself]
      rfl
    · rw [hother _ hms] at hm ⊢
      exact h.fed m hm

theorem quiet_delSession (sid : Nat) (s : State ρ) :
    Quiet s { s.setSession sid { s.sessions sid with deleted := true } with
      links := fun l => (s.links l).forget sid } := by
  have hq : Quiet s (s.setSession sid { s.sessions sid with deleted := true }) :=
    quiet_setSession (sameTraffic_setSession rfl rfl rfl rfl rfl) rfl
  exact ⟨⟨fun _ => rfl, fun _ => rfl, fun _ => rfl, fun _ => rfl, hq.link, hq.closed, hq.accepted,
    hq.answers, hq.received, rfl⟩, hq.buffer⟩

theorem quiet_takeReady (cfg : Config) (l remaining : Nat) (progress : Bool) (s : State ρ) :
    Quiet s (takeReady cfg l remaining progress s) := by
  unfold takeReady
  dsimp only
  split
  · split
    · exact quiet_finishResume cfg l progress s
    · rename_i sid ready _ _
      have hq : Quiet s (s.setLink l
          { s.links l with ready := ready, paused := (s.links l).paused.erase sid }) :=
        quiet_setLink rfl rfl rfl rfl
      exact hq.of_eq rfl rfl rfl
  · exact quiet_finishResume cfg l progress s

theorem quiet_settleTurn (cfg : Config) (l remaining : Nat) (progress : Bool) (sid : Nat)
    (consumed : Bool) (s : State ρ) : Quiet s (settleTurn cfg l remaining progress sid consumed s) := by
  unfold settleTurn
  dsimp only
  split
  · have hq : Quiet s (s.setLink l { s.links l with
        ready := sid :: (s.links l).ready.filter (fun m => decide (m ≠ sid)) }) :=
      quiet_setLink rfl rfl rfl rfl
    exact hq.trans (quiet_finishResume cfg l progress _)
  · exact (Quiet.refl s).of_eq rfl rfl rfl

theorem Sound.step {e : Event ρ} (h : Sound cfg s) (hs : Proxy.step cfg s e = some s') :
    Sound cfg s' := by
  cases stepped hs with
  | addSession hloop => exact h.addSession
  | dataIn sid chunk env hloop hdel => exact h.dataIn sid chunk env
  | close sid hloop hopen =>
    have hfed : Feeding cfg sid [] (closeSession sid s) :=
      Feeding.close ⟨h.forwarding, h.flushed, h.fed sid, fun m _ => h.fed m⟩ []
    refine ⟨hfed.forwarding, hfed.flushed, ?_⟩
    intro m
    by_cases hm : m = sid
    · subst hm
      intro hc
      unfold closeSession at hc
      rw [State.setSession_self] at hc
      cases hc
    · exact hfed.others m hm
  | delSession sid hloop hclosed => exact h.quiet (quiet_delSession sid s)
  | reply l x sendOk hloop hhanded =>
    cases hcase : (s.links l).handed with
    | nil => exact absurd hcase hhanded
    | cons y rest => exact h.onReply hcase x sendOk
  | disconnect l hloop hhanded => exact h.linkDown hhanded
  | connectFailed l send hloop => exact h.connectFailed l send
  | dial l ok hloop => exact h.dial l ok
  | requestStop hloop => exact h.quiet ((Quiet.refl s).of_eq rfl rfl rfl)
  | startResume l posted hloop hposted =>
    have hq : Quiet s (s.setLink l { s.links l with resumeArmed := false, resuming := true }) :=
      quiet_setLink rfl rfl rfl rfl
    exact h.quiet (hq.of_eq rfl rfl rfl)
  | takeReady l remaining progress hloop => exact h.quiet (quiet_takeReady cfg l remaining progress s)
  | resumeTaken l remaining progress sid env hloop =>
    unfold resumeTaken
    split
    · exact h.quiet ((Quiet.refl s).of_eq rfl rfl rfl)
    · exact (h.resumeRead sid env).quiet ((Quiet.refl _).of_eq rfl rfl rfl)
  | settleTurn l remaining progress sid consumed hloop =>
    exact h.quiet (quiet_settleTurn cfg l remaining progress sid consumed s)

theorem sound_run {es : List (Event ρ)} (hrun : runFrom (step cfg) State.init es = some s) :
    Sound cfg s :=
  runFrom_invariant (fun _ _ _ hI hs => hI.step hs) (sound_init cfg) hrun

/-- What is promised of the replies. -/
structure RepliesInOrder (cfg : Config) (s : State ρ) : Prop where
  /-- `vPending` is the commands that hiredis has to call back for, in order, with their sizes. -/
  pending : ∀ l, (s.links l).pending = (s.links l).handed.map fun h => ⟨h.sid, h.command.length⟩
  bytes : ∀ l, (s.links l).pendingBytes = ((s.links l).pending.map (·.bytes)).sum
  bytes_le : ∀ l, (s.links l).pendingBytes ≤ cfg.maxPendingBytes
  commands_le : ∀ l, (s.links l).pending.length ≤ cfg.maxPendingCommands
  /-- A command on its way was taken from its session, and is on that session's link. -/
  home : ∀ l, ∀ h ∈ (s.links l).handed, (s.sessions h.sid).link = l ∧
    (s.sessions h.sid).accepted[h.number]? = some h.command
  /-- The commands taken from an open session are its input, in order, up to the buffer. -/
  input : ∀ sid, (s.sessions sid).closed = false →
    (s.sessions sid).received = (s.sessions sid).accepted.flatten ++ (s.sessions sid).buffer
  /-- The replies an open session got are for its own commands, one each and in order; the other
  commands are on their way. -/
  order : ∀ sid, (s.sessions sid).closed = false →
    (s.sessions sid).answers.map Answer.key ++ (s.onTheWay sid).map Handed.key =
      (List.range (s.sessions sid).accepted.length).map fun n => (sid, n)

/-- **One reply for each forwarded command, in order, within the credit.**  This holds in every run
of reads, replies, connects, disconnects, reconnects and closes. -/
theorem replies_in_order (cfg : Config) {es : List (Event ρ)} {s : State ρ}
    (hrun : runFrom (step cfg) State.init es = some s) : RepliesInOrder cfg s := by
  have h := sound_run hrun
  have hf := h.forwarding
  refine ⟨fun l => (hf.link l).pending, fun l => (hf.link l).bytes, fun l => (hf.link l).bytes_le,
    fun l => (hf.link l).commands_le, hf.home, fun sid hc => h.fed sid hc, ?_⟩
  intro sid hc
  have hord := hf.order sid hc
  unfold State.InOrder at hord
  rw [List.filter_nil, List.nil_append] at hord
  exact hord

/-- `PING`. -/
def ping : List UInt8 := ascii "*1\r\n$4\r\nPING\r\n"

/-- Two sessions share a link.  The connection is lost with two commands on their way, and another
command comes before it is up again. -/
def sharedLink : List (Event Nat) :=
  [.dial 0 true, .addSession, .addSession, .dataIn 0 ping fun _ => {},
    .dataIn 1 (ping ++ ping) fun _ => {}, .dataIn 0 ping fun _ => {}, .reply 0 (some 7) true,
    .reply 0 (some 8) true, .reply 0 none true, .reply 0 none true, .disconnect 0,
    .dataIn 1 ping fun _ => {}, .dial 0 true]

/-- The first session gets its reply and the notice of the failure; the second one gets its reply
and two such notices. -/
theorem replies_in_order_sharedLink :
    ∃ s, runFrom (step {}) State.init sharedLink = some s ∧ RepliesInOrder {} s ∧
      (s.sessions 0).answers = [⟨0, 0, some 7⟩, ⟨0, 1, none⟩] ∧
      (s.sessions 1).answers = [⟨1, 0, some 8⟩, ⟨1, 1, none⟩, ⟨1, 2, none⟩] := by
  have hend : (runFrom (step {}) State.init sharedLink).map
      (fun s => ((s.sessions 0).answers, (s.sessions 1).answers)) =
      some ([⟨0, 0, some 7⟩, ⟨0, 1, none⟩],
        [⟨1, 0, some 8⟩, ⟨1, 1, none⟩, ⟨1, 2, none⟩]) := by
    decide +kernel
  obtain ⟨s, hs, heq⟩ := Option.map_eq_some_iff.1 hend
  simp only [Prod.mk.injEq] at heq
  exact ⟨s, hs, replies_in_order {} hs, heq.1, heq.2⟩

end OpenIdea.Redis.Proxy
