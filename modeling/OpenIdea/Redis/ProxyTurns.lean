import OpenIdea.Redis.ProxyReplies

/-!
# The Redis proxy forgets no paused session

`Turns` is the invariant of the back-pressure: `vReady` is `vPaused` in the order of the turns, a
link with paused sessions and nothing on its way has a `Resume` to come, and a session whose reading
is paused has its place in the queue, or its turn.  `Phase` is what `Resume` relies on while it
runs: as long as nobody has made progress, the queue is no longer than the number of turns that are
left.

Main results: `Waits.run`, `served_in_turn`.
-/

set_option autoImplicit false

namespace OpenIdea.Redis.Proxy

open OpenIdea.Lib OpenIdea.Lib.Runs OpenIdea.Redis

variable {ρ : Type}

/-! ## The invariant -/

/-- The link whose `Resume` runs. -/
def Loop.link : Loop → Option Nat
  | .idle => none
  | .resuming l _ _ => some l
  | .taken l _ _ _ => some l
  | .resumed l _ _ _ _ => some l

/-- The session that `Resume` has taken out of the queue and not let read yet. -/
def Loop.turn : Loop → Option Nat
  | .taken _ _ _ sid => some sid
  | _ => none

/-- The invariant.  `turn` is a session that has its turn; `loose` is a link that is about to call
`ArmResume`. -/
structure Turns (turn loose : Option Nat) (s : State ρ) : Prop where
  nodup : ∀ l, (s.links l).ready.Nodup
  mem : ∀ l sid, sid ∈ (s.links l).ready ↔ sid ∈ (s.links l).paused
  armed : s.stopRequested = false → ∀ l, loose ≠ some l → (s.links l).paused ≠ ∅ →
    (s.links l).pending = [] → (s.links l).resumeArmed = true ∨ (s.links l).resuming = true
  posted : ∀ l, s.posted.count l = if (s.links l).resumeArmed then 1 else 0
  resuming : ∀ l, (s.links l).resuming = true ↔ s.loop.link = some l
  waiting : ∀ sid, (s.sessions sid).closed = false → (s.sessions sid).readPaused = true →
    sid ∈ (s.links (s.sessions sid).link).paused ∨ turn = some sid
  home : ∀ l, ∀ sid ∈ (s.links l).paused, (s.sessions sid).link = l ∧ sid < s.count ∧
    (s.sessions sid).readPaused = true

theorem turns_init : Turns none none (State.init : State ρ) where
  nodup := fun _ => List.nodup_nil
  mem := fun _ _ => by simp [State.init]
  armed := fun _ _ _ hp => absurd rfl hp
  posted := fun _ => rfl
  resuming := fun _ => by simp [State.init, Loop.link]
  waiting := fun _ hc => by cases hc
  home := fun _ _ hm => by simp [State.init] at hm

namespace Turns

variable {turn loose : Option Nat} {s : State ρ}

/-- A change of a link: its flags stay, no paused session is dropped. -/
theorem setLink (h : Turns turn loose s) {l : Nat} {k : Link} {loose' : Option Nat}
    (hready : k.ready = (s.links l).ready) (hpaused : k.paused = (s.links l).paused)
    (harm : k.resumeArmed = (s.links l).resumeArmed) (hres : k.resuming = (s.links l).resuming)
    (hloose : ∀ m, m ≠ l → loose' ≠ some m → loose ≠ some m)
    (hself : s.stopRequested = false → loose' ≠ some l → k.paused ≠ ∅ → k.pending = [] →
      k.resumeArmed = true ∨ k.resuming = true) :
    Turns turn loose' (s.setLink l k) := by
  have hat := fun {β : Type} => @State.setLink_field ρ β s l k
  have hr := hat (·.ready) hready
  have hp := hat (·.paused) hpaused
  refine ⟨?_, ?_, ?_, ?_, ?_, ?_, ?_⟩
  · intro m
    rw [hr]
    exact h.nodup m
  · intro m sid
    rw [hr, hp]
    exact h.mem m sid
  · intro hs m hlm hpm hpend
    by_cases hm : m = l
    · subst hm
      rw [State.setLink_self] at hpm hpend ⊢
      exact hself hs hlm hpm hpend
    · rw [State.setLink_ne s hm] at hpm hpend ⊢
      exact h.armed hs m (hloose m hm hlm) hpm hpend
  · intro m
    rw [hat (·.resumeArmed) harm]
    exact h.posted m
  · intro m
    rw [hat (·.resuming) hres]
    exact h.resuming m
  · intro sid hc hread
    rw [State.setLink_sessions, hp]
    exact h.waiting sid hc hread
  · intro m sid hm
    rw [hp] at hm
    exact h.home m sid hm

/-- A change of a session. -/
theorem setSession (h : Turns turn loose s) {sid : Nat} {v : Session ρ} {turn' : Option Nat}
    (hlink : v.link = (s.sessions sid).link)
    (hturn : ∀ m, m ≠ sid → turn = some m → turn' = some m)
    (hself : v.closed = false → v.readPaused = true →
      sid ∈ (s.links v.link).paused ∨ turn' = some sid)
    (hread : ∀ l, sid ∈ (s.links l).paused → v.readPaused = true) :
    Turns turn' loose (s.setSession sid v) := by
  refine ⟨h.nodup, h.mem, h.armed, h.posted, h.resuming, ?_, ?_⟩
  · intro m hc hr
    by_cases hm : m = sid
    · subst hm
      rw [State.setSession_self] at hc hr ⊢
      exact hself hc hr
    · rw [State.setSession_ne s hm] at hc hr ⊢
      rcases h.waiting m hc hr with hw | hw
      · exact Or.inl hw
      · exact Or.inr (hturn m hm hw)
  · intro l m hm
    obtain ⟨hl, hcount, hr⟩ := h.home l m hm
    by_cases hms : m = sid
    · subst hms
      rw [State.setSession_self]
      exact ⟨hlink.trans hl, hcount, hread l hm⟩
    · rw [State.setSession_ne s hms]
      exact ⟨hl, hcount, hr⟩

theorem closeSession (h : Turns turn loose s) (sid : Nat) :
    Turns turn loose (Proxy.closeSession sid s) := by
  refine h.setSession rfl (fun _ _ ht => ht) (fun hc => (by cases hc)) ?_
  intro l hl
  exact (h.home l sid hl).2.2

/-- A change of the bookkeeping of a session. -/
theorem setSessionSame (h : Turns turn loose s) {sid : Nat} {v : Session ρ}
    (hlink : v.link = (s.sessions sid).link) (hclosed : v.closed = (s.sessions sid).closed)
    (hread : v.readPaused = (s.sessions sid).readPaused) :
    Turns turn loose (s.setSession sid v) := by
  refine h.setSession hlink (fun _ _ ht => ht) ?_ ?_
  · intro hc hr
    rw [hclosed] at hc
    rw [hread] at hr
    rw [hlink]
    exact h.waiting sid hc hr
  · intro l hl
    rw [hread]
    exact (h.home l sid hl).2.2

theorem accept (h : Turns turn loose s) (sid : Nat) (command : List UInt8) :
    Turns turn loose (Proxy.accept sid command s) :=
  h.setSessionSame rfl rfl rfl

theorem answer (h : Turns turn loose s) (sid : Nat) (a : Answer ρ) (sendOk : Bool) :
    Turns turn loose (Proxy.answer sid a sendOk s) := by
  unfold Proxy.answer
  split
  · exact h.setSessionSame rfl rfl rfl
  · exact h.closeSession sid

/-- `ArmResume` on a link that had to call it. -/
theorem armResume {cfg : Config} {l : Nat} (h : Turns turn (some l) s)
    (hbytes : (s.links l).pending = [] → (s.links l).pendingBytes = 0) :
    Turns turn none (Proxy.armResume cfg l s) := by
  have hother : ∀ m, m ≠ l → (some l : Option Nat) ≠ some m := by
    intro m hm hl
    exact hm (Option.some.inj hl).symm
  unfold Proxy.armResume
  dsimp only
  split
  · rename_i hskip
    -- it does nothing: then there is no need
    refine ⟨h.nodup, h.mem, ?_, h.posted, h.resuming, h.waiting, h.home⟩
    intro hs m _ hp hpend
    by_cases hm : m = l
    · subst hm
      rcases hskip with hstop | harmed | hnone | hfull | hmany
      · rw [hs] at hstop
        cases hstop
      · exact Or.inl harmed
      · exact absurd hnone hp
      · rw [hbytes hpend] at hfull
        exact absurd hfull (Nat.not_lt_zero _)
      · rw [hpend] at hmany
        exact absurd hmany (Nat.not_lt_zero _)
    · exact h.armed hs m (hother m hm) hp hpend
  · rename_i harm
    have hfalse : (s.links l).resumeArmed = false := by
      cases hr : (s.links l).resumeArmed with
      | false => rfl
      | true => exact absurd (Or.inr (Or.inl hr)) harm
    have hat := fun {β : Type} =>
      @State.setLink_field ρ β s l { s.links l with resumeArmed := true }
    have hr := hat (·.ready) rfl
    have hp := hat (·.paused) rfl
    refine ⟨?_, ?_, ?_, ?_, ?_, ?_, ?_⟩
    · intro m
      show ((s.setLink l _).links m).ready.Nodup
      rw [hr]
      exact h.nodup m
    · intro m sid
      show sid ∈ ((s.setLink l _).links m).ready ↔ sid ∈ ((s.setLink l _).links m).paused
      rw [hr, hp]
      exact h.mem m sid
    · intro hs m _ hpm hpend
      have hpm : ((s.setLink l _).links m).paused ≠ ∅ := hpm
      have hpend : ((s.setLink l _).links m).pending = [] := hpend
      show ((s.setLink l _).links m).resumeArmed = true ∨ ((s.setLink l _).links m).resuming = true
      by_cases hm : m = l
      · subst hm
        rw [State.setLink_self]
        exact Or.inl rfl
      · rw [State.setLink_ne s hm] at hpm hpend ⊢
        exact h.armed hs m (hother m hm) hpm hpend
    · intro m
      show (s.posted ++ [l]).count m = if ((s.setLink l _).links m).resumeArmed then 1 else 0
      rw [List.count_append, h.posted m]
      by_cases hm : m = l
      · subst hm
        rw [State.setLink_self, hfalse]
        simp
      · rw [State.setLink_ne s hm, List.count_singleton]
        simp [Ne.symm hm]
    · intro m
      show ((s.setLink l _).links m).resuming = true ↔ s.loop.link = some m
      rw [hat (·.resuming) rfl]
      exact h.resuming m
    · intro sid hc hread
      show sid ∈ ((s.setLink l _).links (s.sessions sid).link).paused ∨ turn = some sid
      rw [hp]
      exact h.waiting sid hc hread
    · intro m sid hm
      have hm : sid ∈ ((s.setLink l _).links m).paused := hm
      rw [hp] at hm
      exact h.home m sid hm

/-- `Pause` gives the session its place. -/
theorem pause {cfg : Config} {sid : Nat} (h : Turns (some sid) none s) (hsid : sid < s.count)
    (hread : (s.sessions sid).readPaused = true)
    (hbytes : ∀ l, (s.links l).pending = [] → (s.links l).pendingBytes = 0) :
    Turns none none (Proxy.pause cfg (s.sessions sid).link sid s) := by
  obtain ⟨l, hl⟩ : ∃ l, (s.sessions sid).link = l := ⟨_, rfl⟩
  rw [hl]
  -- once it has its place, the rest is `ArmResume`, unless `Resume` runs
  have hend : ∀ {t : State ρ}, Turns none (some l) t →
      ((t.links l).pending = [] → (t.links l).pendingBytes = 0) →
      Turns none none (if (t.links l).resuming then t else Proxy.armResume cfg l t) := by
    intro t ht hb
    split
    · rename_i hresuming
      refine ⟨ht.nodup, ht.mem, ?_, ht.posted, ht.resuming, ht.waiting, ht.home⟩
      intro hs m _ hp hpend
      by_cases hm : m = l
      · rw [hm]
        exact Or.inr hresuming
      · exact ht.armed hs m (fun he => hm (Option.some.inj he).symm) hp hpend
    · exact ht.armResume hb
  unfold Proxy.pause
  dsimp only
  apply hend
  · split
    · rename_i hin
      refine ⟨h.nodup, h.mem, fun hs m _ => h.armed hs m (by simp), h.posted, h.resuming, ?_, h.home⟩
      intro m hc hr
      rcases h.waiting m hc hr with hw | hw
      · exact Or.inl hw
      · obtain rfl := Option.some.inj hw
        rw [hl]
        exact Or.inl hin
    · rename_i hout
      have hnot : sid ∉ (s.links l).ready := fun hr => hout ((h.mem l sid).1 hr)
      refine ⟨?_, ?_, ?_, ?_, ?_, ?_, ?_⟩
      · intro m
        by_cases hm : m = l
        · subst hm
          rw [State.setLink_self]
          show ((s.links m).ready ++ [sid]).Nodup
          rw [List.nodup_append]
          refine ⟨h.nodup m, List.nodup_singleton sid, ?_⟩
          intro a ha b hb hab
          rw [hab, List.mem_singleton.1 hb] at ha
          exact hnot ha
        · rw [State.setLink_ne s hm]
          exact h.nodup m
      · intro m x
        by_cases hm : m = l
        · subst hm
          rw [State.setLink_self]
          show x ∈ (s.links m).ready ++ [sid] ↔ x ∈ insert sid (s.links m).paused
          rw [List.mem_append, List.mem_singleton, Finset.mem_insert, h.mem m x, or_comm]
        · rw [State.setLink_ne s hm]
          exact h.mem m x
      · intro hs m hlm hp hpend
        have hm : m ≠ l := fun he => hlm (congrArg some he.symm)
        rw [State.setLink_ne s hm] at hp hpend ⊢
        exact h.armed hs m (by simp) hp hpend
      · intro m
        by_cases hm : m = l
        · subst hm
          rw [State.setLink_self]
          exact h.posted m
        · rw [State.setLink_ne s hm]
          exact h.posted m
      · intro m
        by_cases hm : m = l
        · subst hm
          rw [State.setLink_self]
          exact h.resuming m
        · rw [State.setLink_ne s hm]
          exact h.resuming m
      · intro m hc hr
        left
        rw [State.setLink_sessions] at hc hr ⊢
        by_cases hm : (s.sessions m).link = l
        · rw [hm, State.setLink_self]
          show m ∈ insert sid (s.links l).paused
          rcases h.waiting m hc hr with hw | hw
          · rw [hm] at hw
            exact Finset.mem_insert_of_mem hw
          · rw [Option.some.inj hw]
            exact Finset.mem_insert_self m _
        · rw [State.setLink_ne s hm]
          rcases h.waiting m hc hr with hw | hw
          · exact hw
          · rw [← Option.some.inj hw] at hm
            exact absurd hl hm
      · intro m x hx
        by_cases hm : m = l
        · subst hm
          rw [State.setLink_self] at hx
          rcases Finset.mem_insert.1 hx with rfl | hx
          · exact ⟨hl, hsid, hread⟩
          · exact h.home m x hx
        · rw [State.setLink_ne s hm] at hx
          exact h.home m x hx
  · split
    · exact hbytes l
    · rw [State.setLink_self]
      exact hbytes l

/-- A session whose reading is paused. -/
theorem pauseRead {cfg : Config} {sid : Nat} (h : Turns none none s) (hsid : sid < s.count)
    (hbytes : ∀ l, (s.links l).pending = [] → (s.links l).pendingBytes = 0) :
    Turns none none (Proxy.pauseRead cfg sid s) := by
  have hset : Turns (some sid) none
      (s.setSession sid { s.sessions sid with readPaused := true, reading := false }) :=
    h.setSession rfl (fun _ _ ht => (by cases ht)) (fun _ _ => Or.inr rfl) (fun _ _ => rfl)
  have hpause := @Turns.pause _ _ cfg sid hset hsid (by rw [State.setSession_self]) hbytes
  rw [State.setSession_self] at hpause
  exact hpause

end Turns

/-! ## What one session's input can touch -/

/-- Only the session and its link change; nobody leaves the queue. -/
structure Local (sid l : Nat) (s s' : State ρ) : Prop where
  links : ∀ m, m ≠ l → s'.links m = s.links m
  sessions : ∀ m, m ≠ sid → s'.sessions m = s.sessions m
  link : (s'.sessions sid).link = (s.sessions sid).link
  loop : s'.loop = s.loop
  stopRequested : s'.stopRequested = s.stopRequested
  count : s'.count = s.count
  accepted : (s.sessions sid).accepted <+: (s'.sessions sid).accepted
  closed : (s.sessions sid).closed = true → (s'.sessions sid).closed = true
  ready : (s.links l).ready <+: (s'.links l).ready
  resuming : (s'.links l).resuming = (s.links l).resuming

namespace Local

variable {sid l : Nat} {s t u : State ρ}

theorem refl (sid l : Nat) (s : State ρ) : Local sid l s s :=
  ⟨fun _ _ => rfl, fun _ _ => rfl, rfl, rfl, rfl, rfl, List.prefix_rfl, id, List.prefix_rfl, rfl⟩

theorem trans (h : Local sid l s t) (h' : Local sid l t u) : Local sid l s u where
  links := fun m hm => (h'.links m hm).trans (h.links m hm)
  sessions := fun m hm => (h'.sessions m hm).trans (h.sessions m hm)
  link := h'.link.trans h.link
  loop := h'.loop.trans h.loop
  stopRequested := h'.stopRequested.trans h.stopRequested
  count := h'.count.trans h.count
  accepted := h.accepted.trans h'.accepted
  closed := fun hc => h'.closed (h.closed hc)
  ready := h.ready.trans h'.ready
  resuming := h'.resuming.trans h.resuming

end Local

variable {l sid : Nat} {s s' : State ρ} {cfg : Config} {command : List UInt8}

/-- A change of the session. -/
theorem local_setSession {v : Session ρ} (hlink : v.link = (s.sessions sid).link)
    (hacc : (s.sessions sid).accepted <+: v.accepted)
    (hclosed : (s.sessions sid).closed = true → v.closed = true) :
    Local sid l s (s.setSession sid v) := by
  refine ⟨fun _ _ => rfl, fun m hm => State.setSession_ne s hm v, ?_, rfl, rfl, rfl, ?_, ?_,
    List.prefix_rfl, rfl⟩
  · rw [State.setSession_self, hlink]
  · rw [State.setSession_self]
    exact hacc
  · intro hc
    rw [State.setSession_self]
    exact hclosed hc

variable {k : Link}

/-- A change of the link. -/
theorem local_setLink (hready : (s.links l).ready <+: k.ready)
    (hres : k.resuming = (s.links l).resuming) : Local sid l s (s.setLink l k) := by
  refine ⟨fun m hm => State.setLink_ne s hm k, fun _ _ => rfl, rfl, rfl, rfl, rfl, List.prefix_rfl, id,
    ?_, ?_⟩
  · rw [State.setLink_self]
    exact hready
  · rw [State.setLink_self, hres]

theorem local_armResume (cfg : Config) (sid l : Nat) (s : State ρ) :
    Local sid l s (armResume cfg l s) := by
  unfold armResume
  dsimp only
  split
  · exact Local.refl sid l s
  · have h : Local sid l s (s.setLink l { s.links l with resumeArmed := true }) :=
      local_setLink List.prefix_rfl rfl
    exact ⟨h.links, h.sessions, h.link, h.loop, h.stopRequested, h.count, h.accepted, h.closed,
      h.ready, h.resuming⟩

theorem local_pauseRead (cfg : Config) (sid : Nat) (s : State ρ) :
    Local sid (s.sessions sid).link s (pauseRead cfg sid s) := by
  have hset : Local sid (s.sessions sid).link s
      (s.setSession sid { s.sessions sid with readPaused := true, reading := false }) :=
    local_setSession rfl List.prefix_rfl id
  refine hset.trans ?_
  have harm : ∀ {t u : State ρ}, Local sid (s.sessions sid).link t u →
      Local sid (s.sessions sid).link t
        (if (u.links (s.sessions sid).link).resuming then u
          else armResume cfg (s.sessions sid).link u) := by
    intro t u hu
    split
    · exact hu
    · exact hu.trans (local_armResume cfg sid _ u)
  unfold pauseRead pause
  dsimp only
  apply harm
  split
  · exact Local.refl sid _ _
  · exact local_setLink (List.prefix_append _ _) rfl

theorem local_closeSession (sid l : Nat) (s : State ρ) : Local sid l s (closeSession sid s) :=
  local_setSession rfl List.prefix_rfl fun _ => rfl

theorem local_answer (sid l : Nat) (a : Answer ρ) (sendOk : Bool) (s : State ρ) :
    Local sid l s (answer sid a sendOk s) := by
  unfold answer
  split
  · exact local_setSession rfl List.prefix_rfl id
  · exact local_closeSession sid l s

theorem local_accept (sid l : Nat) (command : List UInt8) (s : State ρ) :
    Local sid l s (accept sid command s) :=
  local_setSession rfl (List.prefix_append _ _) id

theorem Issued.locality {ok : Bool} (h : Issued cfg sid command s s' ok) :
    Local sid (s.sessions sid).link s s' := by
  cases h with
  | closed => exact local_closeSession sid _ s
  | down sendOk hup => exact (local_accept sid _ command s).trans (local_answer sid _ _ sendOk _)
  | refused hup hsize hroom => exact Local.refl sid _ s
  | handed hup hturn hcommands hbytes =>
    have hlink : Local sid (s.sessions sid).link s (s.setLink (s.sessions sid).link
        { (s.links (s.sessions sid).link).push sid command.length with
          handed := (s.links (s.sessions sid).link).handed ++
            [⟨sid, (s.sessions sid).accepted.length, command⟩] }) :=
      local_setLink List.prefix_rfl rfl
    exact hlink.trans (local_accept sid _ command _)

/-- `Issue` leaves the turns as they are. -/
theorem Turns.issued {ok : Bool} (h : Turns none none s) (hi : Issued cfg sid command s s' ok) :
    Turns none none s' := by
  cases hi with
  | closed => exact h.closeSession sid
  | down sendOk hup => exact (h.accept sid command).answer sid _ sendOk
  | refused hup hsize hroom => exact h
  | handed hup hturn hcommands hbytes =>
    refine Turns.accept ?_ sid command
    refine h.setLink rfl rfl rfl rfl (fun _ _ hl => hl) ?_
    intro _ _ _ hnil
    exact absurd hnil (List.append_ne_nil_of_right_ne_nil _ (List.cons_ne_nil _ _))

/-- What holds within `ProcessInput`. -/
structure Reading (cfg : Config) (sid : Nat) (s₀ : State ρ) (rest : List UInt8) (s : State ρ) :
    Prop where
  feeding : Feeding cfg sid rest s
  turns : Turns none none s
  locality : Local sid (s₀.sessions sid).link s₀ s

theorem Link.Matched.bytes_zero (h : k.Matched cfg) (hnil : k.pending = []) :
    k.pendingBytes = 0 := by
  rw [h.bytes, hnil]
  rfl

namespace Reading

variable {s₀ : State ρ} {rest : List UInt8}

theorem close (h : Reading cfg sid s₀ rest s) : Reading cfg sid s₀ rest (closeSession sid s) :=
  ⟨h.feeding.close rest, h.turns.closeSession sid, h.locality.trans (local_closeSession sid _ s)⟩

theorem pause (h : Reading cfg sid s₀ rest s) (hopen : (s.sessions sid).closed = false) :
    Reading cfg sid s₀ rest (pauseRead cfg sid s) := by
  have hf := h.feeding.forwarding
  refine ⟨h.feeding.quiet (quiet_pauseRead cfg sid s),
    h.turns.pauseRead (hf.known sid hopen) fun l hnil => (hf.link l).bytes_zero hnil, ?_⟩
  have hlocal := local_pauseRead cfg sid s
  rw [h.locality.link] at hlocal
  exact h.locality.trans hlocal

theorem issue {size : Nat} (h : Reading cfg sid s₀ rest s) (hopen : (s.sessions sid).closed = false)
    (hi : Issued cfg sid (rest.take size) s s' true) :
    Reading cfg sid s₀ (if (s'.sessions sid).closed then rest else rest.drop size) s' := by
  refine ⟨h.feeding.issue hopen hi, h.turns.issued hi, ?_⟩
  have hlocal := hi.locality
  rw [h.locality.link] at hlocal
  exact h.locality.trans hlocal

end Reading

/-- `ProcessInput` of a session that is not paused. -/
theorem reading_processLoop (h : Sound cfg s) (ht : Turns none none s)
    (hopen : (s.sessions sid).closed = false) (env : Nat → IssueEnv) (budget : Nat) :
    Reading cfg sid s (processLoop cfg sid env budget (s.sessions sid).buffer s).1
      (processLoop cfg sid env budget (s.sessions sid).buffer s).2 := by
  have hstart : Reading cfg sid s (s.sessions sid).buffer s :=
    ⟨⟨h.forwarding, h.flushed, h.fed sid, fun m _ => h.fed m⟩, ht, Local.refl sid _ s⟩
  refine processLoop_rule ?_ ?_ ?_ budget hstart hopen
  · intro rest t hr _
    exact hr.close
  · intro rest t hr hc
    exact hr.pause hc
  · intro rest t t' size count hr hc _ hi
    exact hr.issue hc hi

/-- `ProcessInput` keeps the turns, and touches its own session and link only. -/
theorem Turns.processInput (ht : Turns none none s) (h : Sound cfg s) (sid budget : Nat)
    (env : Nat → IssueEnv) :
    Turns none none (Proxy.processInput cfg sid budget env s).1 ∧
    Local sid (s.sessions sid).link s (Proxy.processInput cfg sid budget env s).1 := by
  unfold Proxy.processInput
  dsimp only
  split
  · exact ⟨ht, Local.refl sid _ s⟩
  rename_i hready
  have hopen := open_of_ready hready
  have hr := reading_processLoop h ht hopen env budget
  generalize processLoop cfg sid env budget (s.sessions sid).buffer s = r at hr ⊢
  obtain ⟨rest, t⟩ := r
  dsimp only at hr ⊢
  exact ⟨hr.turns.setSessionSame rfl rfl rfl,
    hr.locality.trans (local_setSession rfl List.prefix_rfl id)⟩

/-! ## The turns over the steps outside `Resume` -/

namespace Turns

variable {turn loose : Option Nat}

/-- A new session waits for nothing. -/
theorem addSession (h : Turns turn loose s) (l : Nat) :
    Turns turn loose { s.setSession s.count { link := l, closed := false, deleted := false } with
      count := s.count + 1
      next := s.next + 1 } := by
  refine ⟨h.nodup, h.mem, h.armed, h.posted, h.resuming, ?_, ?_⟩
  · intro m hc hr
    have hc : ((s.setSession s.count _).sessions m).closed = false := hc
    have hr : ((s.setSession s.count _).sessions m).readPaused = true := hr
    show m ∈ (s.links ((s.setSession s.count _).sessions m).link).paused ∨ turn = some m
    by_cases hm : m = s.count
    · rw [hm, State.setSession_self] at hr
      cases hr
    · rw [State.setSession_ne s hm] at hc hr ⊢
      exact h.waiting m hc hr
  · intro k m hm
    obtain ⟨hl, hcount, hr⟩ := h.home k m hm
    show ((s.setSession s.count _).sessions m).link = k ∧ m < s.count + 1 ∧
      ((s.setSession s.count _).sessions m).readPaused = true
    rw [State.setSession_ne s (Nat.ne_of_lt hcount)]
    exact ⟨hl, Nat.lt_succ_of_lt hcount, hr⟩

/-- `OnDelSession` takes a closed session out of every queue. -/
theorem forget (h : Turns turn loose s) {sid : Nat} (hclosed : (s.sessions sid).closed = true) :
    Turns turn loose { s.setSession sid { s.sessions sid with deleted := true } with
      links := fun l => (s.links l).forget sid } := by
  have hv : ∀ m, ((s.setSession sid { s.sessions sid with deleted := true }).sessions m).closed =
        (s.sessions m).closed ∧
      ((s.setSession sid { s.sessions sid with deleted := true }).sessions m).readPaused =
        (s.sessions m).readPaused ∧
      ((s.setSession sid { s.sessions sid with deleted := true }).sessions m).link =
        (s.sessions m).link := by
    intro m
    by_cases hm : m = sid
    · rw [hm, State.setSession_self]
      exact ⟨rfl, rfl, rfl⟩
    · rw [State.setSession_ne s hm]
      exact ⟨rfl, rfl, rfl⟩
  refine ⟨?_, ?_, ?_, h.posted, h.resuming, ?_, ?_⟩
  · intro l
    exact (h.nodup l).filter _
  · intro l m
    show m ∈ (s.links l).ready.filter _ ↔ m ∈ (s.links l).paused.erase sid
    rw [List.mem_filter, Finset.mem_erase, h.mem l m, decide_eq_true_iff, and_comm]
  · intro hs l hl hp hpend
    apply h.armed hs l hl _ hpend
    intro hnone
    apply hp
    show (s.links l).paused.erase sid = ∅
    rw [hnone]
    rfl
  · intro m hc hr
    obtain ⟨hvc, hvr, hvl⟩ := hv m
    rw [hvc] at hc
    rw [hvr] at hr
    show m ∈ (s.links ((s.setSession sid _).sessions m).link).paused.erase sid ∨ turn = some m
    rw [hvl]
    rcases h.waiting m hc hr with hw | hw
    · left
      rw [Finset.mem_erase]
      refine ⟨?_, hw⟩
      rintro rfl
      rw [hclosed] at hc
      cases hc
    · exact Or.inr hw
  · intro l m hm
    obtain ⟨-, hvr, hvl⟩ := hv m
    obtain ⟨hl, hcount, hr⟩ := h.home l m (Finset.mem_of_mem_erase hm)
    exact ⟨hvl.trans hl, hcount, hvr.trans hr⟩

/-- A reply gives credit back, and arms `Resume` where it is needed. -/
theorem onReply {l : Nat} {x : Handed} {rest : List Handed} (h : Turns turn none s)
    (hm : (s.links l).Matched cfg) (hhanded : (s.links l).handed = x :: rest) (body : Option ρ)
    (sendOk : Bool) : Turns turn none (Proxy.onReply cfg l body sendOk s) := by
  rw [onReply_eq hm hhanded]
  have hpop : Turns turn (some l) (s.setLink l (s.links l).pop) := by
    refine h.setLink rfl rfl rfl rfl (fun _ _ _ => by simp) ?_
    intro _ hl
    exact absurd rfl hl
  refine (hpop.armResume ?_).answer _ _ _
  rw [State.setLink_self]
  exact (hm.pop hhanded).bytes_zero

theorem flush {cfg : Config} {l : Nat} {send : Nat → Bool} (n : Nat) :
    ∀ {s : State ρ}, Forwarding cfg [] s → Turns turn none s → (s.links l).handed.length = n →
      Turns turn none (Proxy.flush cfg l send n s) := by
  induction n with
  | zero =>
    intro s _ h _
    exact h
  | succ n ih =>
    intro s hf h hlen
    obtain ⟨x, rest, hhanded⟩ := List.exists_cons_of_length_eq_add_one hlen
    rw [hhanded, List.length_cons] at hlen
    apply ih (hf.onReply hhanded none (send n)) (h.onReply (hf.link l) hhanded none (send n))
    rw [(onReply_links (hf.link l) hhanded none (send n)).1]
    omega

/-- The connection goes up or down. -/
theorem setUp (h : Turns turn none s) (l : Nat) (up dialing : Bool) :
    Turns turn none (s.setLink l { s.links l with up := up, dialing := dialing }) :=
  h.setLink rfl rfl rfl rfl (fun _ _ hl => hl) fun hs hl hp hpend => h.armed hs l hl hp hpend

theorem connectFailed (h : Turns turn none s) (hf : Forwarding cfg [] s) (l : Nat)
    (send : Nat → Bool) : Turns turn none (Proxy.connectFailed cfg l send s) := by
  refine Turns.flush _ (hf.setLink rfl rfl rfl) (h.setUp l false true) ?_
  unfold linkDown
  rw [State.setLink_self]

theorem dial (h : Turns turn none s) (l : Nat) (ok : Bool) : Turns turn none (Proxy.dial l ok s) := by
  unfold Proxy.dial
  dsimp only
  split
  · exact h.setUp l (s.links l).up false
  · exact h.setUp l ok (!ok)

theorem dataIn (h : Turns none none s) (hsound : Sound cfg s) (sid : Nat) (chunk : List UInt8)
    (env : Nat → IssueEnv) :
    Turns none none (Proxy.dataIn cfg sid chunk env s) ∧
    Local sid (s.sessions sid).link s (Proxy.dataIn cfg sid chunk env s) := by
  have hin := hsound.received sid chunk
  have hset : Turns none none (s.setSession sid { s.sessions sid with
      buffer := (s.sessions sid).buffer ++ chunk
      received := (s.sessions sid).received ++ chunk }) := h.setSessionSame rfl rfl rfl
  obtain ⟨hturns, hlocal⟩ := hset.processInput hin sid 32 env
  rw [State.setSession_self] at hlocal
  have hstart : Local sid (s.sessions sid).link s (s.setSession sid { s.sessions sid with
      buffer := (s.sessions sid).buffer ++ chunk
      received := (s.sessions sid).received ++ chunk }) := local_setSession rfl List.prefix_rfl id
  exact ⟨hturns, hstart.trans hlocal⟩

end Turns

/-! ## The turns over `Resume` -/

/-- What `Resume` relies on while it runs. -/
def Phase (s : State ρ) : Prop :=
  match s.loop with
  | .idle => True
  | .resuming l remaining progress => progress = false → (s.links l).ready.length ≤ remaining
  | .taken l remaining progress sid =>
      (progress = false → (s.links l).ready.length ≤ remaining) ∧ sid ∉ (s.links l).paused ∧
        (s.sessions sid).link = l ∧ sid < s.count
  | .resumed l remaining progress sid consumed =>
      (consumed = true → progress = true) ∧
        (progress = false → (sid ∈ (s.links l).paused → (s.links l).pending ≠ []) ∧
          (sid ∉ (s.links l).paused → (s.links l).ready.length ≤ remaining))

namespace Turns

variable {turn loose : Option Nat}

/-- `Resume` goes on, on its link. -/
theorem setLoop (h : Turns turn loose s) {loop : Loop} (hlink : loop.link = s.loop.link) :
    Turns turn loose { s with loop := loop } := by
  refine ⟨h.nodup, h.mem, h.armed, h.posted, ?_, h.waiting, h.home⟩
  intro m
  show (s.links m).resuming = true ↔ loop.link = some m
  rw [hlink]
  exact h.resuming m

/-- `Resume` starts: it was posted once, and is not posted any more. -/
theorem startResume (h : Turns turn none s) (hidle : s.loop = .idle) {l : Nat} {posted : List Nat}
    (hposted : s.posted = l :: posted) :
    Turns turn none (Proxy.startResume l { s with posted := posted }) := by
  have hlinks : (Proxy.startResume l { s with posted := posted }).links =
      (s.setLink l { s.links l with resumeArmed := false, resuming := true }).links := rfl
  have hat : ∀ {β : Type} (f : Link → β),
      f { s.links l with resumeArmed := false, resuming := true } = f (s.links l) →
      ∀ m, f ((Proxy.startResume l { s with posted := posted }).links m) = f (s.links m) := by
    intro β f hf m
    rw [hlinks]
    exact s.setLink_field f hf m
  have hr := hat (·.ready) rfl
  have hp := hat (·.paused) rfl
  have hcount : (l :: posted).count l = 1 := by
    have := h.posted l
    rw [hposted] at this
    split at this
    · exact this
    · rw [List.count_cons_self] at this
      cases this
  refine ⟨?_, ?_, ?_, ?_, ?_, ?_, ?_⟩
  · intro m
    rw [hr]
    exact h.nodup m
  · intro m sid
    rw [hr, hp]
    exact h.mem m sid
  · intro hs m hl hpm hpend
    rw [hp] at hpm
    rw [hat (·.pending) rfl] at hpend
    rw [hlinks]
    by_cases hm : m = l
    · rw [hm, State.setLink_self]
      exact Or.inr rfl
    · rw [State.setLink_ne s hm]
      exact h.armed hs m hl hpm hpend
  · intro m
    rw [hlinks]
    show posted.count m = _
    by_cases hm : m = l
    · rw [hm, State.setLink_self]
      rw [List.count_cons_self] at hcount
      exact Nat.succ.inj hcount
    · have hold := h.posted m
      rw [hposted, List.count_cons_of_ne (Ne.symm hm)] at hold
      rw [State.setLink_ne s hm]
      exact hold
  · intro m
    rw [hlinks]
    show _ ↔ some l = some m
    by_cases hm : m = l
    · rw [hm, State.setLink_self]
      exact ⟨fun _ => rfl, fun _ => rfl⟩
    · rw [State.setLink_ne s hm]
      have hold := h.resuming m
      rw [hidle] at hold
      refine ⟨fun hres => absurd (hold.1 hres) (by simp [Loop.link]), ?_⟩
      intro hl
      exact absurd (Option.some.inj hl).symm hm
  · intro sid hc hread
    rw [hp]
    exact h.waiting sid hc hread
  · intro m sid hm
    rw [hp] at hm
    exact h.home m sid hm

/-- A paused session goes back to the front. -/
theorem front {l sid : Nat} (h : Turns turn loose s) (hin : sid ∈ (s.links l).paused) :
    Turns turn loose (s.setLink l { s.links l with
      ready := sid :: (s.links l).ready.filter (fun m => decide (m ≠ sid)) }) := by
  have hat := fun {β : Type} => @State.setLink_field ρ β s l { s.links l with
    ready := sid :: (s.links l).ready.filter (fun m => decide (m ≠ sid)) }
  have hp := hat (·.paused) rfl
  refine ⟨?_, ?_, ?_, ?_, ?_, ?_, ?_⟩
  · intro m
    by_cases hm : m = l
    · rw [hm, State.setLink_self]
      refine List.nodup_cons.2 ⟨?_, (h.nodup l).filter _⟩
      intro hmem
      simp at hmem
    · rw [State.setLink_ne s hm]
      exact h.nodup m
  · intro m x
    rw [hp]
    by_cases hm : m = l
    · rw [hm, State.setLink_self, ← h.mem l x]
      have hmem := (h.mem l sid).2 hin
      by_cases hx : x = sid
      · simp [hx, hmem]
      · simp [hx]
    · rw [State.setLink_ne s hm]
      exact h.mem m x
  · intro hs m hl hpm hpend
    rw [hp] at hpm
    rw [hat (·.pending) rfl] at hpend
    rw [hat (·.resumeArmed) rfl, hat (·.resuming) rfl]
    exact h.armed hs m hl hpm hpend
  · intro m
    rw [hat (·.resumeArmed) rfl]
    exact h.posted m
  · intro m
    rw [hat (·.resuming) rfl]
    exact h.resuming m
  · intro x hc hread
    rw [hp]
    exact h.waiting x hc hread
  · intro m x hx
    rw [hp] at hx
    exact h.home m x hx

/-- `Resume` ends.  Without progress, nobody may wait for it. -/
theorem finishResume {cfg : Config} {l : Nat} {progress : Bool} (h : Turns turn none s)
    (hlink : s.loop.link = some l) (hm : (s.links l).Matched cfg)
    (hend : progress = false → (s.links l).paused ≠ ∅ → (s.links l).pending ≠ []) :
    Turns turn none (Proxy.finishResume cfg l progress s) := by
  have hat := fun {β : Type} =>
    @State.setLink_field ρ β s l { s.links l with resuming := false }
  have hr := hat (·.ready) rfl
  have hp := hat (·.paused) rfl
  -- all but the promise that a `Resume` comes for this link
  have hloose : Turns turn (some l)
      { s.setLink l { s.links l with resuming := false } with loop := .idle } := by
    refine ⟨?_, ?_, ?_, ?_, ?_, ?_, ?_⟩
    · intro m
      show ((s.setLink l _).links m).ready.Nodup
      rw [hr]
      exact h.nodup m
    · intro m sid
      show sid ∈ ((s.setLink l _).links m).ready ↔ sid ∈ ((s.setLink l _).links m).paused
      rw [hr, hp]
      exact h.mem m sid
    · intro hs m hl hpm hpend
      have hml : m ≠ l := fun he => hl (congrArg some he.symm)
      have hpm : ((s.setLink l _).links m).paused ≠ ∅ := hpm
      have hpend : ((s.setLink l _).links m).pending = [] := hpend
      show ((s.setLink l _).links m).resumeArmed = true ∨ ((s.setLink l _).links m).resuming = true
      rw [State.setLink_ne s hml] at hpm hpend ⊢
      exact h.armed hs m (by simp) hpm hpend
    · intro m
      show s.posted.count m = if ((s.setLink l _).links m).resumeArmed then 1 else 0
      rw [hat (·.resumeArmed) rfl]
      exact h.posted m
    · intro m
      show ((s.setLink l _).links m).resuming = true ↔ none = some m
      by_cases hml : m = l
      · rw [hml, State.setLink_self]
        simp
      · rw [State.setLink_ne s hml, h.resuming m, hlink]
        simp [Ne.symm hml]
    · intro sid hc hread
      show sid ∈ ((s.setLink l _).links (s.sessions sid).link).paused ∨ turn = some sid
      rw [hp]
      exact h.waiting sid hc hread
    · intro m sid hms
      have hms : sid ∈ ((s.setLink l _).links m).paused := hms
      rw [hp] at hms
      exact h.home m sid hms
  unfold Proxy.finishResume
  dsimp only
  split
  · refine hloose.armResume ?_
    intro hnil
    have hnil : ((s.setLink l _).links l).pending = [] := hnil
    show ((s.setLink l _).links l).pendingBytes = 0
    rw [State.setLink_self] at hnil ⊢
    exact hm.bytes_zero hnil
  · rename_i hprogress
    refine ⟨hloose.nodup, hloose.mem, ?_, hloose.posted, hloose.resuming, hloose.waiting, hloose.home⟩
    intro hs m _ hpm hpend
    by_cases hml : m = l
    · rw [hml] at hpm hpend
      have hpm : ((s.setLink l _).links l).paused ≠ ∅ := hpm
      have hpend : ((s.setLink l _).links l).pending = [] := hpend
      rw [State.setLink_self] at hpm hpend
      exact absurd hpend (hend (by simpa using hprogress) hpm)
    · exact hloose.armed hs m (fun he => hml (Option.some.inj he).symm) hpm hpend

end Turns

/-! ## One turn -/

/-- What the turn of an open session comes to: `ResumeRead` from `s` to `s'`. -/
inductive TurnTaken (cfg : Config) (sid : Nat) (s s' : State ρ) : Bool → Prop
  /-- Its command is taken. -/
  | took (haccepted : (s'.sessions sid).accepted.length = (s.sessions sid).accepted.length + 1) :
      TurnTaken cfg sid s s' true
  | closed (hlinks : s'.links = s.links) (hclosed : (s'.sessions sid).closed = true) :
      TurnTaken cfg sid s s' false
  /-- There is no whole command yet. -/
  | more (hscan : scanCommand cfg.maxPendingBytes (s.sessions sid).buffer = .more)
      (hlinks : s'.links = s.links) : TurnTaken cfg sid s s' false
  /-- Its command does not fit. -/
  | refused (size count : Nat)
      (hscan : scanCommand cfg.maxPendingBytes (s.sessions sid).buffer = .command size count)
      (hsize : size ≤ cfg.maxPendingBytes)
      (hfull : cfg.maxPendingCommands ≤ (s.links (s.sessions sid).link).pending.length ∨
        cfg.maxPendingBytes - (s.links (s.sessions sid).link).pendingBytes < size)
      (hquiet : Quiet s s') (hread : (s'.sessions sid).readPaused = true) :
      TurnTaken cfg sid s s' false

/-- A session that is still open after `Issue` has given one command. -/
theorem Issued.accepted (h : Issued cfg sid command s s' true)
    (hopen : (s'.sessions sid).closed = false) :
    (s'.sessions sid).accepted.length = (s.sessions sid).accepted.length + 1 := by
  have haccept : ∀ t : State ρ, ((accept sid command t).sessions sid).accepted.length =
      (t.sessions sid).accepted.length + 1 := by
    intro t
    unfold accept
    rw [State.setSession_self]
    exact List.length_append
  cases h with
  | closed =>
    unfold closeSession at hopen
    rw [State.setSession_self] at hopen
    cases hopen
  | down sendOk hup =>
    unfold answer closeSession at hopen ⊢
    split at hopen
    · rename_i hsend
      rw [if_pos hsend, State.setSession_self]
      exact haccept s
    · rw [State.setSession_self] at hopen
      cases hopen
  | handed hup hturn hcommands hbytes =>
    rw [haccept]
    rfl

/-- The links do not change where the session is closed. -/
theorem Issued.links_of_closed (h : Issued cfg sid command s s' true)
    (hopen : (s.sessions sid).closed = false) (hclosed : (s'.sessions sid).closed = true) :
    s'.links = s.links := by
  cases h with
  | closed => rfl
  | down sendOk hup => rw [answer_links, accept, State.setSession_links]
  | handed hup hturn hcommands hbytes =>
    unfold accept at hclosed
    rw [State.setSession_self] at hclosed
    have hclosed : (s.sessions sid).closed = true := hclosed
    rw [hopen] at hclosed
    cases hclosed

theorem pauseRead_readPaused (cfg : Config) (sid : Nat) (s : State ρ) :
    ((pauseRead cfg sid s).sessions sid).readPaused = true := by
  have hsessions : ∀ (l m : Nat) (t : State ρ), (pause cfg l m t).sessions = t.sessions := by
    intro l m t
    unfold pause armResume
    dsimp only
    split <;> split
    · rfl
    · split <;> rfl
    · rfl
    · split <;> rfl
  unfold pauseRead
  rw [hsessions, State.setSession_self]

/-- A change of the reading flags of the session, or of its buffer. -/
theorem TurnTaken.setSession {consumed : Bool} (h : TurnTaken cfg sid s s' consumed) {v : Session ρ}
    (hclosed : v.closed = (s'.sessions sid).closed)
    (haccepted : v.accepted = (s'.sessions sid).accepted)
    (hquiet : Quiet s s' → Quiet s' (s'.setSession sid v))
    (hread : v.readPaused = (s'.sessions sid).readPaused) :
    TurnTaken cfg sid s (s'.setSession sid v) consumed := by
  cases h with
  | took hacc =>
    refine .took ?_
    rw [State.setSession_self, haccepted]
    exact hacc
  | closed hlinks hc =>
    refine .closed hlinks ?_
    rw [State.setSession_self, hclosed]
    exact hc
  | more hscan hlinks => exact .more hscan hlinks
  | refused size count hscan hsize hfull hq hr =>
    refine .refused size count hscan hsize hfull (hq.trans (hquiet hq)) ?_
    rw [State.setSession_self, hread]
    exact hr

/-- `ProcessInput` of an open session that is not paused. -/
theorem processInput_of_open {budget : Nat} {env : Nat → IssueEnv}
    (hopen : (s.sessions sid).closed = false) (hread : (s.sessions sid).readPaused = false) :
    processInput cfg sid budget env s =
      let r := processLoop cfg sid env budget (s.sessions sid).buffer s
      (r.2.setSession sid { r.2.sessions sid with buffer := r.1 },
        (s.sessions sid).buffer.length - r.1.length) := by
  unfold processInput
  simp only [hopen, hread, Bool.or_self, Bool.false_eq_true, if_false]

/-- `ProcessInput` for one command. -/
theorem turnTaken_processInput {cfg : Config} {sid : Nat} {s : State ρ}
    (hopen : (s.sessions sid).closed = false) (hread : (s.sessions sid).readPaused = false)
    (hres : (s.links (s.sessions sid).link).resuming = true) (env : Nat → IssueEnv) :
    TurnTaken cfg sid s (processInput cfg sid 1 env s).1
      (decide ((processInput cfg sid 1 env s).2 ≠ 0)) := by
  have hclosed : ((closeSession sid s).sessions sid).closed = true := by
    unfold closeSession
    rw [State.setSession_self]
  -- nothing is consumed in all but one case
  have hsame : ∀ {t : State ρ}, TurnTaken cfg sid s t false →
      TurnTaken cfg sid s (t.setSession sid { t.sessions sid with buffer := (s.sessions sid).buffer })
        (decide ((s.sessions sid).buffer.length - (s.sessions sid).buffer.length ≠ 0)) := by
    intro t ht
    rw [Nat.sub_self]
    refine ht.setSession rfl rfl ?_ rfl
    intro hq
    exact quiet_setSession (sameTraffic_setSession rfl rfl rfl rfl rfl) (hq.buffer sid).symm
  rw [processInput_of_open hopen hread]
  unfold processLoop
  cases hscan : scanCommand cfg.maxPendingBytes (s.sessions sid).buffer with
  | bad => exact hsame (.closed rfl hclosed)
  | more => exact hsame (.more hscan rfl)
  | command size count =>
    dsimp only
    obtain ⟨hpos, hle⟩ := scanCommand_size hscan
    have htake : ((s.sessions sid).buffer.take size).length = size := by
      rw [List.length_take, Nat.min_eq_left hle]
    split
    · exact hsame (.closed rfl hclosed)
    have hi := issued cfg sid ((s.sessions sid).buffer.take size) (env 0) s
    generalize issue cfg sid ((s.sessions sid).buffer.take size) (env 0) s = r at hi ⊢
    obtain ⟨s', ok⟩ := r
    dsimp only at hi ⊢
    cases ok with
    | false =>
      cases hi with
      | refused hup hsize hroom =>
        rw [htake] at hsize hroom
        refine hsame (.refused size count hscan hsize ?_ (quiet_pauseRead cfg sid s)
          (pauseRead_readPaused cfg sid s))
        -- the link is resuming, so it is the credit
        rcases hroom with ⟨hno, -⟩ | hfull
        · rw [hres] at hno
          cases hno
        · exact hfull
    | true =>
      rw [if_neg (by simp)]
      split
      · rename_i hc
        exact hsame (.closed (hi.links_of_closed hopen hc) hc)
      rename_i hstill
      have hacc := hi.accepted (by simpa using hstill)
      have hconsumed : decide ((s.sessions sid).buffer.length -
          ((s.sessions sid).buffer.drop size).length ≠ 0) = true := by
        rw [List.length_drop, decide_eq_true_iff]
        omega
      split
      · dsimp only
        rw [hconsumed]
        refine .took ?_
        rw [State.setSession_self]
        show ((pauseRead cfg sid s').sessions sid).accepted.length = _
        rw [(quiet_pauseRead cfg sid s').accepted]
        exact hacc
      · unfold processLoop
        dsimp only
        rw [hconsumed]
        refine .took ?_
        rw [State.setSession_self]
        exact hacc

/-- `ResumeRead` of an open session. -/
theorem turnTaken_resumeRead {cfg : Config} {sid : Nat} {s : State ρ}
    (hopen : (s.sessions sid).closed = false)
    (hres : (s.links (s.sessions sid).link).resuming = true) (env : Nat → IssueEnv) :
    TurnTaken cfg sid s (resumeRead cfg sid env s).1 (resumeRead cfg sid env s).2 := by
  have hself := State.setSession_self s sid { s.sessions sid with readPaused := false }
  have hq : Quiet s (s.setSession sid { s.sessions sid with readPaused := false }) :=
    quiet_setSession (sameTraffic_setSession rfl rfl rfl rfl rfl) rfl
  have hturn := @turnTaken_processInput _ cfg sid
    (s.setSession sid { s.sessions sid with readPaused := false }) (by rw [hself]; exact hopen)
    (by rw [hself]) (by rw [hself]; exact hres) env
  generalize hr : processInput cfg sid 1 env
    (s.setSession sid { s.sessions sid with readPaused := false }) = r at hturn
  obtain ⟨t, consumed⟩ := r
  dsimp only at hturn
  have hturn : TurnTaken cfg sid s t (decide (consumed ≠ 0)) := by
    generalize decide (consumed ≠ 0) = c at hturn ⊢
    cases hturn with
    | took hacc =>
      rw [hself] at hacc
      exact .took hacc
    | closed hlinks hc => exact .closed hlinks hc
    | more hscan hlinks =>
      rw [hself] at hscan
      exact .more hscan hlinks
    | refused size count hscan hsize hfull hquiet hread =>
      rw [hself] at hscan hfull
      exact .refused size count hscan hsize hfull (hq.trans hquiet) hread
  have heq : resumeRead cfg sid env s =
      if !(t.sessions sid).readPaused && !(t.sessions sid).closed then
        (t.setSession sid { t.sessions sid with reading := true }, decide (consumed ≠ 0))
      else (t, decide (consumed ≠ 0)) := by
    unfold resumeRead
    dsimp only at hr ⊢
    rw [if_neg (by rw [hopen]; exact Bool.false_ne_true), hr]
  rw [heq]
  split
  · refine hturn.setSession rfl rfl ?_ rfl
    intro _
    exact quiet_setSession (sameTraffic_setSession rfl rfl rfl rfl rfl) rfl
  · exact hturn

/-! ## The whole invariant -/

/-- The invariant of all runs. -/
structure Served (cfg : Config) (s : State ρ) : Prop where
  sound : Sound cfg s
  turns : Turns s.loop.turn none s
  phase : Phase s

theorem served_init (cfg : Config) : Served cfg (State.init : State ρ) :=
  ⟨sound_init cfg, turns_init, trivial⟩

theorem loop_armResume (cfg : Config) (l : Nat) (s : State ρ) : (armResume cfg l s).loop = s.loop := by
  unfold armResume
  dsimp only
  split <;> rfl

theorem loop_finishResume (cfg : Config) (l : Nat) (progress : Bool) (s : State ρ) :
    (finishResume cfg l progress s).loop = .idle := by
  unfold finishResume
  dsimp only
  split
  · exact loop_armResume cfg l _
  · rfl

theorem loop_answer (sid : Nat) (a : Answer ρ) (sendOk : Bool) (s : State ρ) :
    (answer sid a sendOk s).loop = s.loop := by
  unfold answer
  split <;> rfl

theorem loop_onReply (cfg : Config) (l : Nat) (x : Option ρ) (sendOk : Bool) (s : State ρ) :
    (onReply cfg l x sendOk s).loop = s.loop := by
  unfold onReply
  dsimp only
  split
  · rfl
  · split
    · rfl
    · rw [loop_answer]
      exact loop_armResume cfg l _

theorem loop_flush (cfg : Config) (l : Nat) (send : Nat → Bool) (n : Nat) :
    ∀ s : State ρ, (flush cfg l send n s).loop = s.loop := by
  induction n with
  | zero =>
    intro s
    rfl
  | succ n ih =>
    intro s
    exact (ih _).trans (loop_onReply cfg l none (send n) s)

theorem loop_dial (l : Nat) (ok : Bool) (s : State ρ) : (dial l ok s).loop = s.loop := by
  unfold dial
  dsimp only
  split <;> rfl

/-- Where `Resume` is not running there is nothing to say about it. -/
theorem phase_of_idle (h : s.loop = .idle) : Phase s := by
  unfold Phase
  rw [h]
  trivial

/-- A link that has no room has something on its way. -/
theorem pending_ne_nil (hm : k.Matched cfg) {size : Nat} (hsize : size ≤ cfg.maxPendingBytes)
    (hfull : cfg.maxPendingCommands ≤ k.pending.length ∨ cfg.maxPendingBytes - k.pendingBytes < size)
    :
    k.pending ≠ [] := by
  intro hnil
  have hcommands := cfg.commands_min
  rw [hm.bytes_zero hnil, hnil, List.length_nil] at hfull
  omega

/-- The head of the loop of `Resume`. -/
theorem takeReady_cases (cfg : Config) (l remaining : Nat) (progress : Bool) (s : State ρ) :
    ((remaining = 0 ∨ (s.links l).ready = [] ∨
        cfg.maxPendingCommands ≤ (s.links l).pending.length ∨
        cfg.maxPendingBytes ≤ (s.links l).pendingBytes) ∧
      takeReady cfg l remaining progress s = finishResume cfg l progress s) ∨
    ∃ rest sid ready, remaining = rest + 1 ∧ (s.links l).ready = sid :: ready ∧
      takeReady cfg l remaining progress s =
        { s.setLink l { s.links l with ready := ready, paused := (s.links l).paused.erase sid } with
          loop := .taken l rest progress sid } := by
  unfold takeReady
  dsimp only
  cases remaining with
  | zero => exact Or.inl ⟨Or.inl rfl, rfl⟩
  | succ rest =>
    cases hready : (s.links l).ready with
    | nil => exact Or.inl ⟨Or.inr (Or.inl rfl), rfl⟩
    | cons sid ready =>
      dsimp only
      split
      · rename_i hfull
        exact Or.inl ⟨Or.inr (Or.inr hfull), rfl⟩
      · exact Or.inr ⟨rest, sid, ready, rfl, rfl, rfl⟩

namespace Served

/-- Outside `Resume` no session has its turn. -/
theorem idle (h : Served cfg s) (hloop : s.loop = .idle) : Turns none none s := by
  have ht := h.turns
  rw [hloop] at ht
  exact ht

theorem of_idle (hsound : Sound cfg s) (hturns : Turns none none s) (hloop : s.loop = .idle) :
    Served cfg s := by
  refine ⟨hsound, ?_, phase_of_idle hloop⟩
  rw [hloop]
  exact hturns

/-- The end of `Resume`. -/
theorem finishResume (hsound : Sound cfg s) (hturns : Turns none none s) {l : Nat} {progress : Bool}
    (hlink : s.loop.link = some l)
    (hend : progress = false → (s.links l).paused ≠ ∅ → (s.links l).pending ≠ []) :
    Served cfg (Proxy.finishResume cfg l progress s) :=
  of_idle (hsound.quiet (quiet_finishResume cfg l progress s))
    (hturns.finishResume hlink (hsound.forwarding.link l) hend) (loop_finishResume cfg l progress s)

/-- The session at the front has its turn. -/
theorem take (h : Served cfg s) {l remaining : Nat} {progress : Bool} {sid : Nat} {ready : List Nat}
    (hloop : s.loop = .resuming l (remaining + 1) progress)
    (hready : (s.links l).ready = sid :: ready)
    (hsound : Sound cfg { s.setLink l { s.links l with
        ready := ready, paused := (s.links l).paused.erase sid } with
      loop := .taken l remaining progress sid }) :
    Served cfg { s.setLink l { s.links l with
        ready := ready, paused := (s.links l).paused.erase sid } with
      loop := .taken l remaining progress sid } := by
  have ht : Turns none none s := by
    have := h.turns
    rw [hloop] at this
    exact this
  have hnodup := ht.nodup l
  rw [hready, List.nodup_cons] at hnodup
  have hin : sid ∈ (s.links l).paused := by
    rw [← ht.mem l sid, hready]
    exact List.mem_cons_self
  obtain ⟨hhome, hcount, hread⟩ := ht.home l sid hin
  have hres : (s.links l).resuming = true := by
    rw [ht.resuming l, hloop]
    rfl
  refine ⟨hsound, ⟨?_, ?_, ?_, ?_, ?_, ?_, ?_⟩, ?_⟩
  · intro m
    show ((s.setLink l _).links m).ready.Nodup
    by_cases hm : m = l
    · rw [hm, State.setLink_self]
      exact hnodup.2
    · rw [State.setLink_ne s hm]
      exact ht.nodup m
  · intro m x
    show x ∈ ((s.setLink l _).links m).ready ↔ x ∈ ((s.setLink l _).links m).paused
    by_cases hm : m = l
    · rw [hm, State.setLink_self]
      have hx := ht.mem l x
      rw [hready, List.mem_cons] at hx
      rw [Finset.mem_erase, ← hx]
      constructor
      · intro hxr
        refine ⟨?_, Or.inr hxr⟩
        rintro rfl
        exact hnodup.1 hxr
      · rintro ⟨hne, hxr⟩
        exact hxr.resolve_left hne
    · rw [State.setLink_ne s hm]
      exact ht.mem m x
  · intro hs m hl hp hpend
    have hp : ((s.setLink l _).links m).paused ≠ ∅ := hp
    have hpend : ((s.setLink l _).links m).pending = [] := hpend
    show ((s.setLink l _).links m).resumeArmed = true ∨ ((s.setLink l _).links m).resuming = true
    by_cases hm : m = l
    · rw [hm, State.setLink_self]
      exact Or.inr hres
    · rw [State.setLink_ne s hm] at hp hpend ⊢
      exact ht.armed hs m hl hp hpend
  · intro m
    show s.posted.count m = if ((s.setLink l _).links m).resumeArmed then 1 else 0
    rw [ht.posted m]
    by_cases hm : m = l
    · rw [hm, State.setLink_self]
    · rw [State.setLink_ne s hm]
  · intro m
    have hold := ht.resuming m
    rw [hloop] at hold
    show ((s.setLink l _).links m).resuming = true ↔ some l = some m
    by_cases hm : m = l
    · rw [hm, State.setLink_self]
      exact ⟨fun _ => rfl, fun _ => hres⟩
    · rw [State.setLink_ne s hm]
      exact hold
  · intro m hc hr
    show m ∈ ((s.setLink l _).links (s.sessions m).link).paused ∨ some sid = some m
    by_cases hms : m = sid
    · exact Or.inr (congrArg some hms.symm)
    left
    have hw := (ht.waiting m hc hr).resolve_right (by simp)
    by_cases hm : (s.sessions m).link = l
    · rw [hm] at hw ⊢
      rw [State.setLink_self]
      exact Finset.mem_erase.2 ⟨hms, hw⟩
    · rw [State.setLink_ne s hm]
      exact hw
  · intro m x hx
    have hx : x ∈ ((s.setLink l _).links m).paused := hx
    by_cases hm : m = l
    · rw [hm, State.setLink_self] at hx
      rw [hm]
      exact ht.home l x (Finset.mem_of_mem_erase hx)
    · rw [State.setLink_ne s hm] at hx
      exact ht.home m x hx
  · have hphase := h.phase
    unfold Phase at hphase
    rw [hloop] at hphase
    show (progress = false → ((s.setLink l _).links l).ready.length ≤ remaining) ∧
      sid ∉ ((s.setLink l _).links l).paused ∧ (s.sessions sid).link = l ∧ sid < s.count
    rw [State.setLink_self]
    refine ⟨?_, Finset.notMem_erase sid _, hhome, hcount⟩
    intro hp
    have hlen := hphase hp
    rw [hready, List.length_cons] at hlen
    exact Nat.le_of_succ_le_succ hlen

theorem takeReady (h : Served cfg s) {l remaining : Nat} {progress : Bool}
    (hloop : s.loop = .resuming l remaining progress) :
    Served cfg (Proxy.takeReady cfg l remaining progress s) := by
  have hsound := h.sound.quiet (quiet_takeReady cfg l remaining progress s)
  have ht : Turns none none s := by
    have := h.turns
    rw [hloop] at this
    exact this
  have hlink : s.loop.link = some l := by
    rw [hloop]
    rfl
  rcases takeReady_cases cfg l remaining progress s with
    ⟨hwhy, heq⟩ | ⟨rest, sid, ready, rfl, hready, heq⟩
  · rw [heq]
    refine finishResume h.sound ht hlink ?_
    intro hprogress hp hnil
    have hphase := h.phase
    unfold Phase at hphase
    rw [hloop] at hphase
    have hlen := hphase hprogress
    have hempty : (s.links l).ready ≠ [] := by
      intro hready
      obtain ⟨sid, hsid⟩ := Finset.nonempty_iff_ne_empty.2 hp
      rw [← ht.mem l sid, hready] at hsid
      cases hsid
    rcases hwhy with hzero | hready | hfull
    · -- everybody has had a turn
      rw [hzero, Nat.le_zero, List.length_eq_zero_iff] at hlen
      exact hempty hlen
    · exact hempty hready
    · -- the credit is used up, but nothing is on its way
      have hcommands := cfg.commands_min
      have hbytes := cfg.bytes_min
      rw [(h.sound.forwarding.link l).bytes_zero hnil, hnil, List.length_nil] at hfull
      omega
  · rw [heq] at hsound ⊢
    exact h.take hloop hready hsound

end Served

/-- `ResumeRead` ends the turn of the session. -/
theorem Turns.resumeRead (h : Turns (some sid) none s) (hsound : Sound cfg s)
    (hopen : (s.sessions sid).closed = false) (hout : sid ∉ (s.links (s.sessions sid).link).paused)
    (env : Nat → IssueEnv) :
    Turns none none (Proxy.resumeRead cfg sid env s).1 ∧
    Local sid (s.sessions sid).link s (Proxy.resumeRead cfg sid env s).1 := by
  have hself := State.setSession_self s sid { s.sessions sid with readPaused := false }
  have hq : Quiet s (s.setSession sid { s.sessions sid with readPaused := false }) :=
    quiet_setSession (sameTraffic_setSession rfl rfl rfl rfl rfl) rfl
  have hset : Turns none none (s.setSession sid { s.sessions sid with readPaused := false }) := by
    refine h.setSession rfl ?_ (fun _ hr => (by cases hr)) ?_
    · intro m hm hturn
      exact absurd (Option.some.inj hturn).symm hm
    · intro l hl
      rw [← (h.home l sid hl).1] at hl
      exact absurd hl hout
  have hlocal : Local sid (s.sessions sid).link s
      (s.setSession sid { s.sessions sid with readPaused := false }) :=
    local_setSession rfl List.prefix_rfl id
  obtain ⟨hturns, hloc⟩ := hset.processInput (hsound.quiet hq) sid 1 env
  rw [hself] at hloc
  unfold Proxy.resumeRead
  dsimp only at hturns hloc ⊢
  rw [if_neg (by rw [hopen]; exact Bool.false_ne_true)]
  split
  · exact ⟨hturns.setSessionSame rfl rfl rfl,
      (hlocal.trans hloc).trans (local_setSession rfl List.prefix_rfl id)⟩
  · exact ⟨hturns, hlocal.trans hloc⟩

namespace Served

theorem resumeTaken (h : Served cfg s) {l remaining : Nat} {progress : Bool} {sid : Nat}
    (hloop : s.loop = .taken l remaining progress sid) (env : Nat → IssueEnv) :
    Served cfg (Proxy.resumeTaken cfg l remaining progress sid env s) := by
  have ht : Turns (some sid) none s := by
    have := h.turns
    rw [hloop] at this
    exact this
  have hphase := h.phase
  unfold Phase at hphase
  rw [hloop] at hphase
  obtain ⟨hlen, hout, hhome, hcount⟩ := hphase
  unfold Proxy.resumeTaken
  split
  · -- it has been closed: its turn is over
    rename_i hclosed
    have hnone : Turns none none s := by
      refine ⟨ht.nodup, ht.mem, ht.armed, ht.posted, ht.resuming, ?_, ht.home⟩
      intro m hc hr
      rcases ht.waiting m hc hr with hw | hw
      · exact Or.inl hw
      · rw [← Option.some.inj hw, hclosed] at hc
        cases hc
    exact ⟨h.sound.quiet ((Quiet.refl s).of_eq rfl rfl rfl),
      hnone.setLoop (by rw [hloop]; rfl), hlen⟩
  rename_i hopen
  have hopen : (s.sessions sid).closed = false := by simpa using hopen
  have hres : (s.links (s.sessions sid).link).resuming = true := by
    rw [hhome, ht.resuming l, hloop]
    rfl
  have hsound := h.sound.resumeRead sid env
  have hturn := @turnTaken_resumeRead _ cfg sid s hopen hres env
  obtain ⟨hturns, hlocal⟩ := ht.resumeRead h.sound hopen (by rw [hhome]; exact hout) env
  generalize resumeRead cfg sid env s = r at hsound hturn hturns hlocal ⊢
  obtain ⟨t, consumed⟩ := r
  dsimp only at hsound hturn hturns hlocal ⊢
  refine ⟨hsound.quiet ((Quiet.refl t).of_eq rfl rfl rfl),
    hturns.setLoop (by rw [hlocal.loop, hloop]; rfl), ?_⟩
  show (consumed = true → (progress || consumed) = true) ∧ ((progress || consumed) = false →
    (sid ∈ (t.links l).paused → (t.links l).pending ≠ []) ∧
      (sid ∉ (t.links l).paused → (t.links l).ready.length ≤ remaining))
  refine ⟨fun hc => by rw [hc, Bool.or_true], ?_⟩
  intro hnone
  rw [Bool.or_eq_false_iff] at hnone
  obtain ⟨hprogress, rfl⟩ := hnone
  cases hturn with
  | closed hlinks hclosed | more hscan hlinks =>
    rw [hlinks]
    exact ⟨fun hin => absurd hin hout, fun _ => hlen hprogress⟩
  | refused size count hscan hsize hfull hquiet hread =>
    rw [hhome] at hfull
    refine ⟨?_, ?_⟩
    · intro _
      rw [hquiet.pending]
      exact pending_ne_nil (h.sound.forwarding.link l) hsize hfull
    · -- it is paused again
      intro hno
      have hw := hturns.waiting sid ((hquiet.closed sid).trans hopen) hread
      rw [hquiet.link, hhome] at hw
      exact absurd (hw.resolve_right (by simp)) hno

theorem settleTurn (h : Served cfg s) {l remaining : Nat} {progress : Bool} {sid : Nat}
    {consumed : Bool} (hloop : s.loop = .resumed l remaining progress sid consumed) :
    Served cfg (Proxy.settleTurn cfg l remaining progress sid consumed s) := by
  have ht : Turns none none s := by
    have := h.turns
    rw [hloop] at this
    exact this
  have hphase := h.phase
  unfold Phase at hphase
  rw [hloop] at hphase
  obtain ⟨hconsumed, hnone⟩ := hphase
  unfold Proxy.settleTurn
  dsimp only
  split
  · rename_i hback
    obtain ⟨-, hin⟩ := hback
    have hq : Quiet s (s.setLink l { s.links l with
        ready := sid :: (s.links l).ready.filter (fun m => decide (m ≠ sid)) }) :=
      quiet_setLink rfl rfl rfl rfl
    refine finishResume (h.sound.quiet hq) (ht.front hin) ?_ ?_
    · show s.loop.link = some l
      rw [hloop]
      rfl
    · intro hprogress _
      rw [State.setLink_self]
      exact (hnone hprogress).1 hin
  · rename_i hgo
    refine ⟨h.sound.quiet ((Quiet.refl s).of_eq rfl rfl rfl),
      ht.setLoop (by rw [hloop]; rfl), ?_⟩
    show progress = false → (s.links l).ready.length ≤ remaining
    intro hprogress
    have hc : consumed = false := by
      cases consumed with
      | false => rfl
      | true =>
        rw [hconsumed rfl] at hprogress
        cases hprogress
    refine (hnone hprogress).2 fun hin => hgo ⟨by rw [hc]; rfl, hin⟩

theorem step (h : Served cfg s) {e : Event ρ} (hs : Proxy.step cfg s e = some s') :
    Served cfg s' := by
  have hsound := h.sound.step hs
  cases stepped hs with
  | addSession hloop => exact of_idle hsound ((h.idle hloop).addSession _) hloop
  | dataIn sid chunk env hloop hdel =>
    obtain ⟨hturns, hlocal⟩ := (h.idle hloop).dataIn h.sound sid chunk env
    exact of_idle hsound hturns (hlocal.loop.trans hloop)
  | close sid hloop hopen => exact of_idle hsound ((h.idle hloop).closeSession sid) hloop
  | delSession sid hloop hclosed => exact of_idle hsound ((h.idle hloop).forget hclosed) hloop
  | reply l x sendOk hloop hhanded =>
    cases hcase : (s.links l).handed with
    | nil => exact absurd hcase hhanded
    | cons y rest =>
      have hturns := (h.idle hloop).onReply (h.sound.forwarding.link l) hcase x sendOk
      exact of_idle hsound hturns ((loop_onReply cfg l x sendOk s).trans hloop)
  | disconnect l hloop hhanded => exact of_idle hsound ((h.idle hloop).setUp l false true) hloop
  | connectFailed l send hloop =>
    exact of_idle hsound ((h.idle hloop).connectFailed h.sound.forwarding l send)
      ((loop_flush cfg l send _ _).trans hloop)
  | dial l ok hloop => exact of_idle hsound ((h.idle hloop).dial l ok) ((loop_dial l ok s).trans hloop)
  | requestStop hloop =>
    have ht := h.idle hloop
    exact of_idle hsound ⟨ht.nodup, ht.mem, fun hs => (by cases hs), ht.posted, ht.resuming,
      ht.waiting, ht.home⟩ hloop
  | startResume l posted hloop hposted =>
    refine ⟨hsound, (h.idle hloop).startResume hloop hposted, ?_⟩
    intro _
    show ((s.setLink l _).links l).ready.length ≤ (s.links l).ready.length
    rw [State.setLink_self]
  | takeReady l remaining progress hloop => exact h.takeReady hloop
  | resumeTaken l remaining progress sid env hloop => exact h.resumeTaken hloop env
  | settleTurn l remaining progress sid consumed hloop => exact h.settleTurn hloop

end Served

theorem served_run {es : List (Event ρ)} (hrun : runFrom (step cfg) State.init es = some s) :
    Served cfg s :=
  runFrom_invariant (fun _ _ _ hI hs => hI.step hs) (served_init cfg) hrun

/-! ## Nobody overtakes a paused session -/

theorem paused_armResume (cfg : Config) (l m : Nat) (s : State ρ) :
    ((armResume cfg m s).links l).paused = (s.links l).paused := by
  unfold armResume
  dsimp only
  split
  · rfl
  · show ((s.setLink m _).links l).paused = _
    by_cases hm : l = m
    · rw [hm, State.setLink_self]
    · rw [State.setLink_ne s hm]

theorem paused_pauseRead (cfg : Config) (sid l : Nat) (s : State ρ) :
    (s.links l).paused ⊆ ((pauseRead cfg sid s).links l).paused := by
  have harm : ∀ {u : State ρ} (m : Nat), (s.links l).paused ⊆ (u.links l).paused →
      (s.links l).paused ⊆
        ((if (u.links m).resuming then u else armResume cfg m u).links l).paused := by
    intro u m hu
    split
    · exact hu
    · rw [paused_armResume]
      exact hu
  unfold pauseRead pause
  dsimp only
  apply harm
  split
  · exact Finset.Subset.refl _
  · by_cases hm : l = (s.sessions sid).link
    · rw [hm, State.setLink_self]
      exact Finset.subset_insert sid _
    · rw [State.setLink_ne _ hm]
      exact Finset.Subset.refl _

/-- A link outside `Resume` where a session is paused, from `s` to `t`: nothing is handed to it, and
as long as it is up no command of its sessions is taken at all. -/
structure Blocked (l : Nat) (s t : State ρ) : Prop where
  handed : (t.links l).handed = (s.links l).handed
  accepted : (s.links l).up = true → ∀ m, (s.sessions m).link = l →
    (t.sessions m).accepted = (s.sessions m).accepted
  up : (t.links l).up = (s.links l).up
  link : ∀ m, (t.sessions m).link = (s.sessions m).link
  paused : (t.links l).paused ≠ ∅
  resuming : (t.links l).resuming = false

namespace Blocked

variable {t : State ρ}

/-- A session changes, and what was taken from it stays. -/
theorem setSession (h : Blocked l s t) {m : Nat} {v : Session ρ}
    (hlink : v.link = (t.sessions m).link) (haccepted : v.accepted = (t.sessions m).accepted) :
    Blocked l s (t.setSession m v) where
  handed := h.handed
  accepted := fun hup k hk =>
    (State.setSession_field t Session.accepted haccepted k).trans (h.accepted hup k hk)
  up := h.up
  link := fun k => (State.setSession_field t Session.link hlink k).trans (h.link k)
  paused := h.paused
  resuming := h.resuming

theorem pauseRead (h : Blocked l s t) (sid : Nat) : Blocked l s (pauseRead cfg sid t) := by
  have hquiet := quiet_pauseRead cfg sid t
  have hlocal := local_pauseRead cfg sid t
  refine ⟨(hquiet.handed l).trans h.handed, ?_, (hquiet.up l).trans h.up, ?_, ?_, ?_⟩
  · intro hup m hm
    exact (hquiet.accepted m).trans (h.accepted hup m hm)
  · intro m
    exact (hquiet.link m).trans (h.link m)
  · intro hnone
    have hsub := paused_pauseRead cfg sid l t
    rw [hnone, Finset.subset_empty] at hsub
    exact h.paused hsub
  · by_cases hl : l = (t.sessions sid).link
    · rw [hl, hlocal.resuming, ← hl]
      exact h.resuming
    · rw [hlocal.links l hl]
      exact h.resuming

theorem answer (h : Blocked l s t) (sid : Nat) (a : Answer ρ) (sendOk : Bool) :
    Blocked l s (answer sid a sendOk t) := by
  unfold Proxy.answer
  split
  · exact h.setSession rfl rfl
  · exact h.setSession rfl rfl

/-- A command is taken from a session of another link, or of this one while it is down. -/
theorem accept (h : Blocked l s t) {sid : Nat}
    (hother : (s.links l).up = true → (t.sessions sid).link ≠ l) (command : List UInt8) :
    Blocked l s (accept sid command t) := by
  unfold Proxy.accept
  refine ⟨h.handed, ?_, h.up, ?_, h.paused, h.resuming⟩
  · intro hup m hm
    have hne : m ≠ sid := by
      rintro rfl
      exact hother hup ((h.link m).trans hm)
    rw [State.setSession_ne t hne]
    exact h.accepted hup m hm
  · intro m
    refine (State.setSession_field t Session.link ?_ m).trans (h.link m)
    rfl

/-- `Issue` hands nothing to the link, and takes nothing while it is up. -/
theorem issued (h : Blocked l s t) {t' : State ρ}
    (hi : Issued cfg sid command t t' true) : Blocked l s t' := by
  cases hi with
  | closed => exact h.setSession rfl rfl
  | down sendOk hup =>
    refine (h.accept ?_ command).answer sid _ sendOk
    rintro hs rfl
    rw [h.up, hs] at hup
    cases hup
  | handed hup hturn hcommands hbytes =>
    have hl : (t.sessions sid).link ≠ l := by
      rintro rfl
      rcases hturn with hr | hn
      · rw [h.resuming] at hr
        cases hr
      · exact h.paused hn
    have hset : ∀ {k : Link}, Blocked l s (t.setLink (t.sessions sid).link k) := by
      intro k
      have hsame : (t.setLink (t.sessions sid).link k).links l = t.links l :=
        State.setLink_ne t hl.symm k
      refine ⟨?_, h.accepted, ?_, h.link, ?_, ?_⟩
      · rw [hsame]
        exact h.handed
      · rw [hsame]
        exact h.up
      · rw [hsame]
        exact h.paused
      · rw [hsame]
        exact h.resuming
    exact hset.accept (fun _ => hl) command

end Blocked

/-- Input adds nothing to a link where a session is paused. -/
theorem blocked_dataIn (hp : (s.links l).paused ≠ ∅) (hres : (s.links l).resuming = false)
    (sid : Nat) (chunk : List UInt8) (env : Nat → IssueEnv) :
    Blocked l s (dataIn cfg sid chunk env s) := by
  have hself : Blocked l s s := ⟨rfl, fun _ _ _ => rfl, rfl, fun _ => rfl, hp, hres⟩
  unfold dataIn processInput
  dsimp only
  generalize hv : ({ s.sessions sid with
    buffer := (s.sessions sid).buffer ++ chunk
    received := (s.sessions sid).received ++ chunk } : Session ρ) = v
  have hread : Blocked l s (s.setSession sid v) := by
    rw [← hv]
    exact hself.setSession rfl rfl
  split
  · exact hread
  rename_i hready
  have hloop := @processLoop_rule _ cfg sid env (fun _ t => Blocked l s t)
    (fun h _ => h.setSession rfl rfl) (fun h _ => h.pauseRead sid) (fun h _ _ hi => h.issued hi)
    32 ((s.setSession sid v).sessions sid).buffer (s.setSession sid v) hread (open_of_ready hready)
  exact hloop.setSession rfl rfl

theorem Served.resuming_of_idle (h : Served cfg s) (hloop : s.loop = .idle) (l : Nat) :
    (s.links l).resuming = false := by
  cases hr : (s.links l).resuming with
  | false => rfl
  | true =>
    have hlink := ((h.idle hloop).resuming l).1 hr
    rw [hloop] at hlink
    cases hlink

/-- **No overtaking.**  Outside `Resume` no step hands a command to a link that has a paused
session. -/
theorem Served.handed_suffix {e : Event ρ} (h : Served cfg s) (hloop : s.loop = .idle)
    (hp : (s.links l).paused ≠ ∅) (hs : Proxy.step cfg s e = some s') :
    (s'.links l).handed <:+ (s.links l).handed := by
  have hres := h.resuming_of_idle hloop l
  have hf := h.sound.forwarding
  have hsame : ∀ {m : Nat} {k : Link}, k.handed = (s.links m).handed →
      ((s.setLink m k).links l).handed <:+ (s.links l).handed := by
    intro m k hk
    by_cases hm : l = m
    · rw [hm, State.setLink_self, hk]
    · rw [State.setLink_ne s hm]
  cases stepped hs with
  | addSession hloop' => exact List.suffix_rfl
  | dataIn sid chunk env hloop' hdel =>
    rw [(blocked_dataIn hp hres sid chunk env).handed]
  | close sid hloop' hopen => exact List.suffix_rfl
  | delSession sid hloop' hclosed => exact List.suffix_rfl
  | reply m x sendOk hloop' hhanded =>
    cases hcase : (s.links m).handed with
    | nil => exact absurd hcase hhanded
    | cons y rest =>
      obtain ⟨hrest, hothers⟩ := onReply_links (hf.link m) hcase x sendOk
      by_cases hm : l = m
      · rw [hm, hrest, hcase]
        exact List.suffix_cons y rest
      · rw [(hothers l).2 hm]
  | disconnect m hloop' hhanded => exact hsame rfl
  | connectFailed m send hloop' =>
    have hdown : Forwarding cfg [] (linkDown m s) := hf.setLink rfl rfl rfl
    have hself : (linkDown m s).links m = { s.links m with up := false, dialing := true } :=
      State.setLink_self _ _ _
    obtain ⟨-, hnil, hothers⟩ := @Forwarding.flush _ cfg m send (s.links m).handed.length _ hdown
      (by rw [hself])
    unfold connectFailed
    by_cases hm : l = m
    · rw [hm, hnil]
      exact List.nil_suffix
    · rw [(hothers l).2 hm]
      exact hsame rfl
  | dial m ok hloop' =>
    unfold dial
    dsimp only
    split
    · exact hsame rfl
    · exact hsame rfl
  | requestStop hloop' => exact List.suffix_rfl
  | startResume m posted hloop' hposted => exact hsame rfl
  | takeReady m remaining progress hloop' =>
    rw [hloop] at hloop'
    cases hloop'
  | resumeTaken m remaining progress sid env hloop' =>
    rw [hloop] at hloop'
    cases hloop'
  | settleTurn m remaining progress sid consumed hloop' =>
    rw [hloop] at hloop'
    cases hloop'

/-! ## The first in the queue

Nothing but its own turn, or its end, takes a session from the front. -/

/-- The link and the session of the turn that `Resume` is giving. -/
def Loop.inTurn : Loop → Option (Nat × Nat)
  | .taken l _ _ sid => some (l, sid)
  | .resumed l _ _ sid _ => some (l, sid)
  | _ => none

/-- Where a session stands that is first: at the front of the queue of its link, while nobody else
of that link has a turn; or it has its turn; or it had it, its command did not fit, and it goes back
to the front. -/
inductive Place (l sid : Nat) (s : State ρ) : Prop
  | first (hfirst : (s.links l).ready.head? = some sid) (hturn : ∀ m, s.loop.inTurn ≠ some (l, m))
  | taken (remaining : Nat) (progress : Bool) (hloop : s.loop = .taken l remaining progress sid)
  | back (remaining : Nat) (progress : Bool) (hloop : s.loop = .resumed l remaining progress sid false)
      (hpaused : sid ∈ (s.links l).paused)

/-- An open session is first, with a whole command at the head of its buffer; `n` of its commands
have been taken. -/
structure Waits (cfg : Config) (l sid n : Nat) (s : State ρ) : Prop where
  opened : (s.sessions sid).closed = false
  link : (s.sessions sid).link = l
  accepted : (s.sessions sid).accepted.length = n
  command : ∃ size count, scanCommand cfg.maxPendingBytes (s.sessions sid).buffer = .command size count
  place : Place l sid s

/-- Nothing that matters to the session changes, but that it may get more input or be closed. -/
structure Undisturbed (l sid : Nat) (s s' : State ρ) : Prop where
  first : (s.links l).ready.head? = some sid → (s'.links l).ready.head? = some sid
  link : (s'.sessions sid).link = (s.sessions sid).link
  accepted : (s'.sessions sid).accepted = (s.sessions sid).accepted
  buffer : (s.sessions sid).buffer <+: (s'.sessions sid).buffer

namespace Undisturbed

variable {t u : State ρ}

theorem trans (h : Undisturbed l sid s t) (h' : Undisturbed l sid t u) : Undisturbed l sid s u :=
  ⟨fun hf => h'.first (h.first hf), h'.link.trans h.link, h'.accepted.trans h.accepted,
    h.buffer.trans h'.buffer⟩

/-- The session stays as it is. -/
theorem of_eq (hs : t.sessions sid = s.sessions sid)
    (hready : (s.links l).ready.head? = some sid → (t.links l).ready.head? = some sid) :
    Undisturbed l sid s t := by
  refine ⟨hready, ?_, ?_, ?_⟩
  · rw [hs]
  · rw [hs]
  · rw [hs]

theorem refl (l sid : Nat) (s : State ρ) : Undisturbed l sid s s := of_eq rfl id

variable {m : Nat}

/-- A change of a link that leaves its queue alone. -/
theorem setLink {k : Link} (hready : k.ready = (s.links m).ready) :
    Undisturbed l sid s (s.setLink m k) := by
  refine of_eq rfl ?_
  intro hf
  by_cases hm : l = m
  · subst hm
    rw [State.setLink_self, hready]
    exact hf
  · rw [State.setLink_ne s hm]
    exact hf

theorem setSession {v : Session ρ} (hlink : v.link = (s.sessions m).link)
    (haccepted : v.accepted = (s.sessions m).accepted)
    (hbuffer : (s.sessions m).buffer <+: v.buffer) : Undisturbed l sid s (s.setSession m v) := by
  by_cases hm : sid = m
  · subst hm
    refine ⟨id, ?_, ?_, ?_⟩
    · rw [State.setSession_self, hlink]
    · rw [State.setSession_self, haccepted]
    · rw [State.setSession_self]
      exact hbuffer
  · exact of_eq (State.setSession_ne s hm v) id

theorem armResume (cfg : Config) (m : Nat) (s : State ρ) :
    Undisturbed l sid s (armResume cfg m s) := by
  unfold Proxy.armResume
  dsimp only
  split
  · exact refl l sid s
  · have h : Undisturbed l sid s (s.setLink m { s.links m with resumeArmed := true }) := setLink rfl
    exact ⟨h.first, h.link, h.accepted, h.buffer⟩

theorem answer (m : Nat) (a : Answer ρ) (sendOk : Bool) (s : State ρ) :
    Undisturbed l sid s (answer m a sendOk s) := by
  unfold Proxy.answer
  split
  · exact setSession rfl rfl List.prefix_rfl
  · exact setSession rfl rfl List.prefix_rfl

theorem onReply {x : Handed} {rest : List Handed} (hm : (s.links m).Matched cfg)
    (hhanded : (s.links m).handed = x :: rest) (body : Option ρ) (sendOk : Bool) :
    Undisturbed l sid s (onReply cfg m body sendOk s) := by
  rw [onReply_eq hm hhanded]
  have hpop : Undisturbed l sid s (s.setLink m (s.links m).pop) := setLink rfl
  exact (hpop.trans (armResume cfg m _)).trans (answer _ _ _ _)

theorem flush {cfg : Config} {m : Nat} {send : Nat → Bool} (n : Nat) :
    ∀ {s : State ρ}, Forwarding cfg [] s → (s.links m).handed.length = n →
      Undisturbed l sid s (Proxy.flush cfg m send n s) := by
  induction n with
  | zero =>
    intro s _ _
    exact refl l sid s
  | succ n ih =>
    intro s hf hlen
    obtain ⟨x, rest, hhanded⟩ := List.exists_cons_of_length_eq_add_one hlen
    rw [hhanded, List.length_cons] at hlen
    refine (onReply (hf.link m) hhanded none (send n)).trans ?_
    apply ih (hf.onReply hhanded none (send n))
    rw [(onReply_links (hf.link m) hhanded none (send n)).1]
    omega

/-- The input of another session. -/
theorem of_local {m k : Nat} (h : Local m k s t) (hne : sid ≠ m) : Undisturbed l sid s t := by
  refine of_eq (h.sessions sid hne) ?_
  intro hf
  by_cases hl : l = k
  · rw [hl] at hf ⊢
    obtain ⟨more, hmore⟩ := h.ready
    rw [← hmore, List.head?_append, hf]
    rfl
  · rw [h.links l hl]
    exact hf

end Undisturbed

namespace Waits

variable {n : Nat}

/-- An undisturbed session keeps its place, if it does not lose it to the loop. -/
theorem keep (h : Waits cfg l sid n s) (hu : Undisturbed l sid s s') (hplace : Place l sid s') :
    Waits cfg l sid n s' ∨ (s'.sessions sid).closed = true ∨
      n < (s'.sessions sid).accepted.length := by
  cases hc : (s'.sessions sid).closed with
  | true => exact Or.inr (Or.inl rfl)
  | false =>
    left
    obtain ⟨size, count, hscan⟩ := h.command
    obtain ⟨more, hmore⟩ := hu.buffer
    refine ⟨hc, hu.link.trans h.link, ?_, ⟨size, count, ?_⟩, hplace⟩
    · rw [hu.accepted]
      exact h.accepted
    · rw [← hmore]
      exact scanCommand_append hscan more

/-- Outside `Resume` it is at the front. -/
theorem head (h : Waits cfg l sid n s) (hloop : s.loop = .idle) :
    (s.links l).ready.head? = some sid := by
  cases h.place with
  | first hfirst hturn => exact hfirst
  | taken remaining progress hl | back remaining progress hl hpaused =>
    rw [hloop] at hl
    cases hl

/-- Outside `Resume` it stays there. -/
theorem keep_idle (h : Waits cfg l sid n s) (hloop : s.loop = .idle) (hu : Undisturbed l sid s s')
    (hloop' : s'.loop.inTurn = none) :
    Waits cfg l sid n s' ∨ (s'.sessions sid).closed = true ∨
      n < (s'.sessions sid).accepted.length := by
  refine h.keep hu (.first (hu.first (h.head hloop)) ?_)
  intro m
  rw [hloop']
  simp

/-- A turn on another link does not touch it. -/
theorem keep_other (h : Waits cfg l sid n s) {m k : Nat} (hm : l ≠ m)
    (hin : ∀ r p, s.loop ≠ .taken l r p sid) (hback : ∀ r p, s.loop ≠ .resumed l r p sid false)
    (hu : Undisturbed l sid s s')
    (hloop' : s'.loop.inTurn = none ∨ s'.loop.inTurn = some (m, k)) :
    Waits cfg l sid n s' ∨ (s'.sessions sid).closed = true ∨
      n < (s'.sessions sid).accepted.length := by
  cases h.place with
  | first hfirst hturn =>
    refine h.keep hu (.first (hu.first hfirst) ?_)
    intro x
    rcases hloop' with hnone | hsome
    · rw [hnone]
      simp
    · rw [hsome]
      intro he
      exact hm (congrArg Prod.fst (Option.some.inj he)).symm
  | taken remaining progress hl => exact absurd hl (hin remaining progress)
  | back remaining progress hl hpaused => exact absurd hl (hback remaining progress)

end Waits

theorem Undisturbed.finishResume {l sid : Nat} (cfg : Config) (m : Nat) (progress : Bool)
    (s : State ρ) : Undisturbed l sid s (finishResume cfg m progress s) := by
  have hset : Undisturbed l sid s
      { s.setLink m { s.links m with resuming := false } with loop := .idle } := by
    have h : Undisturbed l sid s (s.setLink m { s.links m with resuming := false }) :=
      Undisturbed.setLink rfl
    exact ⟨h.first, h.link, h.accepted, h.buffer⟩
  unfold Proxy.finishResume
  dsimp only
  split
  · exact hset.trans (Undisturbed.armResume cfg m _)
  · exact hset

namespace Waits

variable {n : Nat}

variable {m : Nat}

theorem takeReady (h : Waits cfg l sid n s) {remaining : Nat} {progress : Bool}
    (hloop : s.loop = .resuming m remaining progress) :
    Waits cfg l sid n (Proxy.takeReady cfg m remaining progress s) ∨
      ((Proxy.takeReady cfg m remaining progress s).sessions sid).closed = true ∨
      n < ((Proxy.takeReady cfg m remaining progress s).sessions sid).accepted.length := by
  -- nobody has a turn
  have hfirst : (s.links l).ready.head? = some sid := by
    cases h.place with
    | first hfirst hturn => exact hfirst
    | taken r p hl | back r p hl hpaused =>
      rw [hloop] at hl
      cases hl
  rcases takeReady_cases cfg m remaining progress s with ⟨-, heq⟩ | ⟨rest, x, ready, -, hready, heq⟩
  · rw [heq]
    have hu := @Undisturbed.finishResume _ l sid cfg m progress s
    refine h.keep hu (.first (hu.first hfirst) ?_)
    intro y
    rw [loop_finishResume]
    simp [Loop.inTurn]
  · rw [heq]
    by_cases hm : l = m
    · -- it is its turn
      subst hm
      rw [hready, List.head?_cons, Option.some.injEq] at hfirst
      subst hfirst
      exact Or.inl ⟨h.opened, h.link, h.accepted, h.command, .taken rest progress rfl⟩
    · have hu : Undisturbed l sid s { s.setLink m { s.links m with
            ready := ready, paused := (s.links m).paused.erase x } with
          loop := .taken m rest progress x } := by
        refine Undisturbed.of_eq rfl ?_
        intro hf
        show ((s.setLink m _).links l).ready.head? = some sid
        rw [State.setLink_ne s hm]
        exact hf
      refine h.keep hu (.first (hu.first hfirst) ?_)
      intro y he
      exact hm (congrArg Prod.fst (Option.some.inj he)).symm

theorem resumeTaken (h : Waits cfg l sid n s) (hserved : Served cfg s) {remaining : Nat}
    {progress : Bool} {x : Nat} (hloop : s.loop = .taken m remaining progress x)
    (env : Nat → IssueEnv) :
    Waits cfg l sid n (Proxy.resumeTaken cfg m remaining progress x env s) ∨
      ((Proxy.resumeTaken cfg m remaining progress x env s).sessions sid).closed = true ∨
      n < ((Proxy.resumeTaken cfg m remaining progress x env s).sessions sid).accepted.length := by
  have ht : Turns (some x) none s := by
    have := hserved.turns
    rw [hloop] at this
    exact this
  have hphase := hserved.phase
  unfold Phase at hphase
  rw [hloop] at hphase
  obtain ⟨-, hout, hhome, -⟩ := hphase
  unfold Proxy.resumeTaken
  cases h.place with
  | first hfirst hturn =>
    -- the turn is another session's, on another link
    have hm : l ≠ m := by
      rintro rfl
      apply hturn x
      rw [hloop]
      rfl
    have hne : sid ≠ x := by
      rintro rfl
      exact hm (h.link.symm.trans hhome)
    have hstay : ∀ {t : State ρ}, Undisturbed l sid s t →
        (t.loop.inTurn = none ∨ t.loop.inTurn = some (m, x)) →
        Waits cfg l sid n t ∨ (t.sessions sid).closed = true ∨
          n < (t.sessions sid).accepted.length := by
      intro t hu hl
      refine h.keep_other hm ?_ ?_ hu hl
      · intro r p he
        rw [hloop] at he
        cases he
        exact hm rfl
      · intro r p he
        rw [hloop] at he
        cases he
    split
    · exact hstay (Undisturbed.of_eq rfl id) (Or.inl rfl)
    · rename_i hopen
      have hlocal := (ht.resumeRead hserved.sound (by simpa using hopen)
        (by rw [hhome]; exact hout) env).2
      have hu := @Undisturbed.of_local _ l sid _ _ _ _ hlocal hne
      exact hstay ⟨hu.first, hu.link, hu.accepted, hu.buffer⟩ (Or.inr rfl)
  | taken r p hl =>
    rw [hloop] at hl
    cases hl
    have hopen := h.opened
    rw [if_neg (by rw [hopen]; exact Bool.false_ne_true)]
    have hres : (s.links (s.sessions sid).link).resuming = true := by
      rw [hhome, ht.resuming l, hloop]
      rfl
    have hturn := @turnTaken_resumeRead _ cfg sid s hopen hres env
    obtain ⟨hturns, -⟩ := ht.resumeRead hserved.sound hopen (by rw [hhome]; exact hout) env
    generalize Proxy.resumeRead cfg sid env s = res at hturn hturns ⊢
    obtain ⟨t, consumed⟩ := res
    dsimp only at hturn hturns ⊢
    cases hturn with
    | took hacc =>
      refine Or.inr (Or.inr ?_)
      rw [hacc, h.accepted]
      exact Nat.lt_succ_self n
    | closed hlinks hclosed => exact Or.inr (Or.inl hclosed)
    | more hscan hlinks =>
      obtain ⟨size, count, hcommand⟩ := h.command
      rw [hcommand] at hscan
      cases hscan
    | refused size count hscan hsize hfull hquiet hread =>
      have hw := hturns.waiting sid ((hquiet.closed sid).trans hopen) hread
      rw [hquiet.link, hhome] at hw
      refine Or.inl ⟨(hquiet.closed sid).trans hopen, (hquiet.link sid).trans hhome, ?_,
        ⟨size, count, ?_⟩, .back remaining (progress || false) rfl (hw.resolve_right (by simp))⟩
      · show (t.sessions sid).accepted.length = n
        rw [hquiet.accepted]
        exact h.accepted
      · show scanCommand cfg.maxPendingBytes (t.sessions sid).buffer = .command size count
        rw [hquiet.buffer]
        exact hscan
  | back r p hl hpaused =>
    rw [hloop] at hl
    cases hl

theorem settleTurn (h : Waits cfg l sid n s) {remaining : Nat} {progress : Bool} {x : Nat}
    {consumed : Bool} (hloop : s.loop = .resumed m remaining progress x consumed) :
    Waits cfg l sid n (Proxy.settleTurn cfg m remaining progress x consumed s) ∨
      ((Proxy.settleTurn cfg m remaining progress x consumed s).sessions sid).closed = true ∨
      n < ((Proxy.settleTurn cfg m remaining progress x consumed s).sessions sid).accepted.length := by
  unfold Proxy.settleTurn
  dsimp only
  cases h.place with
  | first hfirst hturn =>
    have hm : l ≠ m := by
      rintro rfl
      apply hturn x
      rw [hloop]
      rfl
    have hstay : ∀ {t : State ρ}, Undisturbed l sid s t → t.loop.inTurn = none →
        Waits cfg l sid n t ∨ (t.sessions sid).closed = true ∨
          n < (t.sessions sid).accepted.length := by
      intro t hu hl
      refine h.keep hu (.first (hu.first hfirst) ?_)
      intro y
      rw [hl]
      simp
    split
    · have hu : Undisturbed l sid s (s.setLink m { s.links m with
          ready := x :: (s.links m).ready.filter (fun y => decide (y ≠ x)) }) := by
        refine Undisturbed.of_eq rfl ?_
        intro hf
        rw [State.setLink_ne s hm]
        exact hf
      refine hstay (hu.trans (Undisturbed.finishResume cfg m progress _)) ?_
      rw [loop_finishResume]
      rfl
    · exact hstay (Undisturbed.of_eq rfl id) rfl
  | taken r p hl =>
    rw [hloop] at hl
    cases hl
  | back r p hl hpaused =>
    -- its command did not fit: it is put back to the front
    rw [hloop] at hl
    cases hl
    rw [if_pos ⟨rfl, hpaused⟩]
    have hu : Undisturbed l sid s (s.setLink l { s.links l with
        ready := sid :: (s.links l).ready.filter (fun y => decide (y ≠ sid)) }) := by
      refine Undisturbed.of_eq rfl ?_
      intro _
      rw [State.setLink_self]
      rfl
    have hend := @Undisturbed.finishResume _ l sid cfg l progress (s.setLink l { s.links l with
        ready := sid :: (s.links l).ready.filter (fun y => decide (y ≠ sid)) })
    refine h.keep (hu.trans hend) (.first (hend.first ?_) ?_)
    · rw [State.setLink_self]
      rfl
    · intro y
      rw [loop_finishResume]
      simp [Loop.inTurn]

end Waits

namespace Waits

variable {n : Nat}

/-- Its own input only grows its buffer, as it is paused. -/
theorem dataIn (h : Waits cfg l sid n s) (hserved : Served cfg s) (hloop : s.loop = .idle)
    (m : Nat) (chunk : List UInt8) (env : Nat → IssueEnv) :
    Undisturbed l sid s (Proxy.dataIn cfg m chunk env s) := by
  have ht := hserved.idle hloop
  by_cases hm : sid = m
  · subst hm
    have hin : sid ∈ (s.links l).ready := List.mem_of_mem_head? (h.head hloop)
    have hread := (ht.home l sid ((ht.mem l sid).1 hin)).2.2
    have hskip : Proxy.dataIn cfg sid chunk env s = s.setSession sid { s.sessions sid with
        buffer := (s.sessions sid).buffer ++ chunk
        received := (s.sessions sid).received ++ chunk } := by
      unfold Proxy.dataIn processInput
      dsimp only
      rw [State.setSession_self, if_pos (by simp [hread])]
    rw [hskip]
    exact Undisturbed.setSession rfl rfl (List.prefix_append _ _)
  · exact Undisturbed.of_local (ht.dataIn hserved.sound m chunk env).2 hm

theorem step (h : Waits cfg l sid n s) (hserved : Served cfg s) {e : Event ρ}
    (hs : Proxy.step cfg s e = some s') :
    Waits cfg l sid n s' ∨ (s'.sessions sid).closed = true ∨
      n < (s'.sessions sid).accepted.length := by
  have hf := hserved.sound.forwarding
  have hnone : ∀ {t : State ρ}, t.loop = .idle → t.loop.inTurn = none := by
    intro t ht
    rw [ht]
    rfl
  cases stepped hs with
  | addSession hloop =>
    have hne : sid ≠ s.count := Nat.ne_of_lt (hf.known sid h.opened)
    exact h.keep_idle hloop (Undisturbed.of_eq (State.setSession_ne s hne _) id) (hnone hloop)
  | dataIn m chunk env hloop hdel =>
    have hlocal := ((hserved.idle hloop).dataIn hserved.sound m chunk env).2
    exact h.keep_idle hloop (h.dataIn hserved hloop m chunk env) (hnone (hlocal.loop.trans hloop))
  | close m hloop hopen =>
    exact h.keep_idle hloop (Undisturbed.setSession rfl rfl List.prefix_rfl) (hnone hloop)
  | delSession m hloop hclosed =>
    have hne : sid ≠ m := by
      rintro rfl
      have hopen := h.opened
      rw [hclosed] at hopen
      cases hopen
    refine h.keep_idle hloop (Undisturbed.of_eq (State.setSession_ne s hne _) ?_) (hnone hloop)
    intro hfirst
    show ((s.links l).ready.filter fun y => decide (y ≠ m)).head? = some sid
    cases hready : (s.links l).ready with
    | nil =>
      rw [hready] at hfirst
      cases hfirst
    | cons y ready =>
      rw [hready, List.head?_cons, Option.some.injEq] at hfirst
      subst hfirst
      rw [List.filter_cons_of_pos (by simpa using hne)]
      rfl
  | reply m x sendOk hloop hhanded =>
    cases hcase : (s.links m).handed with
    | nil => exact absurd hcase hhanded
    | cons y rest =>
      exact h.keep_idle hloop (Undisturbed.onReply (hf.link m) hcase x sendOk)
        (hnone ((loop_onReply cfg m x sendOk s).trans hloop))
  | disconnect m hloop hhanded => exact h.keep_idle hloop (Undisturbed.setLink rfl) (hnone hloop)
  | connectFailed m send hloop =>
    have hdown : Undisturbed l sid s (linkDown m s) := Undisturbed.setLink rfl
    have hflush : Undisturbed l sid (linkDown m s) (connectFailed cfg m send s) := by
      refine Undisturbed.flush _ (hf.setLink rfl rfl rfl) ?_
      unfold linkDown
      rw [State.setLink_self]
    exact h.keep_idle hloop (hdown.trans hflush) (hnone ((loop_flush cfg m send _ _).trans hloop))
  | dial m ok hloop =>
    refine h.keep_idle hloop ?_ (hnone ((loop_dial m ok s).trans hloop))
    unfold dial
    dsimp only
    split
    · exact Undisturbed.setLink rfl
    · exact Undisturbed.setLink rfl
  | requestStop hloop => exact h.keep_idle hloop (Undisturbed.of_eq rfl id) (hnone hloop)
  | startResume m posted hloop hposted =>
    have hu : Undisturbed l sid s
        (s.setLink m { s.links m with resumeArmed := false, resuming := true }) :=
      Undisturbed.setLink rfl
    exact h.keep_idle hloop ⟨hu.first, hu.link, hu.accepted, hu.buffer⟩ rfl
  | takeReady m remaining progress hloop => exact h.takeReady hloop
  | resumeTaken m remaining progress x env hloop => exact h.resumeTaken hserved hloop env
  | settleTurn m remaining progress x consumed hloop => exact h.settleTurn hloop

end Waits

/-- **No overtaking, for all that is taken.**  Outside `Resume`, on a link that is up and has a
paused session, no step takes a command of the sessions of the link. -/
theorem Served.none_taken {e : Event ρ} (h : Served cfg s) (hloop : s.loop = .idle)
    (hp : (s.links l).paused ≠ ∅) (hup : (s.links l).up = true) (hs : Proxy.step cfg s e = some s')
    (hlink : (s.sessions sid).link = l) :
    (s'.sessions sid).accepted.length ≤ (s.sessions sid).accepted.length := by
  have hf := h.sound.forwarding
  have hof : ∀ {t : State ρ}, Undisturbed l sid s t →
      (t.sessions sid).accepted.length ≤ (s.sessions sid).accepted.length :=
    fun hu => (congrArg List.length hu.accepted).le
  cases stepped hs with
  | addSession hloop' =>
    show ((s.setSession s.count _).sessions sid).accepted.length ≤ _
    by_cases hm : sid = s.count
    · subst hm
      rw [State.setSession_self]
      exact Nat.zero_le _
    · rw [State.setSession_ne s hm]
  | dataIn m chunk env hloop' hdel =>
    have hblocked := @blocked_dataIn _ l s cfg hp (h.resuming_of_idle hloop l) m chunk env
    rw [hblocked.accepted hup sid hlink]
  | close m hloop' hopen => exact hof (Undisturbed.setSession rfl rfl List.prefix_rfl)
  | delSession m hloop' hclosed =>
    show ((s.setSession m { s.sessions m with deleted := true }).sessions sid).accepted.length ≤ _
    exact hof (Undisturbed.setSession rfl rfl List.prefix_rfl)
  | reply m x sendOk hloop' hhanded =>
    obtain ⟨y, rest, hcase⟩ := List.exists_cons_of_ne_nil hhanded
    exact hof (Undisturbed.onReply (hf.link m) hcase x sendOk)
  | disconnect m hloop' hhanded => exact le_rfl
  | connectFailed m send hloop' =>
    have hdown : Undisturbed l sid s (linkDown m s) := Undisturbed.setLink rfl
    refine hof (hdown.trans (Undisturbed.flush _ (hf.setLink rfl rfl rfl) ?_))
    unfold linkDown
    rw [State.setLink_self]
  | dial m ok hloop' =>
    unfold dial
    dsimp only
    split
    · exact le_rfl
    · exact le_rfl
  | requestStop hloop' => exact le_rfl
  | startResume m posted hloop' hposted => exact le_rfl
  | takeReady m remaining progress hloop' | resumeTaken m remaining progress x env hloop'
  | settleTurn m remaining progress x consumed hloop' =>
    rw [hloop] at hloop'
    cases hloop'

/-! ## Resume ends

`Resume` gives at most as many turns as there were sessions in the queue when it started, and a turn
is two steps.  A session that is first gets the next turn, and if its command fits, the command is
taken in it. -/

/-- The steps that `Resume` still has at most. -/
def Loop.left : Loop → Nat
  | .idle => 0
  | .resuming _ remaining _ => 3 * remaining + 1
  | .taken _ remaining _ _ => 3 * remaining + 3
  | .resumed _ remaining _ _ _ => 3 * remaining + 2

/-- While `Resume` runs, it can go on. -/
theorem resume_enabled (cfg : Config) (hloop : s.loop ≠ .idle) : ∃ e s', step cfg s e = some s' := by
  cases hl : s.loop with
  | idle => exact absurd hl hloop
  | resuming l remaining progress =>
    refine ⟨.takeReady, takeReady cfg l remaining progress s, ?_⟩
    simp only [step, hl]
  | taken l remaining progress sid =>
    refine ⟨.resumeTaken fun _ => {}, resumeTaken cfg l remaining progress sid (fun _ => {}) s, ?_⟩
    simp only [step, hl]
  | resumed l remaining progress sid consumed =>
    refine ⟨.settleTurn, settleTurn cfg l remaining progress sid consumed s, ?_⟩
    simp only [step, hl]

/-- Nothing happens in between, and every step brings it closer to its end. -/
theorem resume_ends {e : Event ρ} (hloop : s.loop ≠ .idle) (hs : step cfg s e = some s') :
    s'.loop.left < s.loop.left := by
  cases stepped hs with
  | takeReady l remaining progress hl =>
    rw [hl]
    rcases takeReady_cases cfg l remaining progress s with ⟨-, heq⟩ | ⟨rest, x, ready, hrest, -, heq⟩
    · rw [heq, loop_finishResume]
      exact Nat.succ_pos _
    · rw [heq, hrest]
      show 3 * rest + 3 < 3 * (rest + 1) + 1
      omega
  | resumeTaken l remaining progress sid env hl =>
    rw [hl]
    unfold resumeTaken
    split
    · show 3 * remaining + 1 < 3 * remaining + 3
      omega
    · show 3 * remaining + 2 < 3 * remaining + 3
      omega
  | settleTurn l remaining progress sid consumed hl =>
    rw [hl]
    unfold settleTurn
    dsimp only
    split
    · rw [loop_finishResume]
      exact Nat.succ_pos _
    · show 3 * remaining + 1 < 3 * remaining + 2
      omega
  | addSession hl | dataIn _ _ _ hl | close _ hl | delSession _ hl | reply _ _ _ hl
  | disconnect _ hl | connectFailed _ _ hl | dial _ _ hl | requestStop hl | startResume _ _ hl =>
    exact absurd hl hloop

/-- There is room for one more command of this size. -/
def Link.Fits (cfg : Config) (k : Link) (size : Nat) : Prop :=
  k.pending.length < cfg.maxPendingCommands ∧ size ≤ cfg.maxPendingBytes - k.pendingBytes

/-- The session that is first gets the next turn, and a command that fits is taken in it. -/
theorem Waits.taken {n size count remaining : Nat} {progress : Bool} (h : Waits cfg l sid n s)
    (hserved : Served cfg s) (hloop : s.loop = .resuming l (remaining + 1) progress)
    (hscan : scanCommand cfg.maxPendingBytes (s.sessions sid).buffer = .command size count)
    (hfits : (s.links l).Fits cfg size) (env : Nat → IssueEnv) :
    ∃ s', runFrom (Proxy.step cfg) s [.takeReady, .resumeTaken env] = some s' ∧
      ((s'.sessions sid).closed = true ∨ n < (s'.sessions sid).accepted.length) := by
  obtain ⟨hcommands, hbytes⟩ := hfits
  have hpos := (scanCommand_size hscan).1
  have hfirst : (s.links l).ready.head? = some sid := by
    cases h.place with
    | first hfirst hturn => exact hfirst
    | taken r p hl | back r p hl hpaused =>
      rw [hloop] at hl
      cases hl
  have htake : Proxy.step cfg s .takeReady = some (Proxy.takeReady cfg l (remaining + 1) progress s) := by
    simp only [Proxy.step, hloop]
  rcases takeReady_cases cfg l (remaining + 1) progress s with ⟨hstop, -⟩ |
    ⟨rest, x, ready, hrest, hready, heq⟩
  · -- the loop does not end here
    rcases hstop with hzero | hnil | hfull | hfull
    · cases hzero
    · rw [hnil] at hfirst
      cases hfirst
    · omega
    · omega
  rw [hready, List.head?_cons, Option.some.injEq] at hfirst
  subst hfirst
  have htaken := hserved.step htake
  rw [heq] at htake htaken
  generalize ht : ({ s.setLink l { s.links l with
    ready := ready, paused := (s.links l).paused.erase x } with
      loop := Loop.taken l rest progress x } : State ρ) = t at htake htaken
  have hsession : t.sessions x = s.sessions x := by
    rw [← ht]
    rfl
  have hlink : (t.links l).pending = (s.links l).pending ∧
      (t.links l).pendingBytes = (s.links l).pendingBytes := by
    rw [← ht]
    show ((s.setLink l _).links l).pending = _ ∧ ((s.setLink l _).links l).pendingBytes = _
    rw [State.setLink_self]
    exact ⟨rfl, rfl⟩
  have hl : t.loop = .taken l rest progress x := by rw [← ht]
  refine ⟨Proxy.resumeTaken cfg l rest progress x env t, runFrom_cons.2 ⟨t, htake, ?_⟩, ?_⟩
  · simp only [runFrom, Proxy.step, hl, Option.bind_some]
  have hopen : (t.sessions x).closed = false := by
    rw [hsession]
    exact h.opened
  have hres : (t.links (t.sessions x).link).resuming = true := by
    rw [htaken.turns.resuming, hl, hsession, h.link]
    rfl
  have hturn := @turnTaken_resumeRead _ cfg x t hopen hres env
  unfold Proxy.resumeTaken
  rw [if_neg (by rw [hopen]; exact Bool.false_ne_true)]
  dsimp only
  generalize (resumeRead cfg x env t).1 = u at hturn ⊢
  generalize (resumeRead cfg x env t).2 = consumed at hturn
  cases hturn with
  | took haccepted =>
    rw [hsession, h.accepted] at haccepted
    exact Or.inr (by omega)
  | closed hlinks hclosed => exact Or.inl hclosed
  | more hmore hlinks =>
    rw [hsession, hscan] at hmore
    cases hmore
  | refused size' count' hscan' hsize hfull hquiet hread =>
    rw [hsession, hscan] at hscan'
    cases hscan'
    rw [hsession, h.link, hlink.1, hlink.2] at hfull
    omega

/-- **The first in the queue stays first.**  A session that is first with a whole command keeps its
place in every run, until it is closed or the command is taken from it. -/
theorem Waits.run {n : Nat} {es : List (Event ρ)} (h : Waits cfg l sid n s) (hserved : Served cfg s)
    (hrun : runFrom (Proxy.step cfg) s es = some s') :
    Waits cfg l sid n s' ∨ ∃ es₁ es₂ t, es = es₁ ++ es₂ ∧ runFrom (Proxy.step cfg) s es₁ = some t ∧
      ((t.sessions sid).closed = true ∨ n < (t.sessions sid).accepted.length) := by
  have hkeep := @runFrom_until _ _ (Proxy.step cfg) (fun t => Waits cfg l sid n t ∧ Served cfg t)
    (fun t => (t.sessions sid).closed = true ∨ n < (t.sessions sid).accepted.length)
    (by
      intro t e t' ht hs
      rcases ht.1.step ht.2 hs with hw | hgone
      · exact Or.inl ⟨hw, ht.2.step hs⟩
      · exact Or.inr hgone) es s s' ⟨h, hserved⟩ hrun
  rcases hkeep with hw | hgone
  · exact Or.inl hw.1
  · exact Or.inr hgone

/-- What is promised of the paused sessions. -/
structure ServedInTurn (cfg : Config) (s : State ρ) : Prop where
  /-- `vReady` is `vPaused`, each session once. -/
  nodup : ∀ l, (s.links l).ready.Nodup
  mem : ∀ l sid, sid ∈ (s.links l).ready ↔ sid ∈ (s.links l).paused
  /-- Outside the stop of the process, a link with paused sessions and nothing on its way has its
  `Resume` posted, or it is running. -/
  resume : s.stopRequested = false → ∀ l, (s.links l).paused ≠ ∅ → (s.links l).pending = [] →
    ((s.links l).resumeArmed = true ∧ l ∈ s.posted) ∨
      ((s.links l).resuming = true ∧ s.loop.link = some l)
  /-- A session whose reading is paused has its place, or its turn. -/
  waiting : ∀ sid, (s.sessions sid).closed = false → (s.sessions sid).readPaused = true →
    sid ∈ (s.links (s.sessions sid).link).paused ∨ s.loop.turn = some sid
  /-- Outside `Resume` nothing is handed to a link that has a paused session. -/
  noOvertaking : s.loop = .idle → ∀ l, (s.links l).paused ≠ ∅ → ∀ e s', step cfg s e = some s' →
    (s'.links l).handed <:+ (s.links l).handed
  /-- And no command of its sessions is taken, but to be answered because the link is down. -/
  noneTaken : s.loop = .idle → ∀ l, (s.links l).paused ≠ ∅ → (s.links l).up = true →
    ∀ e s', step cfg s e = some s' → ∀ sid, (s.sessions sid).link = l →
      (s'.sessions sid).accepted.length ≤ (s.sessions sid).accepted.length
  /-- The first in the queue, whether its command fits or not, stays first until it is closed or its
  command is taken. -/
  first : ∀ l sid n, Waits cfg l sid n s → ∀ es s', runFrom (step cfg) s es = some s' →
    (Waits cfg l sid n s' ∧ (s'.loop = .idle → (s'.links l).ready.head? = some sid)) ∨
      ∃ es₁ es₂ t, es = es₁ ++ es₂ ∧ runFrom (step cfg) s es₁ = some t ∧
        ((t.sessions sid).closed = true ∨ n < (t.sessions sid).accepted.length)
  /-- `Resume` can always go on, nothing else happens meanwhile, and it comes to its end. -/
  ends : s.loop ≠ .idle → (∃ e s', step cfg s e = some s') ∧
    ∀ e s', step cfg s e = some s' → s'.loop.left < s.loop.left
  /-- In it the first gets the next turn, and a command that fits is taken. -/
  taken : ∀ l sid n remaining progress, Waits cfg l sid n s →
    s.loop = .resuming l (remaining + 1) progress → ∀ size count,
    scanCommand cfg.maxPendingBytes (s.sessions sid).buffer = .command size count →
    (s.links l).Fits cfg size → ∀ env, ∃ s',
      runFrom (step cfg) s [.takeReady, .resumeTaken env] = some s' ∧
        ((s'.sessions sid).closed = true ∨ n < (s'.sessions sid).accepted.length)

/-- **No paused session is forgotten, and they are served in turn.**  This holds in every run of
reads, replies, connects, disconnects, failed submissions and closes. -/
theorem served_in_turn (cfg : Config) {es : List (Event ρ)} {s : State ρ}
    (hrun : runFrom (step cfg) State.init es = some s) : ServedInTurn cfg s := by
  have h := served_run hrun
  have ht := h.turns
  refine ⟨ht.nodup, ht.mem, ?_, ht.waiting, ?_, ?_, ?_, ?_, ?_⟩
  · intro hs l hp hpend
    rcases ht.armed hs l (by simp) hp hpend with harmed | hres
    · refine Or.inl ⟨harmed, ?_⟩
      have hcount := ht.posted l
      rw [harmed, if_pos rfl] at hcount
      exact List.count_pos_iff.1 (by omega)
    · exact Or.inr ⟨hres, (ht.resuming l).1 hres⟩
  · intro hloop l hp e s' hs
    exact h.handed_suffix hloop hp hs
  · intro hloop l hp hup e s' hs sid hlink
    exact h.none_taken hloop hp hup hs hlink
  · intro l sid n hw es' s' hrun'
    rcases hw.run h hrun' with hw' | hgone
    · exact Or.inl ⟨hw', fun hloop => hw'.head hloop⟩
    · exact Or.inr hgone
  · intro hloop
    exact ⟨resume_enabled cfg hloop, fun e s' hs => resume_ends hloop hs⟩
  · intro l sid n remaining progress hw hloop size count hscan hfits env
    exact hw.taken h hloop hscan hfits env

/-- Room for one command. -/
def oneCommand : Config :=
  { maxPendingCommands := 1, commands_min := Nat.one_pos, connections_min := Nat.one_pos }

/-- The credit is used up by one session, another one is paused, and the reply gives it its turn. -/
def creditUsed : List (Event Nat) :=
  [.dial 0 true, .addSession, .addSession, .dataIn 0 ping fun _ => {}, .dataIn 1 ping fun _ => {},
    .reply 0 (some 7) true]

/-- The `Resume` that is posted then: it gives one turn. -/
def oneTurn : List (Event Nat) :=
  [.startResume, .takeReady, .resumeTaken fun _ => {}, .settleTurn, .takeReady]

/-- The second session is paused and first; its `Resume` is posted, takes its command and ends. -/
theorem served_in_turn_creditUsed :
    ∃ s, runFrom (step oneCommand) State.init creditUsed = some s ∧ ServedInTurn oneCommand s ∧
      (s.links 0).ready = [1] ∧ s.posted = [0] ∧ Waits oneCommand 0 1 0 s ∧
      ∃ t, runFrom (step oneCommand) s oneTurn = some t ∧ ServedInTurn oneCommand t ∧
        t.loop = .idle ∧ (t.links 0).ready = [] ∧ (t.sessions 1).accepted = [ping] ∧
        (t.sessions 1).readPaused = false := by
  have hend : (runFrom (step oneCommand) State.init creditUsed).map
      (fun s => decide ((s.links 0).ready = [1] ∧ s.posted = [0] ∧ s.loop = .idle ∧
        (s.sessions 1).closed = false ∧ (s.sessions 1).link = 0 ∧ (s.sessions 1).accepted = [] ∧
        (s.sessions 1).buffer = ping)) = some true := by
    decide +kernel
  have hturn : (runFrom (step oneCommand) State.init (creditUsed ++ oneTurn)).map
      (fun t => decide (t.loop = .idle ∧ (t.links 0).ready = [] ∧
        (t.sessions 1).accepted = [ping] ∧ (t.sessions 1).readPaused = false)) = some true := by
    decide +kernel
  have hscan : scanCommand oneCommand.maxPendingBytes ping = .command 14 1 := by decide +kernel
  obtain ⟨s, hs, heq⟩ := Option.map_eq_some_iff.1 hend
  obtain ⟨hready, hposted, hloop, hopen, hlink, hacc, hbuffer⟩ := of_decide_eq_true heq
  obtain ⟨t, ht, hdone⟩ := Option.map_eq_some_iff.1 hturn
  obtain ⟨s₁, hs₁, hrest⟩ := runFrom_append.1 ht
  obtain rfl : s = s₁ := Option.some.inj (hs.symm.trans hs₁)
  refine ⟨s, hs, served_in_turn oneCommand hs, hready, hposted,
    ⟨hopen, hlink, ?_, ⟨14, 1, ?_⟩, .first ?_ ?_⟩,
    t, hrest, served_in_turn oneCommand ht, of_decide_eq_true hdone⟩
  · rw [hacc]
    rfl
  · rw [hbuffer]
    exact hscan
  · rw [hready]
    rfl
  · intro m
    rw [hloop]
    simp [Loop.inTurn]

end OpenIdea.Redis.Proxy
