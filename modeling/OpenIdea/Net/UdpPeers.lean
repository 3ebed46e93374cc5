import Mathlib.Algebra.Order.Ring.Int
import Mathlib.Data.List.Basic
import Mathlib.Data.List.Count
import OpenIdea.Lib.Runs

/-!
# The peers of a UDP channel (oi_udp_channel.cpp)

A bound UDP channel keeps one session for each remote endpoint. `m_mPeers` and `m_mSessions` are
guarded by the peer lock, `m_vClosing` and `m_bRecyclePosted` by the closing lock. A peer whose
session has closed is put into `m_vClosing` by whoever closed it, and taken out of the tables and
destroyed by `Recycle` on the poll thread. Until then it lives beside the peer that may have
replaced it at its endpoint.

`OpenLocked` is three steps under the peer lock: the entry in `m_mPeers`, the publication of the
session by `AddSession`, and the entry in `m_mSessions`; an incoming datagram opens its peer in the
same steps. A close is two: the status is stored, then `MarkClosing` is called, both under the
session lock. The numbers that `AddSession` gives are arbitrary here. The peer lock is recursive, so
`OnAddSession` could open another peer before `AddSession` returns; such a nested opening is not a
step here. One peer is followed through a run by `publishedAs_run`; what holds of all of them is
`peers_consistent`.
-/

set_option autoImplicit false

namespace OpenIdea.Net.UdpPeers

open OpenIdea.Lib.Runs

variable {E : Type}

/-- A `UDP_PeerChannel` with its session. -/
structure Peer (E : Type) where
  sEndpoint : E
  iSessionId : ℤ
  /-- `AddSession` has made the session known. -/
  published : Bool
  /-- `iStatus` is `IO_ST_CONNECTED`. -/
  connected : Bool
  m_bClosing : Bool
  /-- A thread has stored the closed status and is about to call `MarkClosing`. -/
  closer : Bool
  /-- How often it has been put into `m_vClosing`. -/
  put : ℕ
  /-- How often `Recycle` has finished with it. -/
  recycled : ℕ

/-- Who holds the peer lock across steps: `OpenLocked`, with the peer it makes. -/
inductive Opening where
  /-- The entry in `m_mPeers` is made. -/
  | inserted (p : ℕ)
  /-- `AddSession` has returned. -/
  | added (p : ℕ)
  deriving DecidableEq

def Opening.peer : Opening → ℕ
  | .inserted p => p
  | .added p => p

/-- `AddSession` has made the session known. -/
def Opening.published : Opening → Bool
  | .inserted _ => false
  | .added _ => true

/-- Where the poll thread is in `Recycle`. -/
inductive Recycler where
  | idle
  /-- The peers swapped out of `m_vClosing` that are still to come. -/
  | recycling (vClosing : List ℕ)
  /-- The first one is out of the tables. -/
  | detaching (p : ℕ) (vClosing : List ℕ)
  deriving DecidableEq

/-- The peers in the recycler's hands. -/
def Recycler.peers : Recycler → List ℕ
  | .idle => []
  | .recycling vClosing => vClosing
  | .detaching p vClosing => p :: vClosing

structure State (E : Type) where
  /-- The peers are numbered as they are made. -/
  peer : ℕ → Peer E
  created : ℕ
  m_mPeers : E → Option ℕ
  m_mSessions : ℤ → Option ℕ
  peerLock : Option Opening
  m_vClosing : List ℕ
  m_bRecyclePosted : Bool
  /-- The threads between the closing lock and `PostOnLoop`. -/
  toPost : ℕ
  /-- The recycles queued on the loop. -/
  queued : ℕ
  recycler : Recycler

variable [DecidableEq E]

/-- A new peer for an endpoint, with a connected session that nobody knows yet. -/
def newPeer (sEndpoint : E) : Peer E where
  sEndpoint := sEndpoint
  iSessionId := 0
  published := false
  connected := true
  m_bClosing := false
  closer := false
  put := 0
  recycled := 0

def init (sEndpoint : E) : State E where
  peer := fun _ => newPeer sEndpoint
  created := 0
  m_mPeers := fun _ => none
  m_mSessions := fun _ => none
  peerLock := none
  m_vClosing := []
  m_bRecyclePosted := false
  toPost := 0
  queued := 0
  recycler := .idle

/-- A change to one peer. -/
def State.setPeer (s : State E) (p : ℕ) (stPeer : Peer E) : State E :=
  { s with peer := Function.update s.peer p stPeer }

/-- The peer that `OpenLocked` finds: the one of the table, unless its session is closed. -/
def State.found (s : State E) (sEndpoint : E) : Option ℕ :=
  (s.m_mPeers sEndpoint).filter fun p => (s.peer p).connected

/-- A new peer takes the entry of its endpoint; its maker keeps the peer lock. -/
def State.makePeer (s : State E) (sEndpoint : E) : State E :=
  { s.setPeer s.created (newPeer sEndpoint) with
    created := s.created + 1
    m_mPeers := Function.update s.m_mPeers sEndpoint (some s.created)
    peerLock := some (.inserted s.created) }

/-- `OpenLocked` up to the entry in `m_mPeers`; where a peer is found, it is all of it. -/
def State.openLocked (s : State E) (sEndpoint : E) : State E :=
  match s.found sEndpoint with
  | some _ => s
  | none => s.makePeer sEndpoint

/-- `MarkClosing` up to the release of the closing lock. -/
def State.markClosing (s : State E) (p : ℕ) : State E :=
  if (s.peer p).m_bClosing then s
  else
    { s.setPeer p { s.peer p with m_bClosing := true, put := (s.peer p).put + 1 } with
      m_vClosing := s.m_vClosing ++ [p]
      toPost := if s.m_bRecyclePosted then s.toPost else s.toPost + 1
      m_bRecyclePosted := true }

/-- The part of `Recycle` under the peer lock: the entries that refer to the peer itself go. -/
def State.removeEntries (s : State E) (p : ℕ) : State E :=
  { s with
    m_mPeers :=
      if s.m_mPeers (s.peer p).sEndpoint = some p then
        Function.update s.m_mPeers (s.peer p).sEndpoint none
      else s.m_mPeers
    m_mSessions :=
      if s.m_mSessions (s.peer p).iSessionId = some p then
        Function.update s.m_mSessions (s.peer p).iSessionId none
      else s.m_mSessions }

inductive Event (E : Type) where
  /-- `OpenPeer` on any thread, or a datagram from the endpoint, takes the peer lock. -/
  | openPeer (sEndpoint : E)
  /-- The session of the new peer is published under a number. -/
  | addSession (iSessionId : ℤ)
  /-- The entry in `m_mSessions`, and the peer lock is released. -/
  | opened
  /-- `NetSession::Close` stores the status: an active, passive or idle close. -/
  | close (p : ℕ)
  /-- The closing thread calls `AllowSend`, which calls `MarkClosing`, and releases the session. -/
  | markClosing (p : ℕ)
  /-- `AllowSend` is called once more on a closed session. -/
  | allowSend (p : ℕ)
  /-- `PostOnLoop`. -/
  | post
  /-- The loop runs `Recycle`: `m_vClosing` is swapped out. -/
  | recycle
  /-- The next peer is taken out of the tables. -/
  | removeEntries
  /-- It is detached, the manager is told, and it is deleted. -/
  | destroy
  /-- `Recycle` returns. -/
  | recycleReturns
  deriving DecidableEq

def step (s : State E) : Event E → Option (State E)
  | .openPeer sEndpoint => if s.peerLock = none then some (s.openLocked sEndpoint) else none
  | .addSession iSessionId =>
      match s.peerLock with
      | some (.inserted p) =>
          some { s.setPeer p { s.peer p with iSessionId := iSessionId, published := true } with
            peerLock := some (.added p) }
      | _ => none
  | .opened =>
      match s.peerLock with
      | some (.added p) =>
          some { s with
            m_mSessions := Function.update s.m_mSessions (s.peer p).iSessionId (some p)
            peerLock := none }
      | _ => none
  | .close p =>
      -- nobody else holds the session, and it has not been closed
      if p < s.created ∧ (s.peer p).published ∧ (s.peer p).connected then
        some (s.setPeer p { s.peer p with connected := false, closer := true })
      else none
  | .markClosing p =>
      if p < s.created ∧ (s.peer p).closer then
        some ((s.setPeer p { s.peer p with closer := false }).markClosing p)
      else none
  | .allowSend p =>
      if p < s.created ∧ (s.peer p).published ∧ (s.peer p).connected = false ∧
          (s.peer p).closer = false ∧ (s.peer p).recycled = 0 then
        some (s.markClosing p)
      else none
  | .post =>
      if s.toPost = 0 then none
      else some { s with toPost := s.toPost - 1, queued := s.queued + 1 }
  | .recycle =>
      if s.recycler = .idle ∧ s.queued ≠ 0 then
        some { s with
          queued := s.queued - 1
          m_vClosing := []
          m_bRecyclePosted := false
          recycler := .recycling s.m_vClosing }
      else none
  | .removeEntries =>
      match s.recycler, s.peerLock with
      | .recycling (p :: vClosing), none =>
          some { s.removeEntries p with recycler := .detaching p vClosing }
      | _, _ => none
  | .destroy =>
      match s.recycler with
      | .detaching p vClosing =>
          some { s.setPeer p { s.peer p with recycled := (s.peer p).recycled + 1 } with
            recycler := .recycling vClosing }
      | _ => none
  | .recycleReturns => if s.recycler = .recycling [] then some { s with recycler := .idle } else none

/-! ## The invariant

A peer is in one of five places at any time. The tables refer to it by its own keys, and no longer
than until `Recycle` comes to it. -/

/-- The peer is out of the tables: `Recycle` has come to it. -/
def State.removed (s : State E) (p : ℕ) : Prop :=
  (s.peer p).recycled ≠ 0 ∨ ∃ vClosing, s.recycler = .detaching p vClosing

/-- The places a peer can be in: open, in the hands of the thread that closed it, in `m_vClosing`,
in the recycler's hands, or recycled. -/
def State.places (s : State E) (p : ℕ) : ℕ :=
  (s.peer p).connected.toNat + (s.peer p).closer.toNat + s.m_vClosing.count p +
    s.recycler.peers.count p + (s.peer p).recycled

/-- What holds of one peer. -/
structure PeerWf (s : State E) (p : ℕ) : Prop where
  /-- An open session is the one of its endpoint. -/
  mapped : (s.peer p).connected = true → s.m_mPeers (s.peer p).sEndpoint = some p
  place : s.places p = 1
  put : (s.peer p).connected.toNat + (s.peer p).closer.toNat + (s.peer p).put = 1
  closing : (s.peer p).m_bClosing = true ↔
    (s.peer p).connected = false ∧ (s.peer p).closer = false
  unpublished : (s.peer p).published = false →
    s.peerLock = some (.inserted p) ∧ (s.peer p).connected = true

/-- **The invariant.** -/
structure Wf (s : State E) : Prop where
  peers : ∀ p < s.created, PeerWf s p
  made : ∀ p ∈ s.m_vClosing ++ s.recycler.peers, p < s.created
  /-- The tables refer to peers by their own keys, and to none that is removed. -/
  inPeers : ∀ sEndpoint p, s.m_mPeers sEndpoint = some p →
    p < s.created ∧ (s.peer p).sEndpoint = sEndpoint ∧ ¬ s.removed p
  inSessions : ∀ i p, s.m_mSessions i = some p →
    p < s.created ∧ (s.peer p).iSessionId = i ∧ (s.peer p).published = true ∧ ¬ s.removed p
  /-- `Recycle` does not come to a peer before `OpenLocked` is done with it. -/
  opening : ∀ stOpening, s.peerLock = some stOpening →
    stOpening.peer < s.created ∧ ¬ s.removed stOpening.peer ∧
      (s.peer stOpening.peer).published = stOpening.published
  posts : s.toPost + s.queued = s.m_bRecyclePosted.toNat
  flagged : s.m_vClosing ≠ [] → s.m_bRecyclePosted = true

omit [DecidableEq E] in
theorem wf_init (sEndpoint : E) : Wf (init sEndpoint) where
  peers := fun p hp => absurd hp (Nat.not_lt_zero p)
  made := fun p hp => by cases hp
  inPeers := fun e p h => by cases h
  inSessions := fun i p h => by cases h
  opening := fun o h => by cases h
  posts := rfl
  flagged := fun h => absurd rfl h

omit [DecidableEq E] in
@[simp] theorem setPeer_self (s : State E) (p : ℕ) (stPeer : Peer E) :
    (s.setPeer p stPeer).peer p = stPeer :=
  Function.update_self _ _ _

variable {p : ℕ} {s s' : State E} {sEndpoint : E} {stPeer : Peer E}

omit [DecidableEq E] in
theorem setPeer_of_ne (s : State E) {q : ℕ} (hq : q ≠ p) (stPeer : Peer E) :
    (s.setPeer p stPeer).peer q = s.peer q :=
  Function.update_of_ne hq _ _

omit [DecidableEq E] in
/-- A peer whose session is open has not come to the recycler. -/
theorem PeerWf.not_removed (h : PeerWf s p) (hconnected : (s.peer p).connected = true) :
    ¬ s.removed p := by
  have hplace := h.place
  rw [State.places, hconnected] at hplace
  rintro (hrecycled | ⟨vClosing, hdetaching⟩)
  · simp only [Bool.toNat_true] at hplace
    omega
  · rw [hdetaching] at hplace
    simp only [Bool.toNat_true, Recycler.peers, List.count_cons_self] at hplace
    omega

/-! ## Opening

`OpenLocked` finds the open peer of an endpoint, or makes one that takes the entry over. -/

omit [DecidableEq E] in
/-- A found peer is open and belongs to the endpoint. -/
theorem found_eq_some :
    s.found sEndpoint = some p ↔ s.m_mPeers sEndpoint = some p ∧ (s.peer p).connected = true :=
  Option.filter_eq_some_iff

omit [DecidableEq E] in
/-- Where no peer is found, no open session has the endpoint. -/
theorem not_connected_of_found (h : Wf s) (hnone : s.found sEndpoint = none) (hp : p < s.created)
    (hendpoint : (s.peer p).sEndpoint = sEndpoint) : (s.peer p).connected = false := by
  by_contra hconnected
  rw [Bool.not_eq_false] at hconnected
  have hmapped := (h.peers p hp).mapped hconnected
  rw [hendpoint] at hmapped
  rw [found_eq_some.2 ⟨hmapped, hconnected⟩] at hnone
  cases hnone

omit [DecidableEq E] in
/-- What holds of a peer rests on the peer, its place in the lists and its endpoint's entry. -/
theorem PeerWf.transfer (h : PeerWf s p) (hpeer : s'.peer p = s.peer p)
    (hmapped : (s.peer p).connected = true → s.m_mPeers (s.peer p).sEndpoint = some p →
      s'.m_mPeers (s.peer p).sEndpoint = some p)
    (hcount : s'.m_vClosing.count p + s'.recycler.peers.count p =
      s.m_vClosing.count p + s.recycler.peers.count p)
    (hlock : (s.peer p).published = false → s.peerLock = some (.inserted p) →
      s'.peerLock = some (.inserted p)) : PeerWf s' p where
  mapped := by
    rw [hpeer]
    exact fun hconnected => hmapped hconnected (h.mapped hconnected)
  place := by
    have hplace := h.place
    rw [State.places] at hplace ⊢
    rw [hpeer]
    omega
  put := by
    rw [hpeer]
    exact h.put
  closing := by
    rw [hpeer]
    exact h.closing
  unpublished := by
    rw [hpeer]
    exact fun hpub => ⟨hlock hpub (h.unpublished hpub).1, (h.unpublished hpub).2⟩

omit [DecidableEq E] in
/-- Being removed rests on the peer and on the recycler. -/
theorem removed_congr (hpeer : s'.peer p = s.peer p) (hrecycler : s'.recycler = s.recycler) :
    s'.removed p ↔ s.removed p := by
  rw [State.removed, State.removed, hpeer, hrecycler]

theorem wf_makePeer (h : Wf s) (hfree : s.peerLock = none) (hnone : s.found sEndpoint = none) :
    Wf (s.makePeer sEndpoint) := by
  have hpeer : ∀ p < s.created, (s.makePeer sEndpoint).peer p = s.peer p :=
    fun p hp => setPeer_of_ne s (ne_of_lt hp) _
  have hnew : (s.makePeer sEndpoint).peer s.created = newPeer sEndpoint := setPeer_self s _ _
  have hremoved : ∀ p < s.created, ((s.makePeer sEndpoint).removed p ↔ s.removed p) :=
    fun p hp => removed_congr (hpeer p hp) rfl
  have hlist : s.created ∉ s.m_vClosing ++ s.recycler.peers :=
    fun hmem => lt_irrefl _ (h.made _ hmem)
  rw [List.mem_append, not_or] at hlist
  have hfresh : PeerWf (s.makePeer sEndpoint) s.created := by
    refine ⟨fun _ => ?_, ?_, ?_, ?_, fun _ => ⟨rfl, ?_⟩⟩
    · rw [hnew]
      exact Function.update_self _ _ _
    · rw [State.places, hnew]
      show 1 + 0 + s.m_vClosing.count s.created + s.recycler.peers.count s.created + 0 = 1
      rw [List.count_eq_zero_of_not_mem hlist.1, List.count_eq_zero_of_not_mem hlist.2]
    · rw [hnew]
      rfl
    · rw [hnew]
      exact ⟨fun hc => (by cases hc), fun hc => (by cases hc.1)⟩
    · rw [hnew]
      rfl
  refine ⟨?_, ?_, ?_, ?_, ?_, h.posts, h.flagged⟩
  · intro p hp
    rcases Nat.lt_succ_iff_lt_or_eq.1 hp with hp | rfl
    · refine (h.peers p hp).transfer (hpeer p hp) (fun hconnected hmapped => ?_) rfl ?_
      · -- the endpoint is not that of an open session
        have hne : (s.peer p).sEndpoint ≠ sEndpoint := fun heq => by
          rw [not_connected_of_found h hnone hp heq] at hconnected
          cases hconnected
        rw [← hmapped]
        exact Function.update_of_ne hne _ _
      · intro _ hlock
        rw [hfree] at hlock
        cases hlock
    · exact hfresh
  · exact fun p hp => (h.made p hp).trans (Nat.lt_succ_self _)
  · intro e p hfind
    have hfind' : Function.update s.m_mPeers sEndpoint (some s.created) e = some p := hfind
    by_cases he : e = sEndpoint
    · subst he
      rw [Function.update_self] at hfind'
      obtain rfl := Option.some.inj hfind'
      refine ⟨Nat.lt_succ_self _, by rw [hnew]; rfl, hfresh.not_removed ?_⟩
      rw [hnew]
      rfl
    · rw [Function.update_of_ne he] at hfind'
      obtain ⟨hp, hendpoint, hnot⟩ := h.inPeers e p hfind'
      exact ⟨hp.trans (Nat.lt_succ_self _), by rw [hpeer p hp, hendpoint],
        fun hr => hnot ((hremoved p hp).1 hr)⟩
  · intro i p hfind
    obtain ⟨hp, hid, hpub, hnot⟩ := h.inSessions i p hfind
    exact ⟨hp.trans (Nat.lt_succ_self _), by rw [hpeer p hp, hid], by rw [hpeer p hp, hpub],
      fun hr => hnot ((hremoved p hp).1 hr)⟩
  · intro stOpening hlock
    obtain rfl := Option.some.inj hlock
    show s.created < s.created + 1 ∧ ¬ (s.makePeer sEndpoint).removed s.created ∧
      ((s.makePeer sEndpoint).peer s.created).published = false
    refine ⟨Nat.lt_succ_self _, hfresh.not_removed ?_, ?_⟩
    · rw [hnew]
      rfl
    · rw [hnew]
      rfl

theorem wf_openLocked (h : Wf s) (hfree : s.peerLock = none) (sEndpoint : E) :
    Wf (s.openLocked sEndpoint) := by
  unfold State.openLocked
  cases hfound : s.found sEndpoint with
  | some p => exact h
  | none => exact wf_makePeer h hfree hfound

/-! ## One peer at a time

To publish, to close and to mark a peer changes its own record, so the invariant has to be shown
again for this one peer only. -/

omit [DecidableEq E] in
/-- **A step that concerns one peer** and leaves the tables alone. -/
theorem wf_peer (h : Wf s) (hp : p < s.created) (hpeer : s'.peer = (s.setPeer p stPeer).peer)
    (hcreated : s'.created = s.created)
    (htables : s'.m_mPeers = s.m_mPeers ∧ s'.m_mSessions = s.m_mSessions)
    (hkey : stPeer.sEndpoint = (s.peer p).sEndpoint)
    (hconnected : stPeer.connected = true → (s.peer p).connected = true)
    (hpublished : (s.peer p).published = true →
      stPeer.published = true ∧ stPeer.iSessionId = (s.peer p).iSessionId)
    (hremoved : ∀ q, s'.removed q → s.removed q)
    (hcount : ∀ q, q ≠ p → s'.m_vClosing.count q + s'.recycler.peers.count q =
      s.m_vClosing.count q + s.recycler.peers.count q)
    (hlists : ∀ q ∈ s'.m_vClosing ++ s'.recycler.peers,
      q ∈ s.m_vClosing ++ s.recycler.peers ∨ q = p)
    (hplace : stPeer.connected.toNat + stPeer.closer.toNat + s'.m_vClosing.count p +
      s'.recycler.peers.count p + stPeer.recycled = 1)
    (hput : stPeer.connected.toNat + stPeer.closer.toNat + stPeer.put = 1)
    (hclosing : stPeer.m_bClosing = true ↔ stPeer.connected = false ∧ stPeer.closer = false)
    (hunpublished : stPeer.published = false →
      s'.peerLock = some (.inserted p) ∧ stPeer.connected = true)
    (hopening : ∀ stOpening, s'.peerLock = some stOpening →
      (s.peerLock = some stOpening ∧ stOpening.peer ≠ p) ∨ (stOpening.peer = p ∧ ¬ s.removed p ∧
        stPeer.published = stOpening.published))
    (hkept : ∀ q, q ≠ p → s.peerLock = some (.inserted q) → s'.peerLock = some (.inserted q))
    (hposts : s'.toPost + s'.queued = s'.m_bRecyclePosted.toNat)
    (hflagged : s'.m_vClosing ≠ [] → s'.m_bRecyclePosted = true) : Wf s' := by
  have hself : s'.peer p = stPeer := by rw [hpeer, setPeer_self]
  have hothers : ∀ q, q ≠ p → s'.peer q = s.peer q := fun q hq => by rw [hpeer, setPeer_of_ne s hq]
  have hthis : PeerWf s' p := by
    refine ⟨?_, ?_, ?_, ?_, ?_⟩
    · rw [hself, hkey, htables.1]
      exact fun hc => (h.peers p hp).mapped (hconnected hc)
    · rw [State.places, hself]
      exact hplace
    · rw [hself]
      exact hput
    · rw [hself]
      exact hclosing
    · rw [hself]
      exact hunpublished
  refine ⟨?_, ?_, ?_, ?_, ?_, hposts, hflagged⟩
  · intro q hq
    by_cases hqp : q = p
    · exact hqp ▸ hthis
    · exact (h.peers q (hcreated ▸ hq)).transfer (hothers q hqp)
        (fun _ hmapped => htables.1 ▸ hmapped) (hcount q hqp) fun _ => hkept q hqp
  · intro q hq
    rw [hcreated]
    exact (hlists q hq).elim (h.made q) fun hqp => hqp ▸ hp
  · intro e q hfind
    rw [htables.1] at hfind
    obtain ⟨hq, hendpoint, hnot⟩ := h.inPeers e q hfind
    refine ⟨hcreated ▸ hq, ?_, fun hr => hnot (hremoved q hr)⟩
    by_cases hqp : q = p
    · rw [hqp, hself, hkey, ← hqp, hendpoint]
    · rw [hothers q hqp, hendpoint]
  · intro i q hfind
    rw [htables.2] at hfind
    obtain ⟨hq, hid, hpub, hnot⟩ := h.inSessions i q hfind
    refine ⟨hcreated ▸ hq, ?_⟩
    by_cases hqp : q = p
    · subst hqp
      obtain ⟨hpub', hid'⟩ := hpublished hpub
      rw [hself]
      exact ⟨hid'.trans hid, hpub', fun hr => hnot (hremoved q hr)⟩
    · rw [hothers q hqp]
      exact ⟨hid, hpub, fun hr => hnot (hremoved q hr)⟩
  · intro stOpening hlock
    rcases hopening stOpening hlock with ⟨hold, hne⟩ | ⟨heq, hnot, hpub⟩
    · obtain ⟨hq, hnot, hpub⟩ := h.opening stOpening hold
      exact ⟨hcreated ▸ hq, fun hr => hnot (hremoved _ hr), by rw [hothers _ hne, hpub]⟩
    · rw [heq, hself]
      exact ⟨hcreated ▸ hp, fun hr => hnot (hremoved _ hr), hpub⟩

omit [DecidableEq E] in
/-- A change of a peer that does not concern its recycling removes nobody. -/
theorem removed_of_setPeer (hpeer : s'.peer = (s.setPeer p stPeer).peer)
    (hrecycler : s'.recycler = s.recycler) (hrecycled : stPeer.recycled = (s.peer p).recycled)
    (q : ℕ) (hremoved : s'.removed q) : s.removed q := by
  rw [State.removed, hpeer, hrecycler] at hremoved
  by_cases hq : q = p
  · subst hq
    rw [setPeer_self, hrecycled] at hremoved
    exact hremoved
  · rw [setPeer_of_ne s hq] at hremoved
    exact hremoved

omit [DecidableEq E] in
theorem wf_addSession (h : Wf s) (hlock : s.peerLock = some (.inserted p)) (iSessionId : ℤ) :
    Wf { s.setPeer p { s.peer p with iSessionId := iSessionId, published := true } with
      peerLock := some (.added p) } := by
  obtain ⟨hp, hnot, hpub⟩ : p < s.created ∧ ¬ s.removed p ∧ (s.peer p).published = false :=
    h.opening _ hlock
  have hold := h.peers p hp
  refine wf_peer h hp rfl rfl ⟨rfl, rfl⟩ rfl id ?_ (removed_of_setPeer rfl rfl rfl)
    (fun _ _ => rfl) (fun q hq => Or.inl hq) hold.place hold.put hold.closing
    (fun hfalse => by cases hfalse) ?_ ?_ h.posts h.flagged
  · intro htrue
    rw [hpub] at htrue
    cases htrue
  · intro stOpening hopen
    obtain rfl := Option.some.inj hopen
    exact Or.inr ⟨rfl, hnot, rfl⟩
  · intro q hq hq'
    rw [hlock] at hq'
    cases hq'
    exact absurd rfl hq

omit [DecidableEq E] in
/-- The holder of the peer lock after a step that leaves the lock and the publication alone. -/
theorem opening_kept (h : Wf s) (hpublished : stPeer.published = (s.peer p).published)
    (stOpening : Opening) (hlock : s.peerLock = some stOpening) :
    (s.peerLock = some stOpening ∧ stOpening.peer ≠ p) ∨ (stOpening.peer = p ∧ ¬ s.removed p ∧
      stPeer.published = stOpening.published) := by
  by_cases hp : stOpening.peer = p
  · obtain ⟨-, hnot, hpub⟩ := h.opening stOpening hlock
    rw [hp] at hnot hpub
    exact Or.inr ⟨hp, hnot, hpublished.trans hpub⟩
  · exact Or.inl ⟨hlock, hp⟩

omit [DecidableEq E] in
theorem wf_close (h : Wf s) (hp : p < s.created) (hpublished : (s.peer p).published = true)
    (hconnected : (s.peer p).connected = true) :
    Wf (s.setPeer p { s.peer p with connected := false, closer := true }) := by
  have hold := h.peers p hp
  refine wf_peer h hp rfl rfl ⟨rfl, rfl⟩ rfl (fun hc => by cases hc)
    (fun hpub => ⟨hpub, rfl⟩) (removed_of_setPeer rfl rfl rfl) (fun _ _ => rfl)
    (fun q hq => Or.inl hq) ?_ ?_ ?_ ?_ (fun o => opening_kept h rfl o) (fun _ _ hlock => hlock)
    h.posts h.flagged
  · -- the place "open" is exchanged for "in the closer's hands"
    have hplace := hold.place
    rw [State.places, hconnected] at hplace
    show 0 + 1 + s.m_vClosing.count p + s.recycler.peers.count p + (s.peer p).recycled = 1
    simp only [Bool.toNat_true] at hplace
    omega
  · have hput := hold.put
    rw [hconnected] at hput
    show 0 + 1 + (s.peer p).put = 1
    simp only [Bool.toNat_true] at hput
    omega
  · show (s.peer p).m_bClosing = true ↔ false = false ∧ true = false
    have hclosing := hold.closing
    rw [hconnected] at hclosing
    rw [hclosing]
    exact ⟨fun hc => (by cases hc.1), fun hc => (by cases hc.2)⟩
  · intro hfalse
    have hfalse' : (s.peer p).published = false := hfalse
    rw [hpublished] at hfalse'
    cases hfalse'

omit [DecidableEq E] in
/-- The peer a closing thread marks has not been marked before. -/
theorem markClosing_eq (h : Wf s) (hp : p < s.created) (hcloser : (s.peer p).closer = true) :
    (s.setPeer p { s.peer p with closer := false }).markClosing p =
      { s.setPeer p
          { s.peer p with closer := false, m_bClosing := true, put := (s.peer p).put + 1 } with
        m_vClosing := s.m_vClosing ++ [p]
        toPost := if s.m_bRecyclePosted then s.toPost else s.toPost + 1
        m_bRecyclePosted := true } := by
  have hnot : (s.peer p).m_bClosing = false := by
    by_contra hmarked
    rw [Bool.not_eq_false, (h.peers p hp).closing, hcloser] at hmarked
    cases hmarked.2
  rw [State.markClosing, setPeer_self]
  simp only [hnot]
  rw [if_neg (by decide)]
  simp only [State.setPeer, Function.update_idem]
  rfl

omit [DecidableEq E] in
theorem wf_markClosing (h : Wf s) (hp : p < s.created) (hcloser : (s.peer p).closer = true) :
    Wf ((s.setPeer p { s.peer p with closer := false }).markClosing p) := by
  rw [markClosing_eq h hp hcloser]
  have hold := h.peers p hp
  have hplace := hold.place
  rw [State.places, hcloser] at hplace
  have hclosed : (s.peer p).connected = false := by
    cases hc : (s.peer p).connected with
    | false => rfl
    | true =>
      rw [hc] at hplace
      simp only [Bool.toNat_true] at hplace
      omega
  refine wf_peer h hp rfl rfl ⟨rfl, rfl⟩ rfl id (fun hpub => ⟨hpub, rfl⟩)
    (removed_of_setPeer rfl rfl rfl) ?_ ?_ ?_ ?_ ?_ hold.unpublished
    (fun o => opening_kept h rfl o) (fun _ _ hlock => hlock) ?_ (fun _ => rfl)
  · intro q hq
    show (s.m_vClosing ++ [p]).count q + _ = _
    rw [List.count_append, List.count_singleton, beq_false_of_ne (Ne.symm hq)]
    rfl
  · intro q hq
    rw [List.mem_append] at hq ⊢
    rcases hq with hq | hq
    · rcases List.mem_append.1 hq with hq | hq
      · exact Or.inl (Or.inl hq)
      · exact Or.inr (List.mem_singleton.1 hq)
    · exact Or.inl (Or.inr hq)
  · show (s.peer p).connected.toNat + 0 + (s.m_vClosing ++ [p]).count p +
      s.recycler.peers.count p + (s.peer p).recycled = 1
    rw [List.count_append, List.count_singleton_self]
    simp only [Bool.toNat_true] at hplace
    omega
  · have hput := hold.put
    rw [hcloser] at hput
    show (s.peer p).connected.toNat + 0 + ((s.peer p).put + 1) = 1
    simp only [Bool.toNat_true] at hput
    omega
  · show true = true ↔ (s.peer p).connected = false ∧ false = false
    exact ⟨fun _ => ⟨hclosed, rfl⟩, fun _ => rfl⟩
  · show (if s.m_bRecyclePosted then s.toPost else s.toPost + 1) + s.queued = 1
    have hposts := h.posts
    cases hflag : s.m_bRecyclePosted with
    | true =>
      rw [hflag] at hposts
      exact hposts
    | false =>
      rw [hflag, Bool.toNat_false] at hposts
      rw [if_neg (by decide)]
      omega

omit [DecidableEq E] in
/-- On a closed session `AllowSend` finds the peer marked. -/
theorem markClosing_again (h : Wf s) (hp : p < s.created) (hclosed : (s.peer p).connected = false)
    (hcloser : (s.peer p).closer = false) : s.markClosing p = s := by
  rw [State.markClosing, if_pos]
  exact (h.peers p hp).closing.2 ⟨hclosed, hcloser⟩

omit [DecidableEq E] in
theorem wf_opened (h : Wf s) (hlock : s.peerLock = some (.added p)) :
    Wf { s with
      m_mSessions := Function.update s.m_mSessions (s.peer p).iSessionId (some p)
      peerLock := none } := by
  obtain ⟨hp, hnot, hpub⟩ : p < s.created ∧ ¬ s.removed p ∧ (s.peer p).published = true :=
    h.opening _ hlock
  refine ⟨?_, h.made, h.inPeers, ?_, fun o ho => (by cases ho), h.posts, h.flagged⟩
  · intro q hq
    refine (h.peers q hq).transfer rfl (fun _ hmapped => hmapped) rfl fun _ hlock' => ?_
    rw [hlock] at hlock'
    cases hlock'
  · intro i q hfind
    have hfind' : Function.update s.m_mSessions (s.peer p).iSessionId (some p) i = some q := hfind
    by_cases hi : i = (s.peer p).iSessionId
    · subst hi
      rw [Function.update_self] at hfind'
      obtain rfl := Option.some.inj hfind'
      exact ⟨hp, rfl, hpub, hnot⟩
    · rw [Function.update_of_ne hi] at hfind'
      exact h.inSessions i q hfind'

/-! ## Recycling

`Recycle` takes out the entries that are the peer's own; a peer that has replaced it keeps those of
its endpoint. -/

omit [DecidableEq E] in
/-- **A step that moves peers from list to list.** -/
theorem wf_lists (h : Wf s) (hpeer : s'.peer = s.peer) (hcreated : s'.created = s.created)
    (htables : s'.m_mPeers = s.m_mPeers ∧ s'.m_mSessions = s.m_mSessions)
    (hlock : s'.peerLock = s.peerLock)
    (hremoved : ∀ vClosing p, s'.recycler ≠ .detaching p vClosing)
    (hcount : ∀ p, s'.m_vClosing.count p + s'.recycler.peers.count p =
      s.m_vClosing.count p + s.recycler.peers.count p)
    (hposts : s'.toPost + s'.queued = s'.m_bRecyclePosted.toNat)
    (hflagged : s'.m_vClosing ≠ [] → s'.m_bRecyclePosted = true) : Wf s' := by
  have hgone : ∀ p, s'.removed p → s.removed p := by
    rintro p (hr | ⟨vClosing, hd⟩)
    · exact Or.inl (hpeer ▸ hr)
    · exact absurd hd (hremoved vClosing p)
  refine ⟨?_, ?_, ?_, ?_, ?_, hposts, hflagged⟩
  · intro p hp
    exact (h.peers p (hcreated ▸ hp)).transfer (by rw [hpeer]) (fun _ hmapped => htables.1 ▸ hmapped)
      (hcount p) fun _ ho => hlock ▸ ho
  · intro p hp
    rw [hcreated]
    refine h.made p ?_
    have hpos := List.count_pos_iff.2 hp
    rw [List.count_append, hcount p, ← List.count_append] at hpos
    exact List.count_pos_iff.1 hpos
  · intro e p hfind
    rw [htables.1] at hfind
    obtain ⟨hp, hendpoint, hnot⟩ := h.inPeers e p hfind
    exact ⟨hcreated ▸ hp, hpeer ▸ hendpoint, fun hr => hnot (hgone p hr)⟩
  · intro i p hfind
    rw [htables.2] at hfind
    obtain ⟨hp, hid, hpub, hnot⟩ := h.inSessions i p hfind
    exact ⟨hcreated ▸ hp, hpeer ▸ hid, hpeer ▸ hpub, fun hr => hnot (hgone p hr)⟩
  · intro o ho
    rw [hlock] at ho
    obtain ⟨hp, hnot, hpub⟩ := h.opening o ho
    exact ⟨hcreated ▸ hp, fun hr => hnot (hgone _ hr), hpeer ▸ hpub⟩

omit [DecidableEq E] in
theorem wf_post (h : Wf s) (hpost : s.toPost ≠ 0) :
    Wf { s with toPost := s.toPost - 1, queued := s.queued + 1 } := by
  refine { h with peers := fun p hp => ?_, posts := ?_ }
  · exact (h.peers p hp).transfer rfl (fun _ hmapped => hmapped) rfl fun _ hlock => hlock
  · have hposts := h.posts
    show s.toPost - 1 + (s.queued + 1) = s.m_bRecyclePosted.toNat
    omega

omit [DecidableEq E] in
/-- `Recycle` takes all of `m_vClosing`; the next close posts a recycle again. -/
theorem wf_recycle (h : Wf s) (hidle : s.recycler = .idle) (hqueued : s.queued ≠ 0) :
    Wf { s with
      queued := s.queued - 1
      m_vClosing := []
      m_bRecyclePosted := false
      recycler := .recycling s.m_vClosing } := by
  refine wf_lists h rfl rfl ⟨rfl, rfl⟩ rfl (fun _ _ hd => by cases hd) ?_ ?_
    (fun hne => absurd rfl hne)
  · intro p
    show 0 + s.m_vClosing.count p = s.m_vClosing.count p + s.recycler.peers.count p
    rw [hidle]
    exact Nat.zero_add _
  · have hposts := h.posts
    show s.toPost + (s.queued - 1) = 0
    cases hflag : s.m_bRecyclePosted with
    | true =>
      rw [hflag, Bool.toNat_true] at hposts
      omega
    | false =>
      rw [hflag, Bool.toNat_false] at hposts
      omega

/-- The entry of a value is taken out of a map in which it can only stand under its own key. -/
theorem erase_own_iff {κ : Type} [DecidableEq κ] {f : κ → Option ℕ} {own : κ}
    (hkey : ∀ k, f k = some p → own = k) (k : κ) (q : ℕ) :
    (if f own = some p then Function.update f own none else f) k = some q ↔
      f k = some q ∧ q ≠ p := by
  by_cases hown : f own = some p
  · rw [if_pos hown]
    by_cases hk : k = own
    · subst hk
      rw [Function.update_self]
      constructor
      · intro hq
        cases hq
      · rintro ⟨hq, hne⟩
        exact absurd (Option.some.inj (hq.symm.trans hown)) hne
    · rw [Function.update_of_ne hk]
      exact ⟨fun hq => ⟨hq, fun hqp => hk (hkey _ (hqp ▸ hq)).symm⟩, fun hq => hq.1⟩
  · rw [if_neg hown]
    refine ⟨fun hq => ⟨hq, fun hqp => hown ?_⟩, fun hq => hq.1⟩
    subst hqp
    rw [hkey _ hq]
    exact hq

/-- The entries that `Recycle` leaves are those that do not refer to the peer. -/
theorem removeEntries_peers (h : Wf s) (p : ℕ) (sEndpoint : E) (q : ℕ) :
    (s.removeEntries p).m_mPeers sEndpoint = some q ↔
      s.m_mPeers sEndpoint = some q ∧ q ≠ p :=
  erase_own_iff (fun e he => (h.inPeers e p he).2.1) sEndpoint q

theorem removeEntries_sessions (h : Wf s) (p : ℕ) (i : ℤ) (q : ℕ) :
    (s.removeEntries p).m_mSessions i = some q ↔ s.m_mSessions i = some q ∧ q ≠ p :=
  erase_own_iff (fun i hi => (h.inSessions i p hi).2.1) i q

omit [DecidableEq E] in
/-- What the recycler holds is closed. -/
theorem closed_of_recycling (h : Wf s) (hp : p ∈ s.recycler.peers) :
    (s.peer p).connected = false := by
  have hplace := (h.peers p (h.made p (List.mem_append_right _ hp))).place
  have hcount := List.count_pos_iff.2 hp
  rw [State.places] at hplace
  cases hc : (s.peer p).connected with
  | false => rfl
  | true =>
    rw [hc] at hplace
    simp only [Bool.toNat_true] at hplace
    omega

theorem wf_removeEntries (h : Wf s) {vClosing : List ℕ}
    (hrecycler : s.recycler = .recycling (p :: vClosing)) (hfree : s.peerLock = none) :
    Wf { s.removeEntries p with recycler := .detaching p vClosing } := by
  have hmem : p ∈ s.recycler.peers := by
    rw [hrecycler]
    exact List.mem_cons_self
  have hclosed := closed_of_recycling h hmem
  have hremoved : ∀ q, q ≠ p → (({ s.removeEntries p with
      recycler := .detaching p vClosing } : State E).removed q) → s.removed q := by
    rintro q hq (hr | ⟨v, hd⟩)
    · exact Or.inl hr
    · cases hd
      exact absurd rfl hq
  refine ⟨?_, ?_, ?_, ?_, ?_, h.posts, h.flagged⟩
  · intro q hq
    refine (h.peers q hq).transfer rfl (fun hconnected hmapped => ?_) ?_ fun _ hlock => hlock
    · refine (removeEntries_peers h p _ q).2 ⟨hmapped, ?_⟩
      rintro rfl
      rw [hclosed] at hconnected
      cases hconnected
    · show _ + (p :: vClosing).count q = _ + s.recycler.peers.count q
      rw [hrecycler]
      rfl
  · intro q hq
    refine h.made q ?_
    rw [hrecycler]
    exact hq
  · intro e q hfind
    obtain ⟨hold, hne⟩ := (removeEntries_peers h p e q).1 hfind
    obtain ⟨hq, hendpoint, hnot⟩ := h.inPeers e q hold
    exact ⟨hq, hendpoint, fun hr => hnot (hremoved q hne hr)⟩
  · intro i q hfind
    obtain ⟨hold, hne⟩ := (removeEntries_sessions h p i q).1 hfind
    obtain ⟨hq, hid, hpub, hnot⟩ := h.inSessions i q hold
    exact ⟨hq, hid, hpub, fun hr => hnot (hremoved q hne hr)⟩
  · intro o hlock
    have hlock' : s.peerLock = some o := hlock
    rw [hfree] at hlock'
    cases hlock'

omit [DecidableEq E] in
theorem wf_destroy (h : Wf s) {vClosing : List ℕ} (hrecycler : s.recycler = .detaching p vClosing) :
    Wf { s.setPeer p { s.peer p with recycled := (s.peer p).recycled + 1 } with
      recycler := .recycling vClosing } := by
  have hmem : p ∈ s.recycler.peers := by
    rw [hrecycler]
    exact List.mem_cons_self
  have hp := h.made p (List.mem_append_right _ hmem)
  have hold := h.peers p hp
  have hgone : s.removed p := Or.inr ⟨vClosing, hrecycler⟩
  have hlock : ∀ o, s.peerLock = some o → o.peer ≠ p := fun o ho heq =>
    (h.opening o ho).2.1 (heq ▸ hgone)
  refine wf_peer h hp rfl rfl ⟨rfl, rfl⟩ rfl id (fun hpub => ⟨hpub, rfl⟩) ?_ ?_ ?_ ?_ hold.put
    hold.closing hold.unpublished (fun o ho => Or.inl ⟨ho, hlock o ho⟩) (fun _ _ hlock => hlock)
    h.posts h.flagged
  · intro q hr
    by_cases hq : q = p
    · exact hq ▸ hgone
    · rcases hr with hr | ⟨v, hd⟩
      · left
        rw [← setPeer_of_ne s hq]
        exact hr
      · cases hd
  · intro q hq
    show _ + vClosing.count q = _ + s.recycler.peers.count q
    rw [hrecycler]
    show _ = _ + (p :: vClosing).count q
    rw [List.count_cons_of_ne (Ne.symm hq)]
    rfl
  · intro q hq
    left
    rw [hrecycler]
    rcases List.mem_append.1 hq with hq | hq
    · exact List.mem_append_left _ hq
    · exact List.mem_append_right _ (List.mem_cons_of_mem _ hq)
  · have hplace := hold.place
    rw [State.places, hrecycler] at hplace
    show (s.peer p).connected.toNat + (s.peer p).closer.toNat + s.m_vClosing.count p +
      vClosing.count p + ((s.peer p).recycled + 1) = 1
    simp only [Recycler.peers, List.count_cons_self] at hplace
    omega

omit [DecidableEq E] in
theorem wf_recycleReturns (h : Wf s) (hdone : s.recycler = .recycling []) :
    Wf { s with recycler := .idle } := by
  refine wf_lists h rfl rfl ⟨rfl, rfl⟩ rfl (fun _ _ hd => by cases hd) ?_ h.posts h.flagged
  intro p
  rw [hdone]
  rfl

/-! ## Runs -/

theorem wf_step {e : Event E} (h : Wf s) (hstep : step s e = some s') : Wf s' := by
  cases e with
  | openPeer sEndpoint =>
    obtain ⟨hfree, rfl⟩ := of_guard hstep
    exact wf_openLocked h hfree sEndpoint
  | addSession iSessionId =>
    rw [step] at hstep
    split at hstep
    · rename_i p hlock
      obtain rfl := Option.some.inj hstep
      exact wf_addSession h hlock iSessionId
    · cases hstep
  | opened =>
    rw [step] at hstep
    split at hstep
    · rename_i p hlock
      obtain rfl := Option.some.inj hstep
      exact wf_opened h hlock
    · cases hstep
  | close p =>
    obtain ⟨hp, rfl⟩ := of_guard hstep
    exact wf_close h hp.1 hp.2.1 hp.2.2
  | markClosing p =>
    obtain ⟨hp, rfl⟩ := of_guard hstep
    exact wf_markClosing h hp.1 hp.2
  | allowSend p =>
    obtain ⟨hp, rfl⟩ := of_guard hstep
    rw [markClosing_again h hp.1 hp.2.2.1 hp.2.2.2.1]
    exact h
  | post =>
    obtain ⟨hpost, rfl⟩ := of_guard_not hstep
    exact wf_post h hpost
  | recycle =>
    obtain ⟨hready, rfl⟩ := of_guard hstep
    exact wf_recycle h hready.1 hready.2
  | removeEntries =>
    rw [step] at hstep
    split at hstep
    · rename_i p vClosing hrecycler hfree
      obtain rfl := Option.some.inj hstep
      exact wf_removeEntries h hrecycler hfree
    · cases hstep
  | destroy =>
    rw [step] at hstep
    split at hstep
    · rename_i p vClosing hrecycler
      obtain rfl := Option.some.inj hstep
      exact wf_destroy h hrecycler
    · cases hstep
  | recycleReturns =>
    obtain ⟨hdone, rfl⟩ := of_guard hstep
    exact wf_recycleReturns h hdone

theorem wf_run {run : List (Event E)} (h : Wf s) (hrun : runFrom step s run = some s') : Wf s' :=
  runFrom_invariant (fun _ _ _ h hstep => wf_step h hstep) h hrun

/-- The session is published under this number for this endpoint. -/
structure PublishedAs (s : State E) (p : ℕ) (sEndpoint : E) (iSessionId : ℤ) : Prop where
  made : p < s.created
  published : (s.peer p).published = true
  sEndpoint_eq : (s.peer p).sEndpoint = sEndpoint
  iSessionId_eq : (s.peer p).iSessionId = iSessionId

variable {iSessionId : ℤ}

omit [DecidableEq E] in
/-- A change of one peer that keeps its publication. -/
theorem PublishedAs.setPeer {q : ℕ} (h : PublishedAs s q sEndpoint iSessionId)
    (hpeer : s'.peer = (s.setPeer p stPeer).peer) (hcreated : s'.created = s.created)
    (hkept : stPeer.published = (s.peer p).published ∧ stPeer.sEndpoint = (s.peer p).sEndpoint ∧
      stPeer.iSessionId = (s.peer p).iSessionId) : PublishedAs s' q sEndpoint iSessionId := by
  have hsame : (s'.peer q).published = (s.peer q).published ∧
      (s'.peer q).sEndpoint = (s.peer q).sEndpoint ∧
        (s'.peer q).iSessionId = (s.peer q).iSessionId := by
    rw [hpeer]
    by_cases hq : q = p
    · subst hq
      rw [setPeer_self]
      exact hkept
    · rw [setPeer_of_ne s hq]
      exact ⟨rfl, rfl, rfl⟩
  obtain ⟨hpub, hendpoint, hid⟩ := hsame
  exact ⟨hcreated ▸ h.made, hpub.trans h.published, hendpoint.trans h.sEndpoint_eq,
    hid.trans h.iSessionId_eq⟩

/-- **A published session keeps its number and its endpoint.** -/
theorem publishedAs_step {e : Event E} (hwf : Wf s) (h : PublishedAs s p sEndpoint iSessionId)
    (hstep : step s e = some s') : PublishedAs s' p sEndpoint iSessionId := by
  cases e with
  | openPeer e =>
    obtain ⟨_, rfl⟩ := of_guard hstep
    unfold State.openLocked
    split
    · exact h
    · have hne : p ≠ s.created := ne_of_lt h.made
      have hold : (s.makePeer e).peer p = s.peer p := setPeer_of_ne s hne _
      exact ⟨h.made.trans (Nat.lt_succ_self _), hold ▸ h.published, hold ▸ h.sEndpoint_eq,
        hold ▸ h.iSessionId_eq⟩
  | addSession i =>
    rw [step] at hstep
    split at hstep
    · rename_i q hlock
      obtain rfl := Option.some.inj hstep
      -- the session that is published now was not published before
      have hpub : (s.peer q).published = false := (hwf.opening _ hlock).2.2
      have hne : p ≠ q := by
        rintro rfl
        rw [h.published] at hpub
        cases hpub
      have hold : (s.setPeer q { s.peer q with iSessionId := i, published := true }).peer p =
          s.peer p := setPeer_of_ne s hne _
      exact ⟨h.made, hold ▸ h.published, hold ▸ h.sEndpoint_eq, hold ▸ h.iSessionId_eq⟩
    · cases hstep
  | close q =>
    rw [step] at hstep
    split at hstep
    · obtain rfl := Option.some.inj hstep
      exact h.setPeer rfl rfl ⟨rfl, rfl, rfl⟩
    · cases hstep
  | markClosing q =>
    obtain ⟨hq, rfl⟩ := of_guard hstep
    rw [markClosing_eq hwf hq.1 hq.2]
    exact h.setPeer rfl rfl ⟨rfl, rfl, rfl⟩
  | allowSend q =>
    obtain ⟨hq, rfl⟩ := of_guard hstep
    rw [markClosing_again hwf hq.1 hq.2.2.1 hq.2.2.2.1]
    exact h
  | destroy =>
    rw [step] at hstep
    split at hstep
    · obtain rfl := Option.some.inj hstep
      exact h.setPeer rfl rfl ⟨rfl, rfl, rfl⟩
    · cases hstep
  | opened | post | recycle | removeEntries | recycleReturns =>
    rw [step] at hstep
    split at hstep <;> cases hstep
    exact ⟨h.made, h.published, h.sEndpoint_eq, h.iSessionId_eq⟩

theorem publishedAs_run {run : List (Event E)} (hwf : Wf s)
    (h : PublishedAs s p sEndpoint iSessionId) (hrun : runFrom step s run = some s') :
    PublishedAs s' p sEndpoint iSessionId := by
  refine (runFrom_invariant (I := fun s => Wf s ∧ PublishedAs s p sEndpoint iSessionId) ?_ ⟨hwf, h⟩
    hrun).2
  intro t e t' hI hstep
  exact ⟨wf_step hI.1 hstep, publishedAs_step hI.1 hI.2 hstep⟩

/-! ## The tables

What the invariant says to somebody who reads the tables. -/

/-- What `OpenPeer` returns where it finds a peer. -/
def State.openPeer (s : State E) (sEndpoint : E) : Option ℤ :=
  (s.found sEndpoint).map fun p => (s.peer p).iSessionId

/-- **The tables, the lists and the flag agree.** -/
structure Consistent (s : State E) : Prop where
  /-- An open session is the entry of its endpoint. -/
  mapped : ∀ p < s.created, (s.peer p).connected = true → s.m_mPeers (s.peer p).sEndpoint = some p
  /-- An endpoint has at most one open session. -/
  one : ∀ p < s.created, ∀ q < s.created, (s.peer p).connected = true →
    (s.peer q).connected = true → (s.peer p).sEndpoint = (s.peer q).sEndpoint → p = q
  /-- A closed peer is put into `m_vClosing` once, by the thread that closed it, and is from there
  on in one place: in that list, with the recycler, or recycled once. -/
  once : ∀ p < s.created, (s.peer p).connected = false →
    (s.peer p).closer.toNat + (s.peer p).put = 1 ∧
      s.m_vClosing.count p + s.recycler.peers.count p + (s.peer p).recycled = (s.peer p).put
  /-- An open one is not. -/
  never : ∀ p < s.created, (s.peer p).connected = true →
    (s.peer p).put = 0 ∧ (s.peer p).recycled = 0
  /-- Once recycled, a peer is in neither table. -/
  gone : ∀ p < s.created, (s.peer p).recycled ≠ 0 →
    (∀ sEndpoint, s.m_mPeers sEndpoint ≠ some p) ∧ ∀ i, s.m_mSessions i ≠ some p
  /-- Where `m_vClosing` is not empty, one recycle is posted or about to be. -/
  posted : s.m_vClosing ≠ [] → s.m_bRecyclePosted = true ∧ s.toPost + s.queued = 1
  /-- Where nobody is closing or recycling, every closed peer has been recycled. -/
  settled : (∀ p < s.created, (s.peer p).closer = false) → s.toPost + s.queued = 0 →
    s.recycler = .idle → ∀ p < s.created, (s.peer p).connected = false → (s.peer p).recycled = 1

omit [DecidableEq E] in
theorem consistent_of_wf (h : Wf s) : Consistent s where
  mapped := fun p hp => (h.peers p hp).mapped
  one := by
    intro p hp q hq hcp hcq heq
    have hmapped := (h.peers p hp).mapped hcp
    rw [heq, (h.peers q hq).mapped hcq] at hmapped
    exact (Option.some.inj hmapped).symm
  once := by
    intro p hp hclosed
    have hput := (h.peers p hp).put
    have hplace := (h.peers p hp).place
    rw [State.places, hclosed] at hplace
    rw [hclosed] at hput
    simp only [Bool.toNat_false] at hplace hput
    omega
  never := by
    intro p hp hconnected
    have hput := (h.peers p hp).put
    have hplace := (h.peers p hp).place
    rw [State.places, hconnected] at hplace
    rw [hconnected] at hput
    simp only [Bool.toNat_true] at hplace hput
    omega
  gone := by
    intro p _ hrecycled
    exact ⟨fun e he => (h.inPeers e p he).2.2 (Or.inl hrecycled),
      fun i hi => (h.inSessions i p hi).2.2.2 (Or.inl hrecycled)⟩
  posted := by
    intro hne
    have hposts := h.posts
    rw [h.flagged hne] at hposts
    exact ⟨h.flagged hne, hposts⟩
  settled := by
    intro hclosers hposts hidle p hp hclosed
    have hempty : s.m_vClosing = [] := by
      by_contra hne
      have hflag := h.posts
      rw [h.flagged hne, hposts] at hflag
      cases hflag
    have hplace := (h.peers p hp).place
    rw [State.places, hclosed, hclosers p hp, hempty, hidle] at hplace
    simp only [Bool.toNat_false, Recycler.peers, List.count_nil] at hplace
    omega

/-- `OpenPeer` gives the number of a published session as long as that session is open. -/
def SameNumber (s : State E) (run : List (Event E)) : Prop :=
  ∀ es₁ es₂ es₃ t₁ t₂ p, run = es₁ ++ (es₂ ++ es₃) → runFrom step s es₁ = some t₁ →
    runFrom step t₁ es₂ = some t₂ → p < t₁.created → (t₁.peer p).published = true →
      (t₂.peer p).connected = true →
        t₂.openPeer (t₁.peer p).sEndpoint = some (t₁.peer p).iSessionId

/-- `Recycle` takes nothing out of the tables that refers to another peer. -/
def RecyclesOwn (s : State E) (run : List (Event E)) : Prop :=
  ∀ es es' t t' p vClosing, run = es ++ Event.removeEntries :: es' → runFrom step s es = some t →
    step t .removeEntries = some t' → t.recycler = .recycling (p :: vClosing) → ∀ q ≠ p,
      (∀ sEndpoint, t.m_mPeers sEndpoint = some q → t'.m_mPeers sEndpoint = some q) ∧
        ∀ i, t.m_mSessions i = some q → t'.m_mSessions i = some q

/-- **The peers of a UDP channel.** In every state of every run of opens, closes and recycles the
tables, `m_vClosing` and the posted flag agree; `OpenPeer` keeps giving the number of an open
session; and recycling a peer leaves the entries of every other peer. -/
theorem peers_consistent {sEndpoint : E} {run : List (Event E)} {s : State E}
    (hrun : runFrom step (init sEndpoint) run = some s) :
    Consistent s ∧ SameNumber (init sEndpoint) run ∧ RecyclesOwn (init sEndpoint) run := by
  refine ⟨consistent_of_wf (wf_run (wf_init sEndpoint) hrun), ?_, ?_⟩
  · intro es₁ es₂ es₃ t₁ t₂ p _ ht₁ ht₂ hp hpublished hopen
    have hwf₁ := wf_run (wf_init sEndpoint) ht₁
    have hwf₂ := wf_run hwf₁ ht₂
    have hsame := publishedAs_run hwf₁ ⟨hp, hpublished, rfl, rfl⟩ ht₂
    have hmapped := (hwf₂.peers p hsame.made).mapped hopen
    rw [hsame.sEndpoint_eq] at hmapped
    rw [State.openPeer, found_eq_some.2 ⟨hmapped, hopen⟩, Option.map_some, hsame.iSessionId_eq]
  · intro es es' t t' p vClosing _ ht hstep hrecycler q hq
    have hwf := wf_run (wf_init sEndpoint) ht
    rw [step, hrecycler] at hstep
    split at hstep
    · rename_i q' vClosing' heq _
      cases heq
      obtain rfl := Option.some.inj hstep
      exact ⟨fun e he => (removeEntries_peers hwf p e q).2 ⟨he, hq⟩,
        fun i hi => (removeEntries_sessions hwf p i q).2 ⟨hi, hq⟩⟩
    · cases hstep

/-- A peer is opened and closed, its endpoint is opened again before the first one is recycled, and
the recycle leaves the second. -/
def reopened : List (Event ℕ) :=
  [.openPeer 7, .addSession 1, .opened, .close 0, .markClosing 0, .openPeer 7, .addSession 2,
    .opened, .post, .recycle, .removeEntries, .destroy, .recycleReturns]

theorem peers_consistent_reopened :
    ∃ s, runFrom step (init 7) reopened = some s ∧
      (Consistent s ∧ SameNumber (init 7) reopened ∧ RecyclesOwn (init 7) reopened) ∧
      s.m_mPeers 7 = some 1 ∧ s.m_mSessions 1 = none ∧ s.openPeer 7 = some 2 := by
  have hrun : (runFrom step (init 7) reopened).map (fun s => decide (s.m_mPeers 7 = some 1 ∧
      s.m_mSessions 1 = none ∧ s.openPeer 7 = some 2)) = some true := by
    decide +kernel
  obtain ⟨s, hs, hfacts⟩ := Option.map_eq_some_iff.1 hrun
  exact ⟨s, hs, peers_consistent hs, of_decide_eq_true hfacts⟩

end OpenIdea.Net.UdpPeers
