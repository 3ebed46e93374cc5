import OpenIdea.Lib.OrdMap
import OpenIdea.Lib.Runs

/-!
# Admission of requests (oi_rpc_call.cpp)

A request takes credit when it is admitted and gives it back when its lease is destroyed. A lease is
an object that is moved around: only the object that was moved to last gives the credit back.

`step` makes, moves and destroys lease objects in any order. The numbers are `size_t`. The account
of the admission is the sum of the live leases in every run (`accounted_run`, `Accounted.exact`).
-/

set_option autoImplicit false

namespace OpenIdea.Rpc.Admission

open OpenIdea.Lib OpenIdea.Lib.Runs OpenIdea.Lib.Tally

/-! ## Credit -/

/-- `a + b` as the machine has it. -/
def plus (a b : Nat) : Nat := (a + b) % 2 ^ 64

/-- `a - b` as the machine has it. -/
def minus (a b : Nat) : Nat := (a + 2 ^ 64 - b) % 2 ^ 64

theorem plus_eq {a b n : Nat} (h : a + b ≤ n) (hn : n < 2 ^ 64) : plus a b = a + b :=
  Nat.mod_eq_of_lt (Nat.lt_of_le_of_lt h hn)

theorem minus_eq {a b : Nat} (h : b ≤ a) (ha : a < 2 ^ 64) : minus a b = a - b := by
  rw [minus, Nat.add_comm, Nat.add_sub_assoc h, Nat.add_mod_left]
  exact Nat.mod_eq_of_lt (Nat.lt_of_le_of_lt (Nat.sub_le a b) ha)

/-- `Usage`. -/
structure Usage where
  count : Nat
  bytes : Nat
  deriving DecidableEq

/-- The limits; `ReadLimit` takes positive numbers of an `int64_t` only. -/
structure Limits where
  maxCount : Nat
  maxBytes : Nat
  sessionMaxCount : Nat
  sessionMaxBytes : Nat
  maxCount_pos : 0 < maxCount ∧ maxCount < 2 ^ 63
  maxBytes_pos : 0 < maxBytes ∧ maxBytes < 2 ^ 63
  sessionMaxCount_pos : 0 < sessionMaxCount ∧ sessionMaxCount < 2 ^ 63
  sessionMaxBytes_pos : 0 < sessionMaxBytes ∧ sessionMaxBytes < 2 ^ 63

variable {K : Type} [LinearOrder K]

/-- A `std::map` from sessions to what they use. -/
abbrev Sessions (K : Type) [LinearOrder K] : Type := { m : List (K × Usage) // OrdMap.Sorted m }

namespace Sessions

def find (m : Sessions K) (k : K) : Option Usage := OrdMap.find m.1 k

def put (m : Sessions K) (k : K) (u : Usage) : Sessions K := ⟨OrdMap.put m.1 k u, m.2.put k u⟩

def erase (m : Sessions K) (k : K) : Sessions K := ⟨OrdMap.erase m.1 k, m.2.erase k⟩

/-- What a session still uses; without a lease it has no entry. -/
def leave (m : Sessions K) (k : K) (rest : Usage) : Sessions K :=
  if rest.count = 0 then m.erase k else m.put k rest

/-- What a session uses. -/
def usage (m : Sessions K) (k : K) : Usage := (m.find k).getD ⟨0, 0⟩

/-- The sum over the sessions. -/
def sum (f : Usage → Nat) (m : Sessions K) : Nat := tally (fun e => f e.2) m.1

end Sessions

/-- `RpcAdmission`. -/
structure RpcAdmission (K : Type) [LinearOrder K] where
  total : Usage
  sessions : Sessions K

/-- `RpcAdmissionLease`. -/
structure Lease (K : Type) where
  key : K
  bytes : Nat
  acquired : Bool

/-- The test of `AcquireRpc`. -/
def Refuses (L : Limits) (a : RpcAdmission K) (key : K) (bytes : Nat) : Prop :=
  L.maxCount ≤ a.total.count ∨ minus L.maxBytes a.total.bytes < bytes ∨
    L.sessionMaxCount ≤ (a.sessions.usage key).count ∨
    minus L.sessionMaxBytes (a.sessions.usage key).bytes < bytes

instance (L : Limits) (a : RpcAdmission K) (key : K) (bytes : Nat) :
    Decidable (Refuses L a key bytes) := by
  unfold Refuses
  infer_instance

/-- `AcquireRpc`. -/
def acquireRpc (L : Limits) (a : RpcAdmission K) (key : K) (bytes : Nat) :
    RpcAdmission K × Option (Lease K) :=
  if Refuses L a key bytes then (a, none)
  else
    let session := a.sessions.usage key
    ({ total := ⟨plus a.total.count 1, plus a.total.bytes bytes⟩
       sessions := a.sessions.put key ⟨plus session.count 1, plus session.bytes bytes⟩ },
      some ⟨key, bytes, true⟩)

/-- `~RpcAdmissionLease`; nothing if the session has no entry, where the iterator is the end. -/
def release (a : RpcAdmission K) (l : Lease K) : Option (RpcAdmission K) :=
  if l.acquired = false then some a
  else
    match a.sessions.find l.key with
    | none => none
    | some u =>
        let rest : Usage := ⟨minus u.count 1, minus u.bytes l.bytes⟩
        some
          { total := ⟨minus a.total.count 1, minus a.total.bytes l.bytes⟩
            sessions := a.sessions.leave l.key rest }

/-! ### What the admission keeps -/

/-- The totals are the sums, nobody is over a limit, and no entry stands for nothing. -/
structure Balanced (L : Limits) (a : RpcAdmission K) : Prop where
  count : a.total.count = a.sessions.sum Usage.count
  bytes : a.total.bytes = a.sessions.sum Usage.bytes
  count_le : a.total.count ≤ L.maxCount
  bytes_le : a.total.bytes ≤ L.maxBytes
  session_count_le : ∀ k, (a.sessions.usage k).count ≤ L.sessionMaxCount
  session_bytes_le : ∀ k, (a.sessions.usage k).bytes ≤ L.sessionMaxBytes
  entry : ∀ k u, a.sessions.find k = some u → 0 < u.count

namespace Sessions

variable {m : Sessions K} {k k' : K} {u : Usage}

theorem find_put : (m.put k u).find k' = if k' = k then some u else m.find k' :=
  OrdMap.find_put m.1 k k' u

theorem find_erase : (m.erase k).find k' = if k' = k then none else m.find k' :=
  OrdMap.find_erase m.2 k k'

theorem usage_put : (m.put k u).usage k' = if k' = k then u else m.usage k' := by
  rw [usage, find_put]
  split
  · rfl
  · rfl

theorem usage_erase : (m.erase k).usage k' = if k' = k then ⟨0, 0⟩ else m.usage k' := by
  rw [usage, find_erase]
  split
  · rfl
  · rfl

variable {f : Usage → Nat}

theorem find_term (hf : f ⟨0, 0⟩ = 0) : ((m.find k).map f).getD 0 = f (m.usage k) := by
  rw [usage]
  cases m.find k with
  | none => exact hf.symm
  | some u => rfl

theorem sum_put (hf : f ⟨0, 0⟩ = 0) : (m.put k u).sum f + f (m.usage k) = m.sum f + f u := by
  rw [← find_term hf]
  exact OrdMap.tally_put m.2 f k u

theorem sum_erase {f : Usage → Nat} (hf : f ⟨0, 0⟩ = 0) :
    (m.erase k).sum f + f (m.usage k) = m.sum f := by
  rw [← find_term hf]
  exact OrdMap.tally_erase f k

theorem eq_zero_of_count (hu : u.count = 0 → u.bytes = 0) (hzero : u.count = 0) : u = ⟨0, 0⟩ := by
  obtain ⟨count, bytes⟩ := u
  obtain rfl : count = 0 := hzero
  obtain rfl : bytes = 0 := hu rfl
  rfl

theorem usage_leave (hu : u.count = 0 → u.bytes = 0) :
    (m.leave k u).usage k' = if k' = k then u else m.usage k' := by
  rw [leave]
  by_cases hzero : u.count = 0
  · rw [if_pos hzero, usage_erase, eq_zero_of_count hu hzero]
  · rw [if_neg hzero, usage_put]

theorem sum_leave (hu : u.count = 0 → u.bytes = 0) (hf : f ⟨0, 0⟩ = 0) :
    (m.leave k u).sum f + f (m.usage k) = m.sum f + f u := by
  rw [leave]
  by_cases hzero : u.count = 0
  · rw [if_pos hzero, sum_erase hf, eq_zero_of_count hu hzero, hf, Nat.add_zero]
  · rw [if_neg hzero, sum_put hf]

theorem find_leave_pos {v : Usage} (hm : ∀ k v, m.find k = some v → 0 < v.count)
    (h : (m.leave k u).find k' = some v) : 0 < v.count := by
  rw [leave] at h
  by_cases hzero : u.count = 0
  · rw [if_pos hzero, find_erase] at h
    obtain ⟨_, h⟩ := Option.ite_none_left_eq_some.1 h
    exact hm k' v h
  · rw [if_neg hzero, find_put] at h
    split at h
    · obtain rfl := Option.some.inj h
      exact Nat.pos_of_ne_zero hzero
    · exact hm k' v h

theorem usage_of_find (h : m.find k = some u) : m.usage k = u := by
  rw [usage, h]
  rfl

end Sessions

variable {L : Limits} {a : RpcAdmission K}

/-- The test compares the true sums: no subtraction in it wraps. -/
theorem refuses_iff (h : Balanced L a) (key : K) (bytes : Nat) :
    Refuses L a key bytes ↔
      L.maxCount < a.total.count + 1 ∨ L.maxBytes < a.total.bytes + bytes ∨
        L.sessionMaxCount < (a.sessions.usage key).count + 1 ∨
        L.sessionMaxBytes < (a.sessions.usage key).bytes + bytes := by
  have htotal := h.bytes_le
  have hsession := h.session_bytes_le key
  rw [Refuses, minus_eq htotal (by have := L.maxBytes_pos; omega),
    minus_eq hsession (by have := L.sessionMaxBytes_pos; omega)]
  omega

/-- One session changes, and the totals with it. -/
theorem Balanced.replace (h : Balanced L a) {key : K} {m : Sessions K} {u total : Usage}
    (husage : ∀ k, m.usage k = if k = key then u else a.sessions.usage k)
    (hentry : ∀ k v, m.find k = some v → 0 < v.count)
    (hsum : ∀ f : Usage → Nat, f ⟨0, 0⟩ = 0 →
      m.sum f + f (a.sessions.usage key) = a.sessions.sum f + f u)
    (hcount : total.count + (a.sessions.usage key).count = a.total.count + u.count)
    (hbytes : total.bytes + (a.sessions.usage key).bytes = a.total.bytes + u.bytes)
    (htotal : total.count ≤ L.maxCount ∧ total.bytes ≤ L.maxBytes)
    (hsession : u.count ≤ L.sessionMaxCount ∧ u.bytes ≤ L.sessionMaxBytes) :
    Balanced L ⟨total, m⟩ where
  count := by
    have := hsum Usage.count rfl
    have := h.count
    show total.count = m.sum Usage.count
    omega
  bytes := by
    have := hsum Usage.bytes rfl
    have := h.bytes
    show total.bytes = m.sum Usage.bytes
    omega
  count_le := htotal.1
  bytes_le := htotal.2
  session_count_le := fun k => by
    rw [husage]
    split
    · exact hsession.1
    · exact h.session_count_le k
  session_bytes_le := fun k => by
    rw [husage]
    split
    · exact hsession.2
    · exact h.session_bytes_le k
  entry := hentry

variable {l : Lease K} {i : Nat}

/-- An admission adds its credit to the session and to the totals. -/
theorem acquireRpc_some (h : Balanced L a) {key : K} {bytes : Nat} {a' : RpcAdmission K}
    (hacq : acquireRpc L a key bytes = (a', some l)) :
    Balanced L a' ∧ l = ⟨key, bytes, true⟩ ∧
      ∀ k, a'.sessions.usage k =
        if k = key then ⟨(a.sessions.usage key).count + 1, (a.sessions.usage key).bytes + bytes⟩
        else a.sessions.usage k := by
  rw [acquireRpc] at hacq
  split at hacq
  case isTrue => cases hacq
  case isFalse hgood =>
    rw [refuses_iff h, not_or, not_or, not_or, Nat.not_lt, Nat.not_lt, Nat.not_lt,
      Nat.not_lt] at hgood
    obtain ⟨hcount, hbytes, hsessionCount, hsessionBytes⟩ := hgood
    have h1 := L.maxCount_pos
    have h2 := L.maxBytes_pos
    have h3 := L.sessionMaxCount_pos
    have h4 := L.sessionMaxBytes_pos
    obtain ⟨ha, hl⟩ := Prod.mk.inj hacq
    rw [plus_eq hcount (by omega), plus_eq hbytes (by omega), plus_eq hsessionCount (by omega),
      plus_eq hsessionBytes (by omega)] at ha
    subst ha
    refine ⟨h.replace (fun k => Sessions.usage_put) (fun k u hu => ?_) (fun f hf => Sessions.sum_put hf)
      ?_ ?_ ⟨hcount, hbytes⟩ ⟨hsessionCount, hsessionBytes⟩, (Option.some.inj hl).symm,
      fun k => Sessions.usage_put⟩
    · rw [Sessions.find_put] at hu
      split at hu
      · obtain rfl := Option.some.inj hu
        exact Nat.succ_pos _
      · exact h.entry k u hu
    · dsimp only
      omega
    · dsimp only
      omega

theorem Sessions.term_le (m : Sessions K) (k : K) {f : Usage → Nat} (hf : f ⟨0, 0⟩ = 0) :
    f (m.usage k) ≤ m.sum f := by
  have := @sum_erase K _ m k f hf
  omega

/-- A lease that holds credit of its session gives it back. -/
theorem release_some (h : Balanced L a) (hl : l.acquired = true)
    (hcount : 0 < (a.sessions.usage l.key).count)
    (hbytes : l.bytes ≤ (a.sessions.usage l.key).bytes)
    (hlast : (a.sessions.usage l.key).count = 1 → (a.sessions.usage l.key).bytes = l.bytes) :
    ∃ a', release a l = some a' ∧ Balanced L a' ∧
      ∀ k, a'.sessions.usage k =
        if k = l.key then
          ⟨(a.sessions.usage l.key).count - 1, (a.sessions.usage l.key).bytes - l.bytes⟩
        else a.sessions.usage k := by
  have h1 := L.maxCount_pos
  have h2 := L.maxBytes_pos
  have htotalCount : (a.sessions.usage l.key).count ≤ a.total.count :=
    h.count ▸ a.sessions.term_le l.key rfl
  have htotalBytes : (a.sessions.usage l.key).bytes ≤ a.total.bytes :=
    h.bytes ▸ a.sessions.term_le l.key rfl
  have hcountLe := h.count_le
  have hbytesLe := h.bytes_le
  have hsessionCount := h.session_count_le l.key
  have hsessionBytes := h.session_bytes_le l.key
  rw [release, if_neg (by rw [hl]; exact Bool.noConfusion)]
  cases hfind : a.sessions.find l.key with
  | none =>
    rw [Sessions.usage, hfind] at hcount
    exact absurd hcount (Nat.lt_irrefl 0)
  | some u =>
    have hu := Sessions.usage_of_find hfind
    have hle : u.count ≤ a.total.count ∧ u.bytes ≤ a.total.bytes := by
      rw [← hu]
      exact ⟨htotalCount, htotalBytes⟩
    rw [hu] at hcount hbytes hlast hsessionCount hsessionBytes ⊢
    dsimp only
    rw [minus_eq hcount (by omega), minus_eq hbytes (by omega),
      minus_eq (show 1 ≤ a.total.count by omega) (by omega),
      minus_eq (show l.bytes ≤ a.total.bytes by omega) (by omega)]
    have hzero : u.count - 1 = 0 → u.bytes - l.bytes = 0 := by
      intro hone
      have := hlast (by omega)
      omega
    refine ⟨_, rfl, h.replace (fun k => Sessions.usage_leave hzero)
      (fun k v => Sessions.find_leave_pos h.entry) (fun f hf => Sessions.sum_leave hzero hf)
      ?_ ?_ ⟨?_, ?_⟩ ⟨?_, ?_⟩, fun k => Sessions.usage_leave hzero⟩
    all_goals
      try rw [hu]
      dsimp only
      omega

/-! ## Lease objects -/

/-- A lease object; the ticket is the number of the admission whose credit it was made for. -/
structure Object (K : Type) where
  lease : Lease K
  ticket : Nat

structure State (K : Type) [LinearOrder K] where
  admission : RpcAdmission K
  /-- The lease objects in the order of their construction; a destroyed one is gone. -/
  objects : List (Option (Object K))
  /-- How many requests were admitted. -/
  granted : Nat
  /-- The tickets whose credit was given back. -/
  returned : List Nat
  /-- The destructor went past the end of the map. -/
  undefined : Bool

def State.init : State K where
  admission := ⟨⟨0, 0⟩, ⟨[], List.Pairwise.nil⟩⟩
  objects := []
  granted := 0
  returned := []
  undefined := false

inductive Event (K : Type) where
  | acquire (key : K) (bytes : Nat)
  | make (key : K)
  | move (i : Nat)
  | destroy (i : Nat)

/-- An object that was moved from. -/
def Object.movedFrom (o : Object K) : Object K := { o with lease := { o.lease with acquired := false } }

/-- One event at a lease object. -/
def step (L : Limits) (s : State K) : Event K → Option (State K)
  | .acquire key bytes =>
      match acquireRpc L s.admission key bytes with
      | (_, none) => some s
      | (a, some l) =>
          some { s with
            admission := a
            objects := s.objects ++ [some ⟨l, s.granted⟩]
            granted := s.granted + 1 }
  | .make key => some { s with objects := s.objects ++ [some ⟨⟨key, 0, false⟩, s.granted⟩] }
  | .move i =>
      match s.objects[i]? with
      | some (some o) =>
          some { s with objects := s.objects.set i (some o.movedFrom) ++ [some o] }
      | _ => none
  | .destroy i =>
      match s.objects[i]? with
      | some (some o) =>
          match release s.admission o.lease with
          | none => some { s with undefined := true }
          | some a =>
              some { s with
                admission := a
                objects := s.objects.set i none
                returned := if o.lease.acquired then s.returned ++ [o.ticket] else s.returned }
      | _ => none

/-! ### Accounts of the live leases -/

/-- What an object adds to an account: only a lease that holds credit counts. -/
def share (f : Object K → Nat) : Option (Object K) → Nat
  | some o => if o.lease.acquired then f o else 0
  | none => 0

/-- The account of the live leases. -/
def State.live (s : State K) (f : Object K → Nat) : Nat := tally (share f) s.objects

def countOf (k : K) (o : Object K) : Nat := if o.lease.key = k then 1 else 0

def bytesOf (k : K) (o : Object K) : Nat := if o.lease.key = k then o.lease.bytes else 0

def ticketOf (t : Nat) (o : Object K) : Nat := if o.ticket = t then 1 else 0

/-- The accounts of the admission are those of the live leases, and the credit of each ticket is held
by one live lease or was given back once. -/
structure Accounted (L : Limits) (s : State K) : Prop where
  balanced : Balanced L s.admission
  session : ∀ k, s.admission.sessions.usage k = ⟨s.live (countOf k), s.live (bytesOf k)⟩
  once : ∀ t, s.live (ticketOf t) + s.returned.count t = if t < s.granted then 1 else 0
  defined : s.undefined = false

theorem accounted_init : Accounted L (State.init : State K) where
  balanced := by
    refine ⟨rfl, rfl, Nat.zero_le _, Nat.zero_le _, fun k => Nat.zero_le _, fun k => Nat.zero_le _,
      fun k u hu => ?_⟩
    cases hu
  session := fun _ => rfl
  once := fun _ => rfl
  defined := rfl

/-- The objects change and no account does. -/
theorem Accounted.objects {s : State K} (h : Accounted L s) {objects : List (Option (Object K))}
    (hlive : ∀ f, tally (share f) objects = s.live f) : Accounted L { s with objects := objects } where
  balanced := h.balanced
  session := fun k => by
    rw [h.session k]
    exact congrArg₂ Usage.mk (hlive _).symm (hlive _).symm
  once := fun t => by
    rw [← h.once t]
    exact congrArg (· + s.returned.count t) (hlive _)
  defined := h.defined

variable {o : Object K} {s : State K}

omit [LinearOrder K] in
/-- The credit goes with the object that was moved to. -/
theorem tally_move {l : List (Option (Object K))} (h : l[i]? = some (some o)) (f : Object K → Nat) :
    tally (share f) (l.set i (some o.movedFrom) ++ [some o]) = tally (share f) l := by
  have hset := @tally_set _ (share f) (some o.movedFrom) _ _ _ h
  rw [show share f (some o.movedFrom) = 0 from rfl] at hset
  rw [tally_append, tally_cons, tally_nil]
  omega

/-- A new object with credit of its own. -/
theorem live_concat (s : State K) (f : Object K → Nat) (ho : o.lease.acquired = true) :
    tally (share f) (s.objects ++ [some o]) = s.live f + f o := by
  rw [tally_append, tally_cons, tally_nil, share, if_pos ho]
  rfl

theorem Accounted.acquire (h : Accounted L s) {key : K} {bytes : Nat}
    (hacq : acquireRpc L s.admission key bytes = (a, some l)) :
    Accounted L { s with
      admission := a
      objects := s.objects ++ [some ⟨l, s.granted⟩]
      granted := s.granted + 1 } := by
  obtain ⟨hbal, rfl, husage⟩ := acquireRpc_some h.balanced hacq
  refine ⟨hbal, fun k => ?_, fun t => ?_, h.defined⟩
  · have hcount := live_concat s (countOf k) (o := ⟨⟨key, bytes, true⟩, s.granted⟩) rfl
    have hbytes := live_concat s (bytesOf k) (o := ⟨⟨key, bytes, true⟩, s.granted⟩) rfl
    rw [countOf] at hcount
    rw [bytesOf] at hbytes
    rw [husage]
    refine Eq.trans ?_ (congrArg₂ Usage.mk hcount hbytes).symm
    by_cases hk : k = key
    · rw [if_pos hk, if_pos hk.symm, if_pos hk.symm, hk, h.session key]
    · rw [if_neg hk, if_neg (Ne.symm hk), if_neg (Ne.symm hk), h.session k]
      rfl
  · have honce := h.once t
    have hticket := live_concat s (ticketOf t) (o := ⟨⟨key, bytes, true⟩, s.granted⟩) rfl
    rw [ticketOf] at hticket
    show tally _ _ + s.returned.count t = if t < s.granted + 1 then 1 else 0
    rw [hticket]
    dsimp only
    by_cases ht : s.granted = t
    · rw [if_neg (by omega)] at honce
      rw [if_pos ht, if_pos (by omega)]
      omega
    · rw [if_neg ht]
      by_cases hlt : t < s.granted
      · rw [if_pos hlt] at honce
        rw [if_pos (by omega)]
        omega
      · rw [if_neg hlt] at honce
        rw [if_neg (by omega)]
        omega

/-- The lease that is destroyed is one of those its session's entry stands for. -/
theorem Accounted.holds (h : Accounted L s) (ho : s.objects[i]? = some (some o))
    (hacq : o.lease.acquired = true) :
    0 < (s.admission.sessions.usage o.lease.key).count ∧
      o.lease.bytes ≤ (s.admission.sessions.usage o.lease.key).bytes ∧
      ((s.admission.sessions.usage o.lease.key).count = 1 →
        (s.admission.sessions.usage o.lease.key).bytes = o.lease.bytes) := by
  have hcount := le_tally (share (countOf o.lease.key)) ho
  have hbytes := le_tally (share (bytesOf o.lease.key)) ho
  have hothers := @tally_set _ (share (countOf o.lease.key)) none _ _ _ ho
  have hrest := @tally_set _ (share (bytesOf o.lease.key)) none _ _ _ ho
  rw [share, if_pos hacq, countOf, if_pos rfl] at hcount hothers
  rw [share, if_pos hacq, bytesOf, if_pos rfl] at hbytes hrest
  rw [h.session]
  refine ⟨hcount, hbytes, fun hone => ?_⟩
  have hone : tally (share (countOf o.lease.key)) s.objects = 1 := hone
  show tally (share (bytesOf o.lease.key)) s.objects = o.lease.bytes
  -- no other live lease of the session is left to hold bytes
  have hzero : tally (share (bytesOf o.lease.key)) (s.objects.set i none) = 0 := by
    refine tally_eq_zero fun j b hb => ?_
    have hle := le_tally (share (countOf o.lease.key)) hb
    rw [show share (countOf o.lease.key) none = 0 from rfl] at hothers
    cases b with
    | none => rfl
    | some b =>
      rw [share, countOf] at hle
      rw [share, bytesOf]
      split
      · rename_i hacq'
        rw [if_pos hacq'] at hle
        split
        · rename_i hkey
          rw [if_pos hkey] at hle
          omega
        · rfl
      · rfl
  rw [show share (bytesOf o.lease.key) none = 0 from rfl] at hrest
  omega

theorem Accounted.destroy (h : Accounted L s) (ho : s.objects[i]? = some (some o))
    (hacq : o.lease.acquired = true) :
    ∃ a, release s.admission o.lease = some a ∧
      Accounted L { s with
        admission := a
        objects := s.objects.set i none
        returned := s.returned ++ [o.ticket] } := by
  obtain ⟨hpos, hle, hlast⟩ := h.holds ho hacq
  obtain ⟨a, ha, hbal, husage⟩ := release_some h.balanced hacq hpos hle hlast
  have hlive : ∀ f, tally (share f) (s.objects.set i none) + f o = s.live f := by
    intro f
    have hset := @tally_set _ (share f) none _ _ _ ho
    rw [share, share, if_pos hacq] at hset
    exact hset
  refine ⟨a, ha, hbal, fun k => ?_, fun t => ?_, h.defined⟩
  · have hcount := hlive (countOf k)
    have hbytes := hlive (bytesOf k)
    rw [countOf] at hcount
    rw [bytesOf] at hbytes
    rw [husage]
    refine Eq.trans ?_ (congrArg₂ Usage.mk (Nat.eq_sub_of_add_eq hcount)
      (Nat.eq_sub_of_add_eq hbytes)).symm
    by_cases hk : k = o.lease.key
    · rw [if_pos hk, if_pos hk.symm, if_pos hk.symm, ← hk, h.session k]
    · rw [if_neg hk, if_neg (Ne.symm hk), if_neg (Ne.symm hk), h.session k]
      rfl
  · have honce := h.once t
    have hticket := hlive (ticketOf t)
    rw [ticketOf] at hticket
    show tally _ _ + (s.returned ++ [o.ticket]).count t = if t < s.granted then 1 else 0
    rw [← honce, ← hticket, List.count_append, List.count_singleton, Nat.add_right_comm,
      Nat.add_assoc]
    congr 2
    by_cases ht : o.ticket = t
    · rw [if_pos ht, if_pos (beq_iff_eq.2 ht)]
    · rw [if_neg ht, if_neg (fun hb => ht (beq_iff_eq.1 hb))]

theorem accounted_step {s' : State K} {e : Event K} (h : Accounted L s)
    (hstep : step L s e = some s') : Accounted L s' := by
  cases e with
  | acquire key bytes =>
    rw [step] at hstep
    split at hstep
    · obtain rfl := Option.some.inj hstep
      exact h
    · rename_i a l hacq
      obtain rfl := Option.some.inj hstep
      exact h.acquire hacq
  | make key =>
    obtain rfl := Option.some.inj hstep
    refine h.objects fun f => ?_
    rw [tally_append, tally_cons, tally_nil]
    rfl
  | move i =>
    rw [step] at hstep
    split at hstep
    · rename_i o ho
      obtain rfl := Option.some.inj hstep
      exact h.objects fun f => tally_move ho f
    · cases hstep
  | destroy i =>
    rw [step] at hstep
    split at hstep
    · rename_i o ho
      cases hacq : o.lease.acquired with
      | true =>
        obtain ⟨a, ha, hacc⟩ := h.destroy ho hacq
        rw [ha, hacq] at hstep
        obtain rfl := Option.some.inj hstep
        exact hacc
      | false =>
        rw [release, if_pos hacq, hacq] at hstep
        obtain rfl := Option.some.inj hstep
        refine h.objects fun f => tally_set_eq ho ?_
        rw [share, share, if_neg (by rw [hacq]; exact Bool.noConfusion)]
    · cases hstep

/-! ### The accounts are exact -/

/-- The lease object holds credit of the session. -/
def HoldsCredit (s : State K) (k : K) : Prop :=
  ∃ (i : Nat) (o : Object K), s.objects[i]? = some (some o) ∧ o.lease.acquired = true ∧ o.lease.key = k

/-- The totals are the sums over the sessions, a session's usage is that of its live leases, the
limits hold, the sessions with an entry are those with a live lease, a destructor finds enough to
subtract from, and the credit of a ticket is either held by one lease or was given back once. -/
structure Exact (L : Limits) (s : State K) : Prop where
  total : s.admission.total =
    ⟨s.admission.sessions.sum Usage.count, s.admission.sessions.sum Usage.bytes⟩
  session : ∀ k, s.admission.sessions.usage k = ⟨s.live (countOf k), s.live (bytesOf k)⟩
  limits : s.admission.total.count ≤ L.maxCount ∧ s.admission.total.bytes ≤ L.maxBytes ∧
    ∀ k, (s.admission.sessions.usage k).count ≤ L.sessionMaxCount ∧
      (s.admission.sessions.usage k).bytes ≤ L.sessionMaxBytes
  entry : ∀ k, (s.admission.sessions.find k).isSome ↔ HoldsCredit s k
  enough : ∀ (i : Nat) (o : Object K), s.objects[i]? = some (some o) → o.lease.acquired = true →
    ∃ u, s.admission.sessions.find o.lease.key = some u ∧
      1 ≤ u.count ∧ o.lease.bytes ≤ u.bytes ∧
      1 ≤ s.admission.total.count ∧ o.lease.bytes ≤ s.admission.total.bytes
  once : ∀ t, s.live (ticketOf t) + s.returned.count t = if t < s.granted then 1 else 0
  defined : s.undefined = false

theorem Sessions.isSome_find {m : Sessions K} (hm : ∀ k u, m.find k = some u → 0 < u.count) {k : K} :
    (m.find k).isSome ↔ 0 < (m.usage k).count := by
  rw [usage]
  cases hfind : m.find k with
  | none => exact ⟨fun h => (by cases h), fun h => absurd h (Nat.lt_irrefl 0)⟩
  | some u => exact ⟨fun _ => hm k u hfind, fun _ => rfl⟩

theorem holdsCredit_iff {k : K} : HoldsCredit s k ↔ 0 < s.live (countOf k) := by
  constructor
  · rintro ⟨i, o, ho, hacq, hkey⟩
    have hle := le_tally (share (countOf k)) ho
    rw [share, if_pos hacq, countOf, if_pos hkey] at hle
    exact hle
  · intro hpos
    by_contra hno
    refine absurd (tally_eq_zero fun i b hb => ?_) (Nat.pos_iff_ne_zero.1 hpos)
    cases b with
    | none => rfl
    | some o =>
      rw [share, countOf]
      split
      · rename_i hacq
        exact if_neg fun hkey => hno ⟨i, o, hb, hacq, hkey⟩
      · rfl

theorem Accounted.exact {s : State K} (h : Accounted L s) : Exact L s where
  total := by
    rw [← h.balanced.count, ← h.balanced.bytes]
  session := h.session
  limits := ⟨h.balanced.count_le, h.balanced.bytes_le,
    fun k => ⟨h.balanced.session_count_le k, h.balanced.session_bytes_le k⟩⟩
  entry := fun k => by
    rw [Sessions.isSome_find h.balanced.entry, holdsCredit_iff, h.session k]
  enough := fun i o ho hacq => by
    obtain ⟨hpos, hle, -⟩ := h.holds ho hacq
    obtain ⟨u, hu⟩ := Option.isSome_iff_exists.1 ((Sessions.isSome_find h.balanced.entry).2 hpos)
    have hcount := s.admission.sessions.term_le o.lease.key (show Usage.count ⟨0, 0⟩ = 0 from rfl)
    have hbytes := s.admission.sessions.term_le o.lease.key (show Usage.bytes ⟨0, 0⟩ = 0 from rfl)
    rw [← h.balanced.count] at hcount
    rw [← h.balanced.bytes] at hbytes
    refine ⟨u, hu, ?_, ?_, Nat.le_trans hpos hcount, Nat.le_trans hle hbytes⟩
    · rw [← Sessions.usage_of_find hu]
      exact hpos
    · rw [← Sessions.usage_of_find hu]
      exact hle
  once := h.once
  defined := h.defined

theorem accounted_run {es : List (Event K)} (h : runFrom (step L) State.init es = some s) :
    Accounted L s :=
  runFrom_invariant (I := Accounted L) (fun _ _ _ hs hstep => accounted_step hs hstep)
    accounted_init h

end OpenIdea.Rpc.Admission
