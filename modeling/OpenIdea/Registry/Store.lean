import OpenIdea.Lib.Expiring
import Mathlib.Data.List.Dedup

/-!
# The registry's part of Redis

A registration is one key `svc:<name>:<id>` whose value is the address, `svc:<name>` is the set of
ids of a name and `svc` the set of names.  The four scripts of the registry are the only commands
it sends.

The keys are pairs here: a name is made of letters, digits, `_` and `-`, so two different pairs
never share a key, nor one of them the key of a set.  An id is an `int32_t`, written by
`std::to_string` and read back by `atoi`.  What a script leaves of a key is said for each of them
(`refresh_cases`, `withdraw_get`).
-/

set_option autoImplicit false

namespace OpenIdea.Registry

open OpenIdea.Lib

/-- A `std::string`. -/
abbrev Text := List Char

/-- `ValidSpacePart`. -/
def validSpacePart (s : Text) : Bool :=
  !s.isEmpty && s.all fun c =>
    ('a' ≤ c ∧ c ≤ 'z') || ('A' ≤ c ∧ c ≤ 'Z') || ('0' ≤ c ∧ c ≤ '9') || c = '_' || c = '-'

/-- A service's name and id. -/
structure Key where
  name : Text
  id : Int
  deriving DecidableEq, Repr

/-- `RegistryServer::Binding`; its `sValue` is `Binding.value`. -/
structure Binding where
  name : Text
  id : Int
  ip : Text
  port : Text
  zone : Text
  deriving DecidableEq, Repr

/-- `ServiceInstance`, an entry of the snapshot. -/
structure Instance where
  name : Text
  id : Int
  ip : Text
  port : Text
  zone : Text
  deriving DecidableEq, Repr

/-- The address as the registry writes it: `"ip port"` or `"ip port zone"`. -/
def address (ip port zone : Text) : Text :=
  ip ++ ' ' :: port ++ if zone.isEmpty then [] else ' ' :: zone

namespace Binding

def key (b : Binding) : Key := ⟨b.name, b.id⟩

/-- `sValue`, as `Handle` fills it. -/
def value (b : Binding) : Text := address b.ip b.port b.zone

/-- The entry `PutSnapshot` makes of it. -/
def toInstance (b : Binding) : Instance := ⟨b.name, b.id, b.ip, b.port, b.zone⟩

end Binding

namespace Instance

def key (e : Instance) : Key := ⟨e.name, e.id⟩

def address (e : Instance) : Text := Registry.address e.ip e.port e.zone

end Instance

@[simp] theorem Binding.toInstance_key (b : Binding) : b.toInstance.key = b.key := rfl

/-- For one ip and port, the address tells the zones apart. -/
theorem address_inj {ip port z z' : Text} : address ip port z = address ip port z' ↔ z = z' := by
  constructor
  · intro h
    have htail := List.append_cancel_left h
    cases z with
    | nil => cases z' with
      | nil => rfl
      | cons c z' => simp at htail
    | cons c z => cases z' with
      | nil => simp at htail
      | cons c' z' => simpa using htail
  · intro h
    rw [h]

/-- `ParseValue`: the ip, the port and the zone. -/
def parseValue (v : Text) : Option (Text × Text × Text) :=
  let ip := v.takeWhile (· ≠ ' ')
  match v.dropWhile (· ≠ ' ') with
  | [] => none
  | _ :: rest =>
      if ip = [] then none
      else
        let port := rest.takeWhile (· ≠ ' ')
        match rest.dropWhile (· ≠ ' ') with
        | [] => if port = [] then none else some (ip, port, [])
        | _ :: zone =>
            if zone = [] ∨ ' ' ∈ zone then none
            else if port = [] then none
            else some (ip, port, zone)

/-- What a script answers, as `ReplyInt` reads it. -/
inductive Code
  /-- `REG_FAIL` -/
  | fail
  /-- `REG_TAKEN` -/
  | taken
  /-- `REG_OK` -/
  | ok
  /-- `REG_RENEWED` -/
  | renewed
  deriving DecidableEq, Repr

/-- The keys of one space. -/
structure Redis where
  keys : Expiring Key Text := {}
  /-- `svc:<name>` -/
  ids : Text → List Int := fun _ => []
  /-- `svc` -/
  names : List Text := []

/-- `m_iExpireMilliseconds` after `Init`. -/
structure Config where
  expireMs : Nat
  pos : 0 < expireMs

/-- What `Init` makes of the configured value. -/
def Config.ofRaw (raw : Int) : Config :=
  if h : raw ≤ 0 then ⟨3000, by decide⟩ else ⟨raw.toNat, by omega⟩

namespace Redis

/-- The registration of a key that has not expired. -/
def get (r : Redis) (k : Key) : Option Text := r.keys.get k

/-- The two `SADD` of a registration. -/
def enlist (r : Redis) (b : Binding) : Redis :=
  { r with
    ids := Function.update r.ids b.name ((r.ids b.name).insert b.id)
    names := r.names.insert b.name }

/-- `kRegisterLua`. -/
def register (c : Config) (r : Redis) (b : Binding) : Redis × Code :=
  match r.get b.key with
  | some v =>
      if v ≠ b.value then (r, .taken)
      else ({ r with keys := r.keys.set b.key b.value c.expireMs }.enlist b, .ok)
  | none => ({ r with keys := r.keys.set b.key b.value c.expireMs }.enlist b, .ok)

/-- `kRefreshLua`. -/
def refresh (c : Config) (r : Redis) (b : Binding) : Redis × Code :=
  match r.get b.key with
  | some v =>
      if v = b.value then ({ r with keys := r.keys.expire b.key c.expireMs }.enlist b, .ok)
      else (r, .taken)
  | none => ({ r with keys := r.keys.set b.key b.value c.expireMs }.enlist b, .renewed)

/-- `kWithdrawLua`. -/
def withdraw (r : Redis) (b : Binding) : Redis :=
  if r.get b.key = some b.value then
    { r with
      keys := r.keys.del b.key
      ids := Function.update r.ids b.name ((r.ids b.name).erase b.id) }
  else r

/-- The registrations of one name. -/
def listName (r : Redis) (n : Text) : List (Key × Text) :=
  (r.ids n).filterMap fun id => (r.get ⟨n, id⟩).map fun v => (⟨n, id⟩, v)

/-- The reply of `kListAllLua`. -/
def listing (r : Redis) : List (Key × Text) := r.names.flatMap r.listName

/-- What `kListAllLua` tidies up: ids whose key has expired, and names that are left with none. -/
def tidy (r : Redis) : Redis :=
  { r with
    ids := fun n => if n ∈ r.names then (r.ids n).filter fun id => (r.get ⟨n, id⟩).isSome else r.ids n
    names := r.names.filter fun n => (r.ids n).any fun id => (r.get ⟨n, id⟩).isSome }

def advance (r : Redis) (d : Nat) : Redis := { r with keys := r.keys.advance d }

/-- The sets hold each member once. -/
structure SetsOk (r : Redis) : Prop where
  names : r.names.Nodup
  ids : ∀ n, (r.ids n).Nodup

/-! ## What the scripts do -/

section Scripts

variable {c : Config} {r : Redis} {b : Binding}

@[simp] theorem enlist_get (r : Redis) (b : Binding) (k : Key) : (r.enlist b).get k = r.get k := rfl

theorem SetsOk.enlist (h : r.SetsOk) : (r.enlist b).SetsOk := by
  constructor
  · exact h.names.insert
  · intro n
    by_cases hn : n = b.name
    · subst hn
      simpa [Redis.enlist] using (h.ids b.name).insert
    · simpa [Redis.enlist, hn] using h.ids n

theorem SetsOk.register (h : r.SetsOk) : (r.register c b).1.SetsOk := by
  have hset : ({ r with keys := r.keys.set b.key b.value c.expireMs } : Redis).SetsOk :=
    ⟨h.names, h.ids⟩
  simp only [Redis.register]
  split
  · split
    · exact h
    · exact hset.enlist
  · exact hset.enlist

theorem SetsOk.refresh (h : r.SetsOk) : (r.refresh c b).1.SetsOk := by
  simp only [Redis.refresh]
  split
  · split
    · exact SetsOk.enlist ⟨h.names, h.ids⟩
    · exact h
  · exact SetsOk.enlist ⟨h.names, h.ids⟩

theorem SetsOk.withdraw (h : r.SetsOk) : (r.withdraw b).SetsOk := by
  simp only [Redis.withdraw]
  split
  · constructor
    · exact h.names
    · intro n
      by_cases hn : n = b.name
      · subst hn
        simpa using (h.ids b.name).erase b.id
      · simpa [hn] using h.ids n
  · exact h

theorem SetsOk.tidy (h : r.SetsOk) : r.tidy.SetsOk := by
  constructor
  · exact h.names.filter _
  · intro n
    show (if n ∈ r.names then _ else _ : List Int).Nodup
    split
    · exact (h.ids n).filter _
    · exact h.ids n

@[simp] theorem tidy_get (r : Redis) (k : Key) : r.tidy.get k = r.get k := rfl

/-- **`kRegisterLua`** either leaves another owner's key alone, or makes the key this address's. -/
theorem register_cases (c : Config) (r : Redis) (b : Binding) :
    ((r.register c b).2 = .taken ∧ (r.register c b).1 = r ∧
      ∃ v, v ≠ b.value ∧ r.get b.key = some v) ∨
    ((r.register c b).2 = .ok ∧ (r.get b.key = none ∨ r.get b.key = some b.value) ∧
      ∀ k, (r.register c b).1.get k = if k = b.key then some b.value else r.get k) := by
  have hset : ∀ k, ({ r with keys := r.keys.set b.key b.value c.expireMs }.enlist b).get k =
      if k = b.key then some b.value else r.get k := by
    intro k
    show (r.keys.set b.key b.value c.expireMs).get k = _
    by_cases hk : k = b.key
    · rw [if_pos hk, hk, Expiring.get_set_self _ _ _ c.pos]
    · rw [if_neg hk, Expiring.get_set_ne _ hk]
      rfl
  cases hget : r.get b.key with
  | none =>
    refine .inr ⟨?_, .inl rfl, ?_⟩
    · simp only [register, hget]
    · simp only [register, hget]
      exact hset
  | some v =>
    by_cases hv : v = b.value
    · refine .inr ⟨?_, .inr (by rw [hv]), ?_⟩
      · simp only [register, hget, hv, ne_eq, not_true_eq_false, if_false]
      · simp only [register, hget, hv, ne_eq, not_true_eq_false, if_false]
        exact hset
    · refine .inl ⟨?_, ?_, v, hv, rfl⟩
      · simp only [register, hget, ne_eq, hv, not_false_eq_true, if_true]
      · simp only [register, hget, ne_eq, hv, not_false_eq_true, if_true]

/-- **`kRefreshLua`** likewise; a key that had expired is taken again. -/
theorem refresh_cases (c : Config) (r : Redis) (b : Binding) :
    ((r.refresh c b).2 = .taken ∧ (r.refresh c b).1 = r ∧
      ∃ v, v ≠ b.value ∧ r.get b.key = some v) ∨
    ((r.refresh c b).2 = .ok ∧ r.get b.key = some b.value ∧
      ∀ k, (r.refresh c b).1.get k = if k = b.key then some b.value else r.get k) ∨
    ((r.refresh c b).2 = .renewed ∧ r.get b.key = none ∧
      ∀ k, (r.refresh c b).1.get k = if k = b.key then some b.value else r.get k) := by
  cases hget : r.get b.key with
  | none =>
    refine .inr (.inr ⟨?_, rfl, ?_⟩)
    · simp only [refresh, hget]
    · intro k
      simp only [refresh, hget]
      show (r.keys.set b.key b.value c.expireMs).get k = _
      by_cases hk : k = b.key
      · rw [if_pos hk, hk, Expiring.get_set_self _ _ _ c.pos]
      · rw [if_neg hk, Expiring.get_set_ne _ hk]
        rfl
  | some v =>
    by_cases hv : v = b.value
    · refine .inr (.inl ⟨?_, by rw [hv], ?_⟩)
      · simp only [refresh, hget, hv, if_true]
      · intro k
        simp only [refresh, hget, hv, if_true]
        show (r.keys.expire b.key c.expireMs).get k = _
        rw [Expiring.get_expire _ _ _ c.pos]
        by_cases hk : k = b.key
        · rw [if_pos hk, hk]
          exact hget.trans (by rw [hv])
        · rw [if_neg hk]
          rfl
    · refine .inl ⟨?_, ?_, v, hv, rfl⟩
      · simp only [refresh, hget, hv, if_false]
      · simp only [refresh, hget, hv, if_false]

/-- **`kWithdrawLua`** takes away this address's key and nothing else. -/
theorem withdraw_get (r : Redis) (b : Binding) (k : Key) :
    (r.withdraw b).get k = if k = b.key ∧ r.get k = some b.value then none else r.get k := by
  by_cases hmine : r.get b.key = some b.value
  · rw [withdraw, if_pos hmine]
    show (r.keys.del b.key).get k = _
    by_cases hk : k = b.key
    · rw [hk, Expiring.get_del_self, if_pos ⟨rfl, hmine⟩]
    · rw [Expiring.get_del_ne _ hk, if_neg (fun h => hk h.1)]
      rfl
  · rw [withdraw, if_neg hmine, if_neg]
    rintro ⟨rfl, h⟩
    exact hmine h

/-- The listing shows only registrations that are there. -/
theorem get_of_listing {k : Key} {v : Text} (h : (k, v) ∈ r.listing) : r.get k = some v := by
  simp only [listing, listName, List.mem_flatMap, List.mem_filterMap, Option.map_eq_some_iff,
    Prod.mk.injEq] at h
  obtain ⟨n, -, id, -, w, hw, rfl, rfl⟩ := h
  exact hw

/-- It shows no key twice. -/
theorem SetsOk.listing (h : r.SetsOk) : (r.listing.map Prod.fst).Nodup := by
  have hname : ∀ n, ((r.listName n).map Prod.fst).Nodup ∧
      ∀ k ∈ (r.listName n).map Prod.fst, k.name = n := by
    intro n
    constructor
    · rw [listName, List.map_filterMap]
      apply (h.ids n).filterMap
      intro a a' k ha ha'
      simp only [Option.map_map, Option.mem_def, Option.map_eq_some_iff, Function.comp_apply] at ha ha'
      obtain ⟨w, -, rfl⟩ := ha
      obtain ⟨w', -, hk⟩ := ha'
      exact (Key.mk.inj hk).2.symm
    · intro k hk
      simp only [listName, List.mem_map, List.mem_filterMap, Option.map_eq_some_iff] at hk
      obtain ⟨x, ⟨id, -, w, -, rfl⟩, rfl⟩ := hk
      rfl
  rw [Redis.listing, List.map_flatMap, List.nodup_flatMap]
  refine ⟨fun n _ => (hname n).1, ?_⟩
  refine h.names.imp ?_
  intro a b hab k hka hkb
  exact hab (((hname a).2 k hka).symm.trans ((hname b).2 k hkb))

/-- Time only takes registrations away. -/
theorem get_of_advance {d : Nat} {k : Key} {v : Text} (h : (r.advance d).get k = some v) :
    r.get k = some v :=
  Expiring.get_of_advance h

end Scripts

end Redis

end OpenIdea.Registry
