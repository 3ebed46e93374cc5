import Mathlib.Data.List.TakeWhile
import OpenIdea.Registry.Server

/-!
# Addresses as Redis keeps them (registry_server.cpp)

A registration's value is the ip, the port and the zone with spaces between them, and `Reload` takes
it apart again. The value is also what tells the owner of a service id from another process.
`Handle` looks at the characters of the name and of the zone, but only asks that the ip and the port
are not empty. Both addresses survive, and they have one value only if they are one, exactly where
no ip and no port has a space (`addresses_survive_iff`); `spaced_port` has one.
-/

set_option autoImplicit false

namespace OpenIdea.Registry

/-! ## Taking a value apart -/

theorem not_mem_takeWhile_space (s : Text) : ' ' ∉ s.takeWhile (· ≠ ' ') := by
  intro h
  have hall := List.mem_takeWhile_imp h
  exact absurd rfl (of_decide_eq_true hall)

/-- What `ParseValue` gives as ip and port has no space in it. -/
theorem parseValue_spaces {v ip port zone : Text} (h : parseValue v = some (ip, port, zone)) :
    ' ' ∉ ip ∧ ' ' ∉ port := by
  have hparts : ip = v.takeWhile (· ≠ ' ') ∧ ∃ rest : Text, port = rest.takeWhile (· ≠ ' ') := by
    rw [parseValue] at h
    dsimp only at h
    split at h
    · cases h
    · rename_i rest _
      obtain ⟨_, h⟩ := Option.ite_none_left_eq_some.1 h
      split at h
      · obtain ⟨_, h⟩ := Option.ite_none_left_eq_some.1 h
        simp only [Option.some.injEq, Prod.mk.injEq] at h
        obtain ⟨hip, hport, -⟩ := h
        exact ⟨hip.symm, rest, hport.symm⟩
      · obtain ⟨_, h⟩ := Option.ite_none_left_eq_some.1 h
        obtain ⟨_, h⟩ := Option.ite_none_left_eq_some.1 h
        simp only [Option.some.injEq, Prod.mk.injEq] at h
        obtain ⟨hip, hport, -⟩ := h
        exact ⟨hip.symm, rest, hport.symm⟩
  obtain ⟨rfl, rest, rfl⟩ := hparts
  exact ⟨not_mem_takeWhile_space v, not_mem_takeWhile_space rest⟩

variable {s : Text} {b : Binding}

theorem span_space (h : ' ' ∉ s) (rest : Text) :
    (s ++ ' ' :: rest).takeWhile (· ≠ ' ') = s ∧
      (s ++ ' ' :: rest).dropWhile (· ≠ ' ') = ' ' :: rest := by
  have hall : ∀ c ∈ s, decide (c ≠ ' ') = true := fun c hc =>
    decide_eq_true fun heq => h (heq ▸ hc)
  constructor
  · rw [List.takeWhile_append_of_pos hall, List.takeWhile_cons_of_neg (by simp), List.append_nil]
  · rw [List.dropWhile_append_of_pos hall, List.dropWhile_cons_of_neg (by simp)]

theorem span_all (h : ' ' ∉ s) : s.takeWhile (· ≠ ' ') = s ∧ s.dropWhile (· ≠ ' ') = [] := by
  have hall : ∀ c ∈ s, decide (c ≠ ' ') = true := fun c hc =>
    decide_eq_true fun heq => h (heq ▸ hc)
  exact ⟨List.takeWhile_eq_self_iff.2 hall, List.dropWhile_eq_nil_iff.2 hall⟩

/-- **A value without other spaces is taken apart as it was put together.** -/
theorem parseValue_address {ip port zone : Text} (hip : ip ≠ []) (hport : port ≠ [])
    (hip' : ' ' ∉ ip) (hport' : ' ' ∉ port) (hzone : ' ' ∉ zone) :
    parseValue (address ip port zone) = some (ip, port, zone) := by
  cases zone with
  | nil =>
    have hvalue : address ip port [] = ip ++ ' ' :: port := by simp [address]
    obtain ⟨htake, hdrop⟩ := span_space hip' port
    obtain ⟨htake', hdrop'⟩ := span_all hport'
    rw [hvalue, parseValue]
    simp only [htake, hdrop, htake', hdrop', if_neg hip, if_neg hport]
  | cons c zone =>
    have hvalue : address ip port (c :: zone) = ip ++ ' ' :: (port ++ ' ' :: c :: zone) := by
      simp [address]
    obtain ⟨htake, hdrop⟩ := span_space hip' (port ++ ' ' :: c :: zone)
    obtain ⟨htake', hdrop'⟩ := span_space hport' (c :: zone)
    have hgood : ¬ (c :: zone = [] ∨ ' ' ∈ c :: zone) :=
      not_or.2 ⟨List.cons_ne_nil c zone, hzone⟩
    rw [hvalue, parseValue]
    simp only [htake, hdrop, htake', hdrop', if_neg hip, if_neg hport, if_neg hgood]

theorem validSpacePart_space (h : validSpacePart s = true) : ' ' ∉ s := by
  intro hmem
  rw [validSpacePart, Bool.and_eq_true, List.all_eq_true] at h
  exact absurd (h.2 ' ' hmem) (by decide)

/-- What the checks of `Handle` say about the parts of the address. -/
theorem validRequest_parts (h : State.validRequest b = true) :
    b.ip ≠ [] ∧ b.port ≠ [] ∧ ' ' ∉ b.zone := by
  simp only [State.validRequest, Bool.and_eq_true, Bool.not_eq_true', Bool.or_eq_true,
    List.isEmpty_iff, List.isEmpty_eq_false_iff] at h
  obtain ⟨⟨⟨-, hip⟩, hport⟩, hzone⟩ := h
  refine ⟨hip, hport, ?_⟩
  rcases hzone with hnil | hvalid
  · rw [hnil]
    exact List.not_mem_nil
  · exact validSpacePart_space hvalid

/-! ## A registration and a reload -/

/-- A registration that has just been made is in the listing. -/
theorem mem_listing_register {c : Config} {r : Redis} (h : (r.register c b).2 = .ok) :
    (b.key, b.value) ∈ (r.register c b).1.listing := by
  obtain ⟨hok, hget⟩ : (r.register c b).2 = .ok ∧ (r.register c b).1.get b.key = some b.value := by
    rcases r.register_cases c b with ⟨htaken, -⟩ | ⟨hok, -, hget⟩
    · rw [htaken] at h
      cases h
    · exact ⟨hok, by rw [hget, if_pos rfl]⟩
  have hsets : b.name ∈ (r.register c b).1.names ∧ b.id ∈ (r.register c b).1.ids b.name := by
    have henlist : ∀ r' : Redis, b.name ∈ (r'.enlist b).names ∧ b.id ∈ (r'.enlist b).ids b.name := by
      intro r'
      refine ⟨List.mem_insert_self, ?_⟩
      show b.id ∈ Function.update r'.ids b.name ((r'.ids b.name).insert b.id) b.name
      rw [Function.update_self]
      exact List.mem_insert_self
    rw [Redis.register] at hok ⊢
    split
    · split
      · rename_i hv hne
        rw [hv] at hok
        simp only [if_pos hne] at hok
        cases hok
      · exact henlist _
    · exact henlist _
  refine List.mem_flatMap.2 ⟨b.name, hsets.1, List.mem_filterMap.2 ⟨b.id, hsets.2, ?_⟩⟩
  have hget' : (r.register c b).1.get ⟨b.name, b.id⟩ = some b.value := hget
  rw [hget']
  rfl

/-- **The address survives**: the stored value says it, and the snapshot that `Reload` makes after
the registration has the entry that `PutSnapshot` wrote when it was made. -/
structure Survives (b : Binding) : Prop where
  parsed : parseValue b.value = some (b.ip, b.port, b.zone)
  reloaded : ∀ (c : Config) (r : Redis) (s : State), (r.register c b).2 = .ok →
    b.toInstance ∈ putSnapshot s.snapshot b ∧
      b.toInstance ∈ (s.afterReload (execute c (r.register c b).1 .reload).2).snapshot

theorem survives_of_parsed (h : parseValue b.value = some (b.ip, b.port, b.zone)) : Survives b := by
  refine ⟨h, fun c r s hok => ⟨List.mem_append_right _ List.mem_cons_self, ?_⟩⟩
  refine List.mem_filterMap.2 ⟨(b.key, b.value), mem_listing_register hok, ?_⟩
  rw [h]
  rfl

/-- **Addresses survive storage exactly where the ip and the port have no space.** For two requests
that `Handle` admits: both addresses survive, and they have one value only if they are one address,
if and only if there is no space in an ip or a port. -/
theorem addresses_survive_iff {b b' : Binding} (h : State.validRequest b = true)
    (h' : State.validRequest b' = true) :
    (Survives b ∧ Survives b' ∧
      (b.value = b'.value → b.ip = b'.ip ∧ b.port = b'.port ∧ b.zone = b'.zone)) ↔
    (' ' ∉ b.ip ∧ ' ' ∉ b.port) ∧ ' ' ∉ b'.ip ∧ ' ' ∉ b'.port := by
  constructor
  · rintro ⟨hs, hs', -⟩
    exact ⟨parseValue_spaces hs.parsed, parseValue_spaces hs'.parsed⟩
  · rintro ⟨⟨hip, hport⟩, hip', hport'⟩
    obtain ⟨hipne, hportne, hzone⟩ := validRequest_parts h
    obtain ⟨hipne', hportne', hzone'⟩ := validRequest_parts h'
    have hparsed : parseValue b.value = some (b.ip, b.port, b.zone) :=
      parseValue_address hipne hportne hip hport hzone
    have hparsed' : parseValue b'.value = some (b'.ip, b'.port, b'.zone) :=
      parseValue_address hipne' hportne' hip' hport' hzone'
    refine ⟨survives_of_parsed hparsed, survives_of_parsed hparsed', fun heq => ?_⟩
    -- what is read off the one value is both addresses
    rw [heq, hparsed'] at hparsed
    have hsame := Option.some.inj hparsed
    exact ⟨congrArg Prod.fst hsame.symm, congrArg (fun p => p.2.1) hsame.symm,
      congrArg (fun p => p.2.2) hsame.symm⟩

/-- A process of zone 3 and one without a zone. -/
def inZone : Binding := ⟨['s'], 1, ['h'], ['8', '0'], ['3']⟩

def noZone : Binding := ⟨['s'], 1, ['h'], ['8', '0'], []⟩

theorem addresses_survive_iff_zoned : Survives inZone ∧ Survives noZone ∧
    (inZone.value = noZone.value →
      inZone.ip = noZone.ip ∧ inZone.port = noZone.port ∧ inZone.zone = noZone.zone) :=
  (addresses_survive_iff (by decide) (by decide)).2 (by decide)

/-- A port with a space in it. -/
def spaced : Binding := ⟨['s'], 1, ['h'], ['8', '0', ' ', '3'], []⟩

/-- **A port that is read back as a port and a zone.** The request is admitted, its value is that of
another process in zone 3, and `ParseValue` gives that process's address. -/
theorem spaced_port :
    State.validRequest spaced = true ∧ State.validRequest inZone = true ∧
    spaced.value = inZone.value ∧ spaced.port ≠ inZone.port ∧
    parseValue spaced.value = some (inZone.ip, inZone.port, inZone.zone) := by
  decide

end OpenIdea.Registry
