import Mathlib.Data.List.Nodup

/-!
# Indexes of linked lists with stored iterators

An index keeps one linked list of entries per key, and every item remembers its own place: a key
and the address of its list node. A stored iterator is good for `erase` only while the node is in
that list, so an index and the remembered places have to agree. `Linked` says that they do:

* an entry's item remembers exactly the list and the node the entry is in (`entry`);
* a remembered place holds an entry of that item (`held`);
* a list has no two nodes at one address (`nodup`).

It follows that an item is in the index exactly once, in the list it remembers, or not at all.
-/

set_option autoImplicit false

namespace OpenIdea.Lib.LinkedIndex

/-- A node of a linked list: its address, which a stored iterator names, and its value. -/
structure Node (V : Type) where
  addr : Nat
  val : V
  deriving DecidableEq, Repr

/-- `erase(iterator)`; `none` when the iterator names no node of the list. -/
def eraseNode {V : Type} (l : List (Node V)) (a : Nat) : Option (List (Node V)) :=
  if a ∈ l.map Node.addr then some (l.filter fun n => n.addr ≠ a) else none

variable {K V I : Type}

/-- The lists of an index and the places its items remember agree. -/
structure Linked (ident : V → I) (index : K → List (Node V)) (place : I → Option (K × Nat)) :
    Prop where
  entry : ∀ k n, n ∈ index k → place (ident n.val) = some (k, n.addr)
  held : ∀ i k a, place i = some (k, a) → ∃ n ∈ index k, n.addr = a ∧ ident n.val = i
  nodup : ∀ k, ((index k).map Node.addr).Nodup

variable {ident : V → I} {index : K → List (Node V)} {place : I → Option (K × Nat)}

variable {n : Node V}

theorem eraseNode_of_mem {l : List (Node V)} (h : n ∈ l) :
    eraseNode l n.addr = some (l.filter fun m => m.addr ≠ n.addr) :=
  if_pos (List.mem_map_of_mem h)

/-- Filtering out the address of the first node leaves the tail. -/
theorem filter_addr_cons {l : List (Node V)} (h : ((n :: l).map Node.addr).Nodup) :
    ((n :: l).filter fun m => m.addr ≠ n.addr) = l := by
  have hnot : ∀ m ∈ l, m.addr ≠ n.addr := fun m hm heq =>
    (List.nodup_cons.1 h).1 (heq ▸ List.mem_map_of_mem hm)
  rw [List.filter_cons_of_neg (by simp), List.filter_eq_self]
  intro m hm
  simpa using hnot m hm

/-- The same for a node in the middle. -/
theorem filter_addr_append {l₁ l₂ : List (Node V)} (h : ((l₁ ++ n :: l₂).map Node.addr).Nodup) :
    ((l₁ ++ n :: l₂).filter fun m => m.addr ≠ n.addr) = l₁ ++ l₂ := by
  rw [List.map_append, List.nodup_append] at h
  obtain ⟨-, h₂, hdisj⟩ := h
  rw [List.filter_append, filter_addr_cons h₂, List.filter_eq_self.2]
  intro m hm
  simpa using hdisj m.addr (List.mem_map_of_mem hm) n.addr (by simp)

namespace Linked

/-- An item the index holds is in exactly one list, once: it is the only entry of that item. -/
theorem entry_unique (h : Linked ident index place) {k k' : K} {n n' : Node V}
    (hn : n ∈ index k) (hn' : n' ∈ index k') (hid : ident n.val = ident n'.val) :
    k = k' ∧ n.addr = n'.addr := by
  have h₁ := h.entry k n hn
  rw [hid, h.entry k' n' hn'] at h₁
  obtain ⟨rfl, haddr⟩ := Prod.mk.inj (Option.some.inj h₁)
  exact ⟨rfl, haddr.symm⟩

/-- A list names no item twice. -/
theorem nodup_ident (h : Linked ident index place) (k : K) :
    ((index k).map fun n => ident n.val).Nodup := by
  refine List.Nodup.map_on (fun n hn m hm hid => ?_) (h.nodup k).of_map
  exact List.inj_on_of_nodup_map (h.nodup k) hn hm (h.entry_unique hn hm hid).2

section Counting

variable [DecidableEq I]

/-- How often the item is in the list under `k`. -/
def occurrences (ident : V → I) (index : K → List (Node V)) (k : K) (i : I) : Nat :=
  (index k).countP fun n => ident n.val = i

/-- An item with a place is in the list of that place exactly once and in no other list. -/
theorem occurrences_eq [DecidableEq K] (h : Linked ident index place) {i : I} {k : K} {a : Nat}
    (hi : place i = some (k, a)) (k' : K) :
    occurrences ident index k' i = if k' = k then 1 else 0 := by
  obtain ⟨n, hn, rfl, rfl⟩ := h.held i k a hi
  split
  · rename_i hk
    subst hk
    obtain ⟨l₁, l₂, hl⟩ := List.append_of_mem hn
    have hnd := h.nodup k'
    have hout : ∀ m ∈ l₁ ++ l₂, ident m.val ≠ ident n.val := by
      intro m hm hid
      have hm' : m ∈ index k' := by
        rw [hl]
        rcases List.mem_append.1 hm with hm | hm
        · exact List.mem_append_left _ hm
        · exact List.mem_append_right _ (List.mem_cons_of_mem _ hm)
      have haddr := (h.entry_unique hm' hn hid).2
      rw [hl] at hnd
      have := filter_addr_append hnd
      rw [← this, List.mem_filter] at hm
      exact absurd haddr (by simpa using hm.2)
    rw [occurrences, hl, List.countP_append, List.countP_cons_of_pos (by simp),
      List.countP_eq_zero.2 fun m hm => by simpa using hout m (List.mem_append_left _ hm),
      List.countP_eq_zero.2 fun m hm => by simpa using hout m (List.mem_append_right _ hm)]
  · rename_i hk
    refine List.countP_eq_zero.2 fun m hm => ?_
    simpa using fun hid => hk (h.entry_unique hm hn hid).1

end Counting

section Updates

variable [DecidableEq K] [DecidableEq I]

/-- `push_back` of an entry for an item without a place. -/
theorem push (h : Linked ident index place) (k : K) {a : Nat} {v : V}
    (hfresh : ∀ n ∈ index k, n.addr ≠ a) (hi : place (ident v) = none) :
    Linked ident (Function.update index k (index k ++ [⟨a, v⟩]))
      (Function.update place (ident v) (some (k, a))) := by
  have hother : ∀ k' n, n ∈ index k' → ident n.val ≠ ident v := by
    intro k' n hn hid
    rw [← hid, h.entry k' n hn] at hi
    cases hi
  refine ⟨fun k' n hn => ?_, fun i k' a' hp => ?_, fun k' => ?_⟩
  · by_cases hk : k' = k
    · subst hk
      rw [Function.update_self] at hn
      rcases List.mem_append.1 hn with hn | hn
      · rw [Function.update_of_ne (hother k' n hn)]
        exact h.entry k' n hn
      · obtain rfl := List.mem_singleton.1 hn
        rw [Function.update_self]
    · rw [Function.update_of_ne hk] at hn
      rw [Function.update_of_ne (hother k' n hn)]
      exact h.entry k' n hn
  · by_cases hid : i = ident v
    · subst hid
      rw [Function.update_self] at hp
      obtain ⟨rfl, rfl⟩ := Prod.mk.inj (Option.some.inj hp)
      exact ⟨⟨a, v⟩, by rw [Function.update_self]; simp, rfl, rfl⟩
    · rw [Function.update_of_ne hid] at hp
      obtain ⟨n, hn, ha, hni⟩ := h.held i k' a' hp
      refine ⟨n, ?_, ha, hni⟩
      by_cases hk : k' = k
      · subst hk
        rw [Function.update_self]
        exact List.mem_append_left _ hn
      · rwa [Function.update_of_ne hk]
  · by_cases hk : k' = k
    · subst hk
      rw [Function.update_self, List.map_append, List.nodup_append]
      refine ⟨h.nodup k', by simp, ?_⟩
      intro b hb c hc
      obtain ⟨n, hn, rfl⟩ := List.mem_map.1 hb
      simp only [List.map_cons, List.map_nil, List.mem_singleton] at hc
      subst hc
      exact hfresh n hn
    · rw [Function.update_of_ne hk]
      exact h.nodup k'

/-- Erasing an item's node through the iterator it remembers. -/
theorem erase (h : Linked ident index place) {i : I} {k : K} {a : Nat}
    (hi : place i = some (k, a)) :
    Linked ident (Function.update index k ((index k).filter fun n => n.addr ≠ a))
      (Function.update place i none) := by
  obtain ⟨n, hn, rfl, rfl⟩ := h.held i k a hi
  have hstay : ∀ k' m, m ∈ index k' → (k' = k → m.addr ≠ n.addr) → ident m.val ≠ ident n.val := by
    intro k' m hm hne hid
    obtain ⟨hk, haddr⟩ := h.entry_unique hm hn hid
    exact hne hk haddr
  refine ⟨fun k' m hm => ?_, fun j k' b hp => ?_, fun k' => ?_⟩
  · by_cases hk : k' = k
    · subst hk
      rw [Function.update_self, List.mem_filter] at hm
      rw [Function.update_of_ne (hstay k' m hm.1 fun _ => by simpa using hm.2)]
      exact h.entry k' m hm.1
    · rw [Function.update_of_ne hk] at hm
      rw [Function.update_of_ne (hstay k' m hm fun heq => absurd heq hk)]
      exact h.entry k' m hm
  · by_cases hj : j = ident n.val
    · subst hj
      rw [Function.update_self] at hp
      cases hp
    · rw [Function.update_of_ne hj] at hp
      obtain ⟨m, hm, hb, hmj⟩ := h.held j k' b hp
      refine ⟨m, ?_, hb, hmj⟩
      by_cases hk : k' = k
      · subst hk
        rw [Function.update_self, List.mem_filter]
        refine ⟨hm, ?_⟩
        simp only [ne_eq, decide_eq_true_eq]
        intro haddr
        -- two nodes at one address of one list are the same node
        have := List.inj_on_of_nodup_map (h.nodup k') hm hn haddr
        exact hj (by rw [← hmj, this])
      · rwa [Function.update_of_ne hk]
  · by_cases hk : k' = k
    · subst hk
      rw [Function.update_self]
      exact (h.nodup k').sublist (List.filter_sublist.map _)
    · rw [Function.update_of_ne hk]
      exact h.nodup k'

end Updates

end Linked

end OpenIdea.Lib.LinkedIndex
