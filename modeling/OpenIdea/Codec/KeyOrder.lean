import OpenIdea.Lib.StrictOrder
import OpenIdea.Codec.Generator
import OpenIdea.Codec.KeyComparators

/-!
# The order of map keys

`GetCompareMethod` writes an `operator<` for a `key` rpcdata, which asks its members one after the
other, each both ways. `Val.less` is what C++ makes of it together with the comparisons of its
library. On the objects of a type that `TypeOrdered` accepts it is a strict total order
(`less_ordered`), by induction on the walk: what it enters is accepted by a shorter walk.
-/

set_option autoImplicit false

namespace OpenIdea.Codec

open Lib KeyComparators

/-! ## The comparison -/

/-- `<` on scalars; nothing is below or above a NaN. -/
def Fixed.less (s : Fixed) (a b : ℕ) : Bool :=
  match s.number a, s.number b with
  | some x, some y => decide (x < y)
  | _, _ => false

/-- `std::string`'s order: by bytes, as unsigned characters. -/
def bytesLess : List UInt8 → List UInt8 → Bool := lexLess fun x y => decide (x.toNat < y.toNat)

namespace Val

mutual

/-- `a < b` for two objects of one key type. -/
def less : Val → Val → Bool
  | .fixed s a, .fixed _ b => s.less a b
  | .str a, .str b => bytesLess a b
  | .vec xs, .vec ys => elemsLess xs ys
  | .map ps, .map qs => pairsLess ps qs
  | .data xs, .data ys => compareMethod xs ys
  | _, _ => false
termination_by a b => sizeOf a + sizeOf b

/-- `GetCompareMethod`: the two lines that are written for each member, and the last one. -/
def compareMethod : List Val → List Val → Bool
  | x :: xs, y :: ys =>
      if less x y then true else if less y x then false else compareMethod xs ys
  | _, _ => false
termination_by xs ys => sizeOf xs + sizeOf ys

/-- `std::lexicographical_compare`, of two vectors. -/
def elemsLess : List Val → List Val → Bool
  | x :: xs, y :: ys => if less x y then true else if less y x then false else elemsLess xs ys
  | [], _ :: _ => true
  | _, [] => false
termination_by xs ys => sizeOf xs + sizeOf ys

/-- `std::lexicographical_compare`, of the pairs of two maps. -/
def pairsLess : List (Val × Val) → List (Val × Val) → Bool
  | p :: ps, q :: qs => if pairLess p q then true else if pairLess q p then false else pairsLess ps qs
  | [], _ :: _ => true
  | _, [] => false
termination_by ps qs => sizeOf ps + sizeOf qs

/-- `std::pair`'s `operator<`. -/
def pairLess : Val × Val → Val × Val → Bool
  | (a, b), (c, d) => if less a c then true else if less c a then false else less b d
termination_by p q => sizeOf p + sizeOf q

end

theorem compareMethod_eq (xs ys : List Val) : compareMethod xs ys = fieldsLess less xs ys := by
  induction xs generalizing ys with
  | nil => simp only [compareMethod, fieldsLess]
  | cons x xs ih => cases ys <;> simp only [compareMethod, fieldsLess, ih]

theorem elemsLess_eq (xs ys : List Val) : elemsLess xs ys = lexLess less xs ys := by
  induction xs generalizing ys with
  | nil => cases ys <;> simp only [elemsLess, lexLess]
  | cons x xs ih => cases ys <;> simp only [elemsLess, lexLess, ih]

theorem pairsLess_eq (ps qs : List (Val × Val)) :
    pairsLess ps qs = lexLess (Lib.pairLess less less) ps qs := by
  have hpair : ∀ p q, pairLess p q = Lib.pairLess less less p q := fun p q => by
    rw [pairLess, Lib.pairLess]
  induction ps generalizing qs with
  | nil => cases qs <;> simp only [pairsLess, lexLess]
  | cons p ps ih => cases qs <;> simp only [pairsLess, lexLess, ih, hpair]

end Val

/-! ## Scalars -/

theorem Fixed.text_injective : Function.Injective Fixed.text := by
  intro f g h
  cases f <;> cases g <;> simp_all [Fixed.text]

theorem Fixed.text_ne (f : Fixed) : "std::string" ≠ f.text := by
  cases f <;> simp [Fixed.text]

theorem Fixed.text_mem (f : Fixed) : f.text.toList ∈ orderedScalars := by
  apply List.mem_map_of_mem
  cases f <;> simp [Fixed.text]

theorem signed_inj (m : ℕ) {a b : ℕ} (ha : a < 2 * m) (hb : b < 2 * m)
    (h : (if a < m then (a : ℤ) else a - (2 * m : ℕ)) = if b < m then (b : ℤ) else b - (2 * m : ℕ)) :
    a = b := by
  split at h
  · split at h
    · omega
    · omega
  · split at h
    · omega
    · omega

/-- Different bit patterns of a scalar that is not floating are different numbers. -/
theorem Fixed.less_ordered {f : Fixed} (hf : f ≠ .float ∧ f ≠ .double) :
    StrictTotalOn (fun b => f.valid b = true) f.less := by
  have hkey : ∀ a b, f.valid a = true → f.valid b = true →
      (f.number a).getD 0 = (f.number b).getD 0 → a = b := by
    intro a b ha hb h
    cases f
    case float => exact absurd rfl hf.1
    case double => exact absurd rfl hf.2
    case int8 => exact signed_inj 128 (of_decide_eq_true ha) (of_decide_eq_true hb) h
    case int16 => exact signed_inj 32768 (of_decide_eq_true ha) (of_decide_eq_true hb) h
    case int32 => exact signed_inj 2147483648 (of_decide_eq_true ha) (of_decide_eq_true hb) h
    case int64 =>
      exact signed_inj 9223372036854775808 (of_decide_eq_true ha) (of_decide_eq_true hb) h
    all_goals exact Int.ofNat.inj h
  have hless : f.less = fun a b => decide ((f.number a).getD 0 < (f.number b).getD 0) := by
    cases f
    case float => exact absurd rfl hf.1
    case double => exact absurd rfl hf.2
    all_goals rfl
  rw [hless]
  exact .of_key hkey

theorem bytesLess_ordered : StrictTotalOn (fun s => ∀ c ∈ s, True) bytesLess :=
  (StrictTotalOn.of_key fun _ _ _ _ h => UInt8.toNat_inj.1 h).lex

namespace KeyComparators

/-! ## Objects of a type -/

/-- The objects of a type that have no floating member. -/
inductive IsObject (datas : List SerializeData) : Parsed → Val → Prop
  | fixed {n : Text} {f : Fixed} {b : ℕ} (hn : f.text.toList = n) (hf : f ≠ .float ∧ f ≠ .double)
      (hb : f.valid b = true) : IsObject datas (.name n) (.fixed f b)
  | string {n : Text} {s : List UInt8} (hn : "std::string".toList = n) :
      IsObject datas (.name n) (.str s)
  | vector {e : Parsed} {xs : List Val} (h : ∀ x ∈ xs, IsObject datas e x) :
      IsObject datas (.vector e) (.vec xs)
  | map {k v : Parsed} {ps : List (Val × Val)} (hk : ∀ p ∈ ps, IsObject datas k p.1)
      (hv : ∀ p ∈ ps, IsObject datas v p.2) : IsObject datas (.map k v) (.map ps)
  | data {n : Text} {d : SerializeData} {fs : List Val} (hn : n ∉ orderedScalars)
      (hd : rpcDataByName datas n = some d)
      (h : List.Forall₂ (fun m v => IsObject datas (parseType m.type) v) d.members fs) :
      IsObject datas (.name n) (.data fs)

/-- The objects of the class that is written for `d`. -/
def IsClassObject (datas : List SerializeData) (d : SerializeData) (v : Val) : Prop :=
  ∃ fs, List.Forall₂ (fun m v => IsObject datas (parseType m.type) v) d.members fs ∧ .data fs = v

/-- The comparison is a strict total order, and equal are those of which none is below the other. -/
def KeyOrdered (P : Val → Prop) : Prop :=
  StrictTotalOn P Val.less ∧
    ∀ a b, P a → P b → (a.less b = false ∧ b.less a = false ↔ a = b)

theorem KeyOrdered.of_strict {P : Val → Prop} (h : StrictTotalOn P Val.less) : KeyOrdered P :=
  ⟨h, fun _ _ => h.neither_iff⟩

variable {datas : List SerializeData} {n : Text} {d : SerializeData}

/-- The objects of a scalar type are numbers of one type, or strings. -/
theorem scalar_objects (hn : n ∈ orderedScalars) :
    (∃ f : Fixed, (f ≠ .float ∧ f ≠ .double) ∧
      ∀ v, IsObject datas (.name n) v → ∃ b, f.valid b = true ∧ .fixed f b = v) ∨
    ∀ v, IsObject datas (.name n) v → ∃ s, .str s = v := by
  by_cases hfixed : ∃ f : Fixed, f.text.toList = n ∧ f ≠ .float ∧ f ≠ .double
  · obtain ⟨f, hname, hf⟩ := hfixed
    refine Or.inl ⟨f, hf, fun v hv => ?_⟩
    cases hv with
    | @fixed _ f' b hname' hf' hb' =>
      obtain rfl : f = f' := Fixed.text_injective (String.toList_inj.1 (hname.trans hname'.symm))
      exact ⟨b, hb', rfl⟩
    | string hname' => exact absurd (String.toList_inj.1 (hname'.trans hname.symm)) f.text_ne
    | data hn' => exact absurd hn hn'
  · refine Or.inr fun v hv => ?_
    cases hv with
    | @fixed _ f _ hname hf => exact absurd ⟨f, hname, hf⟩ hfixed
    | @string _ s => exact ⟨s, rfl⟩
    | data hn' => exact absurd hn hn'

theorem scalar_ordered (hn : n ∈ orderedScalars) :
    StrictTotalOn (IsObject datas (.name n)) Val.less := by
  rcases @scalar_objects datas n hn with ⟨f, hf, hobjects⟩ | hobjects
  · apply (Fixed.less_ordered hf).image (g := Val.fixed f) hobjects
    intro a b _ _
    rw [Val.less]
  · apply bytesLess_ordered.image (g := Val.str)
    · intro v hv
      obtain ⟨s, rfl⟩ := hobjects v hv
      exact ⟨s, fun _ _ => trivial, rfl⟩
    · intro a b _ _
      rw [Val.less]

theorem class_ordered (h : ∀ m ∈ d.members, StrictTotalOn (IsObject datas (parseType m.type)) Val.less) :
    StrictTotalOn (IsClassObject datas d) Val.less := by
  apply (StrictTotalOn.fields h).image (g := Val.data) (fun _ hv => hv)
  intro xs ys _ _
  rw [Val.less, Val.compareMethod_eq]

theorem string_mem : "std::string".toList ∈ orderedScalars := by
  apply List.mem_map_of_mem
  simp

/-- An object of the name of a class is one of the class. -/
theorem IsObject.of_name {v : Val} (hn : n ∉ orderedScalars) (hd : rpcDataByName datas n = some d)
    (h : IsObject datas (.name n) v) : IsClassObject datas d v := by
  cases h with
  | @fixed _ f _ hname => exact absurd (hname ▸ f.text_mem) hn
  | string hname => exact absurd (hname ▸ string_mem) hn
  | @data _ d' fs _ hd' hfs =>
    obtain rfl : d = d' := Option.some.inj (hd.symm.trans hd')
    exact ⟨fs, hfs, rfl⟩

/-- **Accepted types are ordered.** -/
theorem less_ordered {fuel : ℕ} {stack : List Text} {p : Parsed}
    (h : typeOrdered datas fuel stack p = some true) : StrictTotalOn (IsObject datas p) Val.less := by
  apply ordered_induction (motive := fun p => StrictTotalOn (IsObject datas p) Val.less) ?_ ?_ ?_ ?_ h
  · intro n hn
    exact scalar_ordered hn
  · intro e ihe
    apply ihe.lex.image (g := Val.vec)
    · rintro _ (_ | _ | hxs)
      exact ⟨_, hxs, rfl⟩
    · intro xs ys _ _
      rw [Val.less, Val.elemsLess_eq]
  · intro k v ihk ihv
    apply (ihk.pair ihv).lex.image (g := Val.map)
    · rintro _ (_ | _ | _ | ⟨hkeys, hvals⟩)
      exact ⟨_, fun p hp => ⟨hkeys p hp, hvals p hp⟩, rfl⟩
    · intro ps qs _ _
      rw [Val.less, Val.pairsLess_eq]
  · intro n d hn hd ih
    apply (class_ordered ih).image (g := id)
    · intro v hv
      exact ⟨v, hv.of_name hn hd, rfl⟩
    · intro a b _ _
      rfl

/-! ## The comparison of the maps -/

theorem compareBytes_ordering (xs ys : List UInt8) :
    compareBytes xs ys = ordering bytesLess xs ys := by
  induction xs generalizing ys with
  | nil => cases ys <;> rfl
  | cons x xs ih =>
    cases ys with
    | nil => rfl
    | cons y ys =>
      rw [compareBytes, ih, bytesLess, ordering_lex, ordering_lt]
      rfl

variable {P : Val → Prop} (h : ∀ a b, P a → P b → a.compare b = ordering Val.less a b)

include h in
theorem compareList_ordering {xs ys : List Val} (hxs : ∀ x ∈ xs, P x) (hys : ∀ y ∈ ys, P y) :
    Val.compareList xs ys = ordering (lexLess Val.less) xs ys := by
  induction xs generalizing ys with
  | nil => cases ys <;> simp only [Val.compareList] <;> rfl
  | cons x xs ih =>
    cases ys with
    | nil =>
      rw [Val.compareList]
      rfl
    | cons y ys =>
      rw [List.forall_mem_cons] at hxs hys
      rw [Val.compareList, ordering_lex, h x y hxs.1 hys.1, ih hxs.2 hys.2]

include h in
theorem comparePairs_ordering {Q : Val → Prop}
    (h' : ∀ a b, Q a → Q b → a.compare b = ordering Val.less a b) {ps qs : List (Val × Val)}
    (hps : ∀ p ∈ ps, P p.1 ∧ Q p.2) (hqs : ∀ q ∈ qs, P q.1 ∧ Q q.2) :
    Val.comparePairs ps qs = ordering (lexLess (Lib.pairLess Val.less Val.less)) ps qs := by
  induction ps generalizing qs with
  | nil => cases qs <;> simp only [Val.comparePairs] <;> rfl
  | cons p ps ih =>
    cases qs with
    | nil =>
      rw [Val.comparePairs]
      rfl
    | cons q qs =>
      rw [List.forall_mem_cons] at hps hqs
      rw [Val.comparePairs, Val.comparePair, ordering_lex, ordering_pair,
        h _ _ hps.1.1 hqs.1.1, h' _ _ hps.1.2 hqs.1.2, ih hps.2 hqs.2]

/-- Two classes have equally many fields. -/
theorem compareList_fields {μ : Type} {R : μ → Val → Prop} {ms : List μ}
    (h : ∀ m ∈ ms, ∀ a b, R m a → R m b → a.compare b = ordering Val.less a b) {xs ys : List Val}
    (hxs : List.Forall₂ R ms xs) (hys : List.Forall₂ R ms ys) :
    Val.compareList xs ys = ordering (fieldsLess Val.less) xs ys := by
  induction hxs generalizing ys with
  | nil =>
    cases hys
    rw [Val.compareList]
    rfl
  | cons hx hxs ih =>
    obtain _ | ⟨hy, hys⟩ := hys
    rw [List.forall_mem_cons] at h
    rw [Val.compareList, ordering_fields, h.1 _ _ hx hy, ih h.2 hys]

theorem Fixed.compare_ordering {f : Fixed} (hf : f ≠ .float ∧ f ≠ .double) (a b : ℕ) :
    f.compare a b = ordering f.less a b := by
  have hnumber : ∀ c, ∃ x, f.number c = some x := by
    intro c
    cases f
    case float => exact absurd rfl hf.1
    case double => exact absurd rfl hf.2
    all_goals exact ⟨_, rfl⟩
  obtain ⟨x, hx⟩ := hnumber a
  obtain ⟨y, hy⟩ := hnumber b
  simp only [Fixed.compare, Fixed.less, hx, hy, ordering_lt, ordering]

/-- `Val.compare`, by which a map finds the place of a pair, is `operator<` asked both ways. -/
theorem compare_ordering {fuel : ℕ} {stack : List Text} {p : Parsed}
    (h : typeOrdered datas fuel stack p = some true) : ∀ a b, IsObject datas p a →
      IsObject datas p b → a.compare b = ordering Val.less a b := by
  apply ordered_induction (motive := fun p => ∀ a b, IsObject datas p a → IsObject datas p b →
    a.compare b = ordering Val.less a b) ?_ ?_ ?_ ?_ h
  · intro n hn a b ha hb
    rcases @scalar_objects datas n hn with ⟨f, hf, hobjects⟩ | hobjects
    · obtain ⟨x, -, rfl⟩ := hobjects a ha
      obtain ⟨y, -, rfl⟩ := hobjects b hb
      simpa only [Val.compare, ordering, Val.less] using Fixed.compare_ordering hf x y
    · obtain ⟨xs, rfl⟩ := hobjects a ha
      obtain ⟨ys, rfl⟩ := hobjects b hb
      simpa only [Val.compare, ordering, Val.less] using compareBytes_ordering xs ys
  · intro e ihe a b ha hb
    obtain _ | _ | hxs := ha
    obtain _ | _ | hys := hb
    simpa only [Val.compare, ordering, Val.less, Val.elemsLess_eq] using
      compareList_ordering ihe hxs hys
  · intro k v ihk ihv a b ha hb
    obtain _ | _ | _ | ⟨hk, hv⟩ := ha
    obtain _ | _ | _ | ⟨hk', hv'⟩ := hb
    simpa only [Val.compare, ordering, Val.less, Val.pairsLess_eq] using
      comparePairs_ordering ihk ihv (fun p hp => ⟨hk p hp, hv p hp⟩) fun q hq => ⟨hk' q hq, hv' q hq⟩
  · intro n d hn hd ih a b ha hb
    obtain ⟨xs, hxs, rfl⟩ := ha.of_name hn hd
    obtain ⟨ys, hys, rfl⟩ := hb.of_name hn hd
    simpa only [Val.compare, ordering, Val.less, Val.compareMethod_eq] using
      compareList_fields ih hxs hys

/-- **The comparison of keys is a strict total order.** `CheckKeyComparators` ends on every set of
definitions. Where it accepts, the order is one on the objects of each map key, of each member of a
`key`, and of the class of each `key`. -/
theorem keys_ordered :
    (∀ datas, Ends (checkKeyComparators datas)) ∧
    ∀ datas fuel oks, checkKeyComparators datas fuel = some (some oks) →
      ∀ d ∈ datas, d.isRpcData = true →
        (∀ m ∈ d.members, ∀ key ∈ iterMapKeys (parseType m.type),
          KeyOrdered (IsObject datas key)) ∧
        (d.isKey = true → KeyOrdered (IsClassObject datas d) ∧
          ∀ m ∈ d.members, KeyOrdered (IsObject datas (parseType m.type))) := by
  refine ⟨fun datas => checkKeyComparators_ends, ?_⟩
  intro datas fuel oks h d hd hdata
  obtain ⟨hkeys, hmembers⟩ := checkFrom_accepted h hd hdata
  refine ⟨fun m hm key hkey => ?_, fun hisKey => ?_⟩
  · have hkeys := allOf_iff.1 (allOf_iff.1 hkeys m hm) key hkey
    exact .of_strict (less_ordered hkeys)
  · rw [membersOrdered, if_pos hisKey] at hmembers
    have hordered : ∀ m ∈ d.members, StrictTotalOn (IsObject datas (parseType m.type)) Val.less :=
      fun m hm => less_ordered (allOf_iff.1 hmembers m hm)
    exact ⟨.of_strict (class_ordered hordered), fun m hm => .of_strict (hordered m hm)⟩

/-- A key with a number and a name, and a class that has a map from such keys. -/
def townDatas : List SerializeData :=
  [⟨"Town".toList, true, true, [⟨"iId".toList, "int32_t".toList⟩, ⟨"sName".toList,
    "std::string".toList⟩]⟩, ⟨"Country".toList, true, false,
    [⟨"mTowns".toList, "std::map< Town, std::vector<double> >".toList⟩]⟩]

theorem keys_ordered_towns :
    KeyOrdered (IsObject townDatas (.name "Town".toList)) ∧
      KeyOrdered (IsClassObject townDatas townDatas[0]) := by
  have haccepted : checkKeyComparators townDatas 3 = some (some [false, false]) := by
    decide +kernel
  have hordered := keys_ordered.2 townDatas 3 _ haccepted
  exact ⟨(hordered townDatas[1] (by simp [townDatas]) rfl).1 _ List.mem_cons_self _
      (by decide +kernel),
    ((hordered townDatas[0] (by simp [townDatas]) rfl).2 rfl).1⟩

end KeyComparators

end OpenIdea.Codec
