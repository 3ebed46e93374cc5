import OpenIdea.Codec.Json

/-!
# `ToJson` and `FromJson`

An object that goes through `Json::Value` comes back, whatever the target held before, and a value
that `FromJson` refuses leaves the target alone. The integer keys of a map come back in the order
of their texts; the map sorts them again (`fromJsonMap_round_trip`).
-/

set_option autoImplicit false

namespace OpenIdea.Codec.Json

open OpenIdea.Lib

variable {S : Schema} {fl : FloatOps}

/-! ## The overloads for the parts -/

theorem elemReaders_eq (js : List Value) : elemReaders S fl js = js.map (fromJsonValue S fl) := by
  induction js with
  | nil => rfl
  | cons j js ih => rw [elemReaders, ih, List.map_cons, fromJsonValue]

theorem memberReaders_eq (ms : List (List UInt8 × Value)) :
    memberReaders S fl ms = ms.map fun m => (m.1, fromJsonValue S fl m.2) := by
  induction ms with
  | nil => rfl
  | cons m ms ih =>
    obtain ⟨name, j⟩ := m
    rw [memberReaders, ih, List.map_cons, memberReader, fromJsonValue]

theorem toJsonElems_eq (t : Ty) (xs : List Val) :
    toJsonElems S fl t xs = xs.map (toJsonValue S fl t) := by
  induction xs with
  | nil => rfl
  | cons x xs ih => rw [toJsonElems, ih, List.map_cons]

theorem toJsonPairs_eq (v : Ty) (ps : List (Val × Val)) :
    toJsonPairs S fl v ps = ps.map fun p => (keyText p.1, toJsonValue S fl v p.2) := by
  induction ps with
  | nil => rfl
  | cons p ps ih =>
    obtain ⟨key, val⟩ := p
    rw [toJsonPairs, ih, List.map_cons, toJsonPair]

theorem toJsonMembers_eq (ms : List Member) (xs : List Val) :
    toJsonMembers S fl ms xs =
      (ms.zip xs).map fun p => (jsonKey p.1, toJsonValue S fl p.1.ty p.2) := by
  induction ms generalizing xs with
  | nil => cases xs <;> rfl
  | cons m ms ih =>
    cases xs with
    | nil => rfl
    | cons x xs => rw [toJsonMembers, ih, List.zip_cons_cons, List.map_cons]

/-! ## A refusal leaves the target alone -/

variable {old : Val} {t v : Ty} {f : Fixed} {ps : List (Val × Val)}

theorem fromJsonMap_atomic {K : Type} [LinearOrder K] {parseKey : List UInt8 → Option K}
    {toKey : K → Val} {node : Node} (h : (fromJsonMap S parseKey toKey v node old).1 = false) :
    (fromJsonMap S parseKey toKey v node old).2 = old := by
  cases node with
  | obj members =>
    rw [fromJsonMap] at h ⊢
    split at h
    · cases h
    · rfl
  | _ => rfl

theorem fromJsonIntegral_atomic {node : Node} (h : (fromJsonIntegral f node old).1 = false) :
    (fromJsonIntegral f node old).2 = old := by
  cases node with
  | int i | uint n =>
    rw [fromJsonIntegral] at h ⊢
    split at h
    · rename_i hrange
      rw [if_pos hrange]
    · cases h
  | _ => rfl

theorem fromJsonFloat_atomic {node : Node} (h : (fromJsonFloat fl f node old).1 = false) :
    (fromJsonFloat fl f node old).2 = old := by
  rw [fromJsonFloat] at h ⊢
  split at h
  · rfl
  · cases h

/-- **A `FromJsonValue` that returns false has not touched its target.** -/
theorem fromJsonNode_atomic {node : Node} (h : (fromJsonNode S fl node t old).1 = false) :
    (fromJsonNode S fl node t old).2 = old := by
  cases t with
  | fixed f =>
    cases f with
    | bool =>
      cases node with
      | bool b => cases h
      | _ => rfl
    -- every other scalar is an integer of some width
    | float => exact fromJsonFloat_atomic h
    | double => exact fromJsonFloat_atomic h
    | _ => exact fromJsonIntegral_atomic h
  | string | bytes =>
    cases node with
    | str s => cases h
    | _ => rfl
  | vector t =>
    cases node with
    | arr elems =>
      simp only [fromJsonNode, fromJsonVector] at h ⊢
      split at h
      · cases h
      · rfl
    | _ => rfl
  | map k v =>
    cases k with
    | string => exact fromJsonMap_atomic h
    | fixed f =>
      cases f with
      | int32 => exact fromJsonMap_atomic h
      | uint32 => exact fromJsonMap_atomic h
      | uint64 => exact fromJsonMap_atomic h
      | _ => rfl
    | _ => rfl
  | data n =>
    cases node with
    | obj members =>
      simp only [fromJsonNode, fromJsonData] at h ⊢
      split at h
      · cases h
      · rfl
    | _ => rfl

/-! ## The types that come back -/

/-- Types with no floating number, whose maps have keys of the four kinds, and whose classes give
every member a name of its own. -/
inductive Exact (S : Schema) : Ty → Prop where
  | fixed {f : Fixed} (h : f.floating = false) : Exact S (.fixed f)
  | string : Exact S .string
  | bytes : Exact S .bytes
  | vector {t : Ty} (h : Exact S t) : Exact S (.vector t)
  | map {k v : Ty} (hkey : jsonMapKey k = true) (h : Exact S v) : Exact S (.map k v)
  | data {n : String} (hnames : ((S.members n).map jsonKey).Nodup)
      (h : ∀ m ∈ S.members n, Exact S m.ty) : Exact S (.data n)

theorem exact_of_typeJsonOkWith {dataOk : String → Bool}
    (hdata : ∀ n, dataOk n = true → Exact S (.data n))
    (h : typeJsonOkWith (fun f => !f.floating) dataOk t = true) : Exact S t := by
  induction t with
  | fixed f => exact .fixed (by simpa [typeJsonOkWith] using h)
  | string => exact .string
  | bytes => exact .bytes
  | vector t ih => exact .vector (ih h)
  | map k v _ ih =>
    rw [typeJsonOkWith, Bool.and_eq_true] at h
    exact .map h.1 (ih h.2)
  | data n => exact hdata n h

theorem exact_of_dataJsonOk (hnames : ∀ n, ((S.members n).map jsonKey).Nodup) {depth : Nat} :
    ∀ {stack : List String} {n : String},
      dataJsonOk S.datas (fun f => !f.floating) depth stack n = true → Exact S (.data n) := by
  induction depth with
  | zero =>
    intro stack n h
    cases h
  | succ depth ih =>
    intro stack n h
    rw [dataJsonOk] at h
    cases hfind : S.datas.find? (fun d => d.name = n) with
    | none =>
      rw [hfind] at h
      cases h
    | some d =>
      rw [hfind] at h
      simp only [Bool.and_eq_true, List.all_eq_true] at h
      have hmembers : S.members n = d.members := by simp only [Schema.members, hfind]
      refine .data (hnames n) fun m hm => ?_
      rw [hmembers] at hm
      exact exact_of_typeJsonOkWith (fun n' hn' => ih hn') (h.2 m hm)

/-! ## Numbers and keys -/

theorem parseJsonIntegerKey_text {bits : Nat} (hfloat : f.floating = false) (hbool : f ≠ .bool)
    (h : f.valid bits = true) :
    parseJsonIntegerKey f (Decimal.signedText (f.toInt bits)) = some (f.toInt bits) := by
  obtain ⟨hmin, hmax⟩ := Fixed.toInt_range hfloat hbool h
  have hparsed : (if f.signed then Decimal.parseSigned (Decimal.signedText (f.toInt bits))
      else (Decimal.parse (Decimal.signedText (f.toInt bits))).map Int.ofNat) =
      some (f.toInt bits) := by
    split
    · exact Decimal.parseSigned_signedText _
    · rename_i hsigned
      -- an unsigned number has no sign in its text
      have hbits : f.toInt bits = (bits : Int) := by simp [Fixed.toInt, hsigned]
      rw [hbits, Decimal.signedText, if_neg (by omega), Int.natAbs_natCast, Decimal.parse_text]
      rfl
  simp only [parseJsonIntegerKey, hparsed]
  rw [if_neg (by omega)]

theorem scalar_round_trip {bits : Nat} (hfloat : f.floating = false) (h : f.valid bits = true)
    (y : Val) :
    fromJsonValue S fl (scalarToJson fl f bits) (.fixed f) y = (true, .fixed f bits) := by
  have hint : ∀ node : Node, f ≠ .bool →
      node = (if f.signed then Node.int (f.toInt bits) else Node.uint bits) →
      fromJsonIntegral f node y = (true, .fixed f bits) := by
    intro node hbool hnode
    obtain ⟨hmin, hmax⟩ := Fixed.toInt_range hfloat hbool h
    have hback := Fixed.ofInt_toInt hfloat hbool h
    by_cases hsigned : f.signed = true
    · rw [hnode, if_pos hsigned, fromJsonIntegral, if_neg (by omega), hback]
    · have hbits : f.toInt bits = (bits : Int) := by simp [Fixed.toInt, hsigned]
      rw [hbits] at hmax hback
      rw [hnode, if_neg hsigned, fromJsonIntegral, if_neg (by omega), hback]
  cases f with
  | float => cases hfloat
  | double => cases hfloat
  | bool =>
    have hone : bits = 0 ∨ bits = 1 := by
      have hle : bits ≤ 1 := by simpa [Fixed.valid] using h
      omega
    rcases hone with rfl | rfl <;> rfl
  | _ => exact hint _ (by decide) rfl

/-- `std::string`'s order is the one of the names. -/
theorem lt_of_compareBytes {a b : List UInt8} (h : compareBytes a b = .lt) :
    a.map UInt8.toNat < b.map UInt8.toNat := by
  induction a generalizing b with
  | nil =>
    cases b with
    | nil => cases h
    | cons y ys => exact List.nil_lt_cons _ _
  | cons x xs ih =>
    cases b with
    | nil => cases h
    | cons y ys =>
      rw [compareBytes] at h
      rw [List.map_cons, List.map_cons, List.cons_lt_cons_iff]
      cases hhead : Ord.compare x.toNat y.toNat with
      | lt => exact Or.inl (compare_lt_iff_lt.1 hhead)
      | gt =>
        rw [hhead] at h
        cases h
      | eq =>
        rw [hhead] at h
        exact Or.inr ⟨compare_eq_iff_eq.1 hhead, ih h⟩

/-! ## Maps -/

theorem decodePairs_eq {K : Type} [LinearOrder K] {parseKey : List UInt8 → Option K}
    {readers : List (List UInt8 × Reader)} {ps : List (K × Val)}
    (h : List.Forall₂ (fun e p => parseKey e.1 = some p.1 ∧ e.2 v (S.fresh v) = (true, p.2))
      readers ps) :
    ∀ decoded, decodePairs S parseKey v readers decoded =
      some (ps.foldl (fun m p => OrdMap.put m p.1 p.2) decoded) := by
  induction h with
  | nil => exact fun _ => rfl
  | @cons e p readers ps hep hrest ih =>
    intro decoded
    obtain ⟨name, read⟩ := e
    obtain ⟨hkey, hread⟩ := hep
    dsimp only at hkey hread
    simp only [decodePairs, hkey, hread]
    exact ih _

/-- **A map comes back**, in whatever order its keys stand in the object. -/
theorem fromJsonMap_round_trip {K : Type} [LinearOrder K] {parseKey : List UInt8 → Option K}
    {toKey : K → Val} (keyOf : Val → K)
    (hkeys : ∀ p ∈ ps, parseKey (keyText p.1) = some (keyOf p.1) ∧ toKey (keyOf p.1) = p.1)
    (hsorted : ps.Pairwise fun p q => keyOf p.1 < keyOf q.1)
    (hvals : ∀ p ∈ ps, fromJsonValue S fl (toJsonValue S fl v p.2) v (S.fresh v) = (true, p.2))
    (y : Val) :
    fromJsonMap S parseKey toKey v
      (Value.node S fl (.obj (OrdMap.ofList (toJsonPairs S fl v ps)))) y = (true, .map ps) := by
  rw [toJsonPairs_eq]
  let entry : Val × Val → List UInt8 × Value := fun p => (keyText p.1, toJsonValue S fl v p.2)
  let pair : Val × Val → K × Val := fun p => (keyOf p.1, p.2)
  let reader : List UInt8 × Value → List UInt8 × Reader := fun e => (e.1, fromJsonValue S fl e.2)
  have hpairs : OrdMap.Sorted (ps.map pair) := List.pairwise_map.2 hsorted
  -- different keys have different texts
  have hnodup : ((ps.map entry).map Prod.fst).Nodup := by
    rw [List.map_map, List.Nodup, List.pairwise_map]
    refine List.Pairwise.imp_of_mem (fun hp hq hlt hsame => ?_) hsorted
    have hkeyp := (hkeys _ hp).1
    have hkeyq := (hkeys _ hq).1
    rw [show keyText _ = keyText _ from hsame] at hkeyp
    exact absurd (Option.some.inj (hkeyp.symm.trans hkeyq)) (ne_of_lt hlt)
  have hperm : ((OrdMap.ofList (ps.map entry)).map reader).Perm ((ps.map entry).map reader) :=
    (OrdMap.ofList_perm hnodup).map reader
  have hall : List.Forall₂
      (fun e p => parseKey e.1 = some p.1 ∧ e.2 v (S.fresh v) = (true, p.2))
      ((ps.map entry).map reader) (ps.map pair) := by
    rw [List.map_map, List.forall₂_map_left_iff, List.forall₂_map_right_iff, List.forall₂_same]
    exact fun p hp => ⟨(hkeys p hp).1, hvals p hp⟩
  obtain ⟨decoded, hdecoded, hsame⟩ := List.perm_comp_forall₂ hperm hall
  have hmap : OrdMap.ofList decoded = ps.map pair := OrdMap.ofList_of_perm hpairs hsame
  have hback : (ps.map pair).map (fun p => (toKey p.1, p.2)) = ps := by
    rw [List.map_map]
    have hid : ∀ p ∈ ps, ((fun p : K × Val => (toKey p.1, p.2)) ∘ pair) p = p :=
      fun p hp => Prod.ext (hkeys p hp).2 rfl
    rw [List.map_congr_left hid, List.map_id']
  have hdecode := decodePairs_eq (S := S) hdecoded []
  rw [show decoded.foldl (fun m p => OrdMap.put m p.1 p.2) [] = ps.map pair from hmap] at hdecode
  rw [Value.node, memberReaders_eq, fromJsonMap]
  rw [show (OrdMap.ofList (ps.map entry)).map (fun m => (m.1, fromJsonValue S fl m.2)) =
    (OrdMap.ofList (ps.map entry)).map reader from rfl, hdecode]
  dsimp only
  rw [hback]

/-- The keys of a map with integer keys. -/
theorem integer_keys (hfloat : f.floating = false) (hbool : f ≠ .bool)
    (hty : ∀ p ∈ ps, S.hasType (.fixed f) p.1 = true ∧ S.hasType v p.2 = true) :
    ∀ p ∈ ps, parseJsonIntegerKey f (keyText p.1) = some (f.toInt p.1.bits) ∧
      Val.fixed f (f.ofInt (f.toInt p.1.bits)) = p.1 := by
  rintro ⟨key, val⟩ hp
  have hself := Schema.everyNode_self (hty _ hp).1
  cases key with
  | fixed f' bits =>
    simp only [Schema.layout, Bool.and_eq_true, decide_eq_true_eq] at hself
    obtain ⟨rfl, hbits⟩ := hself
    refine ⟨parseJsonIntegerKey_text hfloat hbool hbits, ?_⟩
    rw [Val.bits, Fixed.ofInt_toInt hfloat hbool hbits]
  | _ => cases hself

/-- The order of integer keys is the one of their values. -/
theorem integer_keys_sorted (hnumber : ∀ bits, f.number bits = some (f.toInt bits))
    (hty : ∀ p ∈ ps, S.hasType (.fixed f) p.1 = true ∧ S.hasType v p.2 = true)
    (hsorted : ps.Pairwise fun p q => p.1.compare q.1 = .lt) :
    ps.Pairwise fun p q => f.toInt p.1.bits < f.toInt q.1.bits := by
  refine List.Pairwise.imp_of_mem ?_ hsorted
  rintro ⟨key, val⟩ ⟨key', val'⟩ hp hq hlt
  have hself := Schema.everyNode_self (hty _ hp).1
  have hself' := Schema.everyNode_self (hty _ hq).1
  cases key with
  | fixed f₁ bits =>
    cases key' with
    | fixed f₂ bits' =>
      simp only [Schema.layout, Bool.and_eq_true, decide_eq_true_eq] at hself hself'
      obtain ⟨rfl, -⟩ := hself
      obtain ⟨rfl, -⟩ := hself'
      simp only [Val.compare, Fixed.compare, hnumber] at hlt
      exact compare_lt_iff_lt.1 hlt
    | _ => cases hself'
  | _ => cases hself

theorem integerMap_round_trip (hfloat : f.floating = false) (hbool : f ≠ .bool)
    (hnumber : ∀ bits, f.number bits = some (f.toInt bits))
    (hty : ∀ p ∈ ps, S.hasType (.fixed f) p.1 = true ∧ S.hasType v p.2 = true)
    (hsorted : ps.Pairwise fun p q => p.1.compare q.1 = .lt)
    (hvals : ∀ p ∈ ps, fromJsonValue S fl (toJsonValue S fl v p.2) v (S.fresh v) = (true, p.2))
    (y : Val) :
    fromJsonIntegerMap S f v
      (Value.node S fl (.obj (OrdMap.ofList (toJsonPairs S fl v ps)))) y = (true, .map ps) := by
  refine fromJsonMap_round_trip (fun key => f.toInt key.bits) ?_ ?_ hvals y
  · exact integer_keys hfloat hbool hty
  · exact integer_keys_sorted hnumber hty hsorted

theorem map_round_trip {k : Ty} (hkey : jsonMapKey k = true)
    (hty : ∀ p ∈ ps, S.hasType k p.1 = true ∧ S.hasType v p.2 = true)
    (hsorted : ps.Pairwise fun p q => p.1.compare q.1 = .lt)
    (hvals : ∀ p ∈ ps, fromJsonValue S fl (toJsonValue S fl v p.2) v (S.fresh v) = (true, p.2))
    (y : Val) :
    fromJsonValue S fl (toJsonValue S fl (.map k v) (.map ps)) (.map k v) y = (true, .map ps) := by
  rw [toJsonValue, fromJsonValue]
  cases k with
  | string =>
    -- the text of a key is the key
    have hstr : ∀ p ∈ ps, ∃ s, p.1 = .str s := by
      rintro ⟨key, val⟩ hp
      have hself := Schema.everyNode_self (hty _ hp).1
      cases key with
      | str s => exact ⟨s, rfl⟩
      | _ => cases hself
    refine fromJsonMap_round_trip keyText ?_ ?_ hvals y
    · intro p hp
      obtain ⟨s, hs⟩ := hstr p hp
      exact ⟨rfl, by rw [hs]; rfl⟩
    · refine List.Pairwise.imp_of_mem ?_ hsorted
      intro p q hp hq hlt
      obtain ⟨s, hs⟩ := hstr p hp
      obtain ⟨s', hs'⟩ := hstr q hq
      rw [hs, hs'] at hlt ⊢
      rw [Val.compare] at hlt
      exact lt_of_compareBytes hlt
  | fixed f =>
    cases f with
    | int32 =>
      have hnumber : ∀ bits, Fixed.int32.number bits = some (Fixed.int32.toInt bits) := by
        intro bits
        simp only [Fixed.number, Fixed.toInt, Fixed.signed, Fixed.size, Bool.true_and]
        norm_num
        split <;> split <;> omega
      exact integerMap_round_trip rfl (by decide) hnumber hty hsorted hvals y
    | uint32 => exact integerMap_round_trip rfl (by decide) (fun _ => rfl) hty hsorted hvals y
    | uint64 => exact integerMap_round_trip rfl (by decide) (fun _ => rfl) hty hsorted hvals y
    | _ => cases hkey
  | _ => cases hkey

/-! ## Classes -/

theorem decodeMembers_eq {members : List (List UInt8 × Reader)} {ms : List Member} :
    ∀ {xs ys : List Val}, xs.length = ms.length →
      (∀ p ∈ ms.zip xs, ∃ read, OrdMap.find members (jsonKey p.1) = some read ∧
        ∀ y, S.hasType p.1.ty y = true → read p.1.ty y = (true, p.2)) →
      S.HasTypes ms ys → decodeMembers members ms ys = some xs := by
  induction ms with
  | nil =>
    intro xs ys hlen _ hys
    obtain rfl := List.length_eq_zero_iff.1 hlen
    obtain rfl := List.length_eq_zero_iff.1 hys.1
    rfl
  | cons m ms ih =>
    intro xs ys hlen hread hys
    cases xs with
    | nil => cases hlen
    | cons x xs =>
      cases ys with
      | nil => cases hys.1
      | cons y ys =>
        rw [Schema.hasTypes_cons] at hys
        rw [List.zip_cons_cons, List.forall_mem_cons] at hread
        obtain ⟨⟨read, hfind, hx⟩, hrest⟩ := hread
        dsimp only at hfind hx
        simp only [decodeMembers, hfind, hx y hys.1, ih (Nat.succ.inj hlen) hrest hys.2,
          Option.map_some]

/-- What the induction says of one object. -/
def RoundTrips (S : Schema) (fl : FloatOps) (t : Ty) (x : Val) : Prop :=
  ∀ y, S.hasType t y = true → fromJsonValue S fl (toJsonValue S fl t x) t y = (true, x)

theorem data_round_trip {n : String} {fs : List Val} (hlen : fs.length = (S.members n).length)
    (hnames : ((S.members n).map jsonKey).Nodup)
    (ih : ∀ p ∈ (S.members n).zip fs, RoundTrips S fl p.1.ty p.2) :
    RoundTrips S fl (.data n) (.data fs) := by
  intro y hy
  rw [toJsonValue, toJsonMembers_eq, fromJsonValue]
  -- the object that `ToJsonValue` writes, in the order of the members
  let entries := ((S.members n).zip fs).map fun p => (jsonKey p.1, toJsonValue S fl p.1.ty p.2)
  have hnodup : (entries.map Prod.fst).Nodup := by
    have hkeys : entries.map Prod.fst = (S.members n).map jsonKey := by
      rw [List.map_map]
      show ((S.members n).zip fs).map (jsonKey ∘ Prod.fst) = (S.members n).map jsonKey
      rw [← List.map_map, List.map_fst_zip (Nat.le_of_eq hlen.symm)]
    rw [hkeys]
    exact hnames
  cases y with
  | data ys =>
    have hys : S.HasTypes (S.members n) ys := Schema.hasType_data.1 hy
    have hdecode : decodeMembers (memberReaders S fl (OrdMap.ofList entries)) (S.members n) ys =
        some fs := by
      -- each member finds its own entry, since no other has its key
      refine decodeMembers_eq hlen (fun p hp => ?_) hys
      have hmem : (jsonKey p.1, toJsonValue S fl p.1.ty p.2) ∈ entries :=
        List.mem_map_of_mem (f := fun p : Member × Val =>
          (jsonKey p.1, toJsonValue S fl p.1.ty p.2)) hp
      refine ⟨fromJsonValue S fl (toJsonValue S fl p.1.ty p.2), ?_, ih p hp⟩
      rw [memberReaders_eq, OrdMap.find_map, OrdMap.find_ofList hnodup hmem, Option.map_some]
    simp only [Value.node, fromJsonNode, fromJsonData, Val.fields]
    rw [show OrdMap.ofList (((S.members n).zip fs).map fun p =>
      (jsonKey p.1, toJsonValue S fl p.1.ty p.2)) = OrdMap.ofList entries from rfl, hdecode]
  | _ => cases Schema.everyNode_self hy

theorem decodeElems_eq {xs : List Val} (h : ∀ x ∈ xs, RoundTrips S fl t x) :
    decodeElems S t ((xs.map (toJsonValue S fl t)).map (fromJsonValue S fl)) = some xs := by
  induction xs with
  | nil => rfl
  | cons x xs ih =>
    obtain ⟨hx, hxs⟩ := List.forall_mem_cons.1 h
    have hone := hx (S.fresh t) (Schema.hasType_fresh t)
    simp only [List.map_cons, decodeElems, hone, ih hxs, Option.map_some]

/-- **Every object of a type that comes back comes back**, whatever the target held. -/
theorem exact_round_trip {x : Val} (hx : S.hasType t x = true) (ht : Exact S t)
    (hsorted : S.everyNode Schema.keysSorted t x = true) : RoundTrips S fl t x := by
  -- by the structure of the object; what holds of the type and its keys goes down with it
  revert ht hsorted
  refine Schema.typed_induction ?_ ?_ ?_ ?_ ?_ ?_ hx
  · intro f b hb ht _ y _
    cases ht with
    | fixed hfloat =>
      rw [toJsonValue]
      exact scalar_round_trip hfloat hb y
  · intro b _ _ y _
    rfl
  · intro b _ _ y _
    rfl
  · intro t xs _ ih ht hsorted y _
    have hparts := (Schema.everyNode_vector.1 hsorted).2
    cases ht with
    | vector ht =>
      have hdecode : decodeElems S t (elemReaders S fl (toJsonElems S fl t xs)) = some xs := by
        rw [elemReaders_eq, toJsonElems_eq]
        exact decodeElems_eq fun x hx => ih x hx ht (hparts x hx)
      simp only [toJsonValue, fromJsonValue, Value.node, fromJsonNode, fromJsonVector, hdecode]
  · intro k v ps hty ih ht hsorted y _
    obtain ⟨hself, hparts⟩ := Schema.everyNode_map.1 hsorted
    cases ht with
    | map hkey ht =>
      refine map_round_trip hkey hty (by simpa [Schema.keysSorted] using hself) ?_ y
      exact fun p hp => (ih p hp).2 ht (hparts p hp).2 _ (Schema.hasType_fresh v)
  · intro n fs hlen _ ih ht hsorted
    have hparts := (Schema.everyNode_data.1 hsorted).2
    cases ht with
    | data hnames ht =>
      refine data_round_trip hlen hnames fun p hp => ?_
      exact ih p hp (ht p.1 (List.of_mem_zip hp).1) (hparts p hp)

/-! ## Every class that gets the methods

`Built` is the schemas whose headers the generator writes and the C++ compiler takes, but for the
bodies of `FromJson` and `ToJson`. -/

/-- **JSON works for a schema**: its classes are built, with their JSON methods, every object of a
class that gets the methods comes back into any target, and a value that is refused leaves the
target as it was. -/
def Faithful (Built : Schema → Prop) (S : Schema) (fl : FloatOps) : Prop :=
  Built S ∧ MethodsCompile S ∧ ∀ d ∈ S.datas, jsonOkExact S.datas d = true →
    (∀ x y, S.hasType (.data d.name) x = true →
      S.everyNode Schema.keysSorted (.data d.name) x = true →
      S.hasType (.data d.name) y = true →
      fromJsonValue S fl (toJsonValue S fl (.data d.name) x) (.data d.name) y = (true, x)) ∧
    ∀ j y, (fromJsonValue S fl j (.data d.name) y).1 = false →
      (fromJsonValue S fl j (.data d.name) y).2 = y

theorem jsonKey_injective {m m' : Member} (h : jsonKey m = jsonKey m') :
    m.jsonName = m'.jsonName := by
  have hdata : m.jsonName.toUTF8 = m'.jsonName.toUTF8 := ByteArray.ext (Array.toList_inj.1 h)
  rw [String.toUTF8_eq_toByteArray, String.toUTF8_eq_toByteArray] at hdata
  exact String.toByteArray_inj.1 hdata

/-- What the checks of the generator say of one class. -/
theorem accepted_names (h : accepted S.datas = true) (n : String) :
    ((S.members n).map jsonKey).Nodup := by
  rcases S.members_cases n with hnil | ⟨d, hd, -, hmembers⟩
  · rw [hnil]
    exact List.nodup_nil
  · simp only [accepted, Bool.and_eq_true, List.all_eq_true] at h
    have hseq := h.1.2 d hd
    simp only [assignFieldSeq, Bool.and_eq_true, decide_eq_true_eq] at hseq
    have hjson : (d.members.map Member.jsonName).Nodup := hseq.1.2
    rw [hmembers, List.Nodup, List.pairwise_map]
    rw [List.Nodup, List.pairwise_map] at hjson
    exact hjson.imp fun hne hsame => hne (jsonKey_injective hsame)

theorem exact_of_jsonOk (h : accepted S.datas = true) {d : RpcData} (hd : d ∈ S.datas)
    (hok : jsonOkExact S.datas d = true) : Exact S (.data d.name) := by
  refine .data (accepted_names h d.name) fun m hm => ?_
  have hmembers : m ∈ d.members := by
    rcases S.members_cases d.name with hnil | ⟨d', hd', hname, hsame⟩
    · rw [hnil] at hm
      cases hm
    · have hnodup : (S.datas.map RpcData.name).Nodup := by
        simp only [accepted, Bool.and_eq_true, decide_eq_true_eq] at h
        exact h.1.1
      rw [hsame, List.inj_on_of_nodup_map hnodup hd' hd hname] at hm
      exact hm
  simp only [jsonOkExact, jsonOkOf, Bool.and_eq_true, List.all_eq_true] at hok
  exact exact_of_typeJsonOkWith (fun n hn => exact_of_dataJsonOk (accepted_names h) hn)
    (hok.2 m hmembers)

/-- **JSON works for an accepted schema exactly when the methods compile**: a vector of maps, or a
map of maps, finds the overload for the inner map only where that stands before it, or where the
inner map has an rpcdata class in its type. -/
theorem json_faithful_iff {Built : Schema → Prop} {fl : FloatOps} (h : accepted S.datas = true)
    (hbuilt : Built S) : Faithful Built S fl ↔ MethodsCompile S := by
  constructor
  · exact fun hfaithful => hfaithful.2.1
  · refine fun hcompiles => ⟨hbuilt, hcompiles, fun d hd hok => ⟨?_, ?_⟩⟩
    · intro x y hx hsorted hy
      exact exact_round_trip hx (exact_of_jsonOk h hd hok) hsorted y hy
    · exact fun j y hrefused => fromJsonNode_atomic hrefused

/-- `rpcdata Item { 0 int32_t iId; }` and `rpcdata Shop { 0 map<int32_t, vector<Item>> mItems; 1
map<int32_t, map<string, Bytes>> mTexts; }`. -/
def shopSchema : Schema where
  datas := [⟨"Item", false, [⟨"iId", "id", .fixed .int32, 0⟩]⟩,
    ⟨"Shop", false, [⟨"mItems", "items", .map (.fixed .int32) (.vector (.data "Item")), 0⟩,
      ⟨"mTexts", "texts", .map (.fixed .int32) (.map .string .bytes), 1⟩]⟩]
  rank := fun _ => 0
  rank_lt := by simp

theorem shopCompiles : shopSchema.BodiesCompile ∧ MethodsCompile shopSchema := by
  have hall : ∀ d ∈ shopSchema.datas, ∀ m ∈ d.members,
      m.seq < 2 ^ 32 ∧ (clearWritten m = true → m.ty.hasClear = true) ∧
        overloadsCompile m.ty = true := by
    intro d hd m hm
    simp only [shopSchema, List.mem_cons, List.not_mem_nil, or_false] at hd
    rcases hd with rfl | rfl
    · obtain rfl : m = _ := List.mem_singleton.1 hm
      exact ⟨by decide, by decide +kernel, rfl⟩
    · simp only [List.mem_cons, List.not_mem_nil, or_false] at hm
      rcases hm with rfl | rfl
      · exact ⟨by decide, fun _ => rfl, rfl⟩
      · exact ⟨by decide, fun _ => rfl, rfl⟩
  exact ⟨fun d hd m hm => ⟨(hall d hd m hm).1, (hall d hd m hm).2.1⟩,
    fun d hd _ m hm => (hall d hd m hm).2.2⟩

/-- For schemas with no floating fields. -/
def noFloats : FloatOps := ⟨id, id, Int.toNat⟩

theorem json_faithful_shop :
    accepted shopSchema.datas = true ∧ Faithful Schema.BodiesCompile shopSchema noFloats :=
  have haccepted : accepted shopSchema.datas = true := by decide +kernel
  ⟨haccepted, (json_faithful_iff haccepted shopCompiles.1).2 shopCompiles.2⟩

/-- `rpcdata Table { 0 vector<map<string, int32_t>> vRows; }`. -/
def tableSchema : Schema where
  datas := [⟨"Table", false, [⟨"vRows", "vRows", .vector (.map .string (.fixed .int32)), 0⟩]⟩]
  rank := fun _ => 0
  rank_lt := by simp

/-- The table gets the methods, and they do not compile, whatever else is built. -/
theorem table_uncompiled :
    accepted tableSchema.datas = true ∧ tableSchema.BodiesCompile ∧
      (∀ d ∈ tableSchema.datas, jsonOkExact tableSchema.datas d = true) ∧
      ∀ Built fl, ¬ Faithful Built tableSchema fl := by
  refine ⟨by decide +kernel, ?_, by decide +kernel, ?_⟩
  · intro d hd m hm
    obtain rfl : d = _ := List.mem_singleton.1 hd
    obtain rfl : m = _ := List.mem_singleton.1 hm
    exact ⟨by decide, fun _ => rfl⟩
  · intro Built fl hfaithful
    have hcompiles := hfaithful.2.1 _ (List.mem_singleton_self _) (by decide +kernel) _
      (List.mem_singleton_self _)
    cases hcompiles

end OpenIdea.Codec.Json
