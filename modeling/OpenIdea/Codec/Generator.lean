import Mathlib.Data.List.Infix
import OpenIdea.Codec.RoundTrip
import Mathlib.Data.List.Nodup

/-!
# What the generator accepts

The checks a schema passes before code is written for it, what the compiler then asks of that code,
and which objects the accepted schemas can carry.  The generator admits vectors anywhere and any
number, while the runtime writes a vector as repeated records under one number: an empty inner
vector leaves no trace, and a longer one comes back as several.  An object of an accepted schema
comes back exactly where no inner vector is in the way (`accepted_round_trips_iff`), and an empty
row is lost (`empty_row_lost`).
-/

set_option autoImplicit false

namespace OpenIdea.Codec

open OpenIdea.Lib

/-! ## Checks on the parsed file -/

def Fixed.text : Fixed → String
  | .bool => "bool"
  | .int8 => "int8_t"
  | .uint8 => "uint8_t"
  | .int16 => "int16_t"
  | .uint16 => "uint16_t"
  | .int32 => "int32_t"
  | .uint32 => "uint32_t"
  | .int64 => "int64_t"
  | .uint64 => "uint64_t"
  | .float => "float"
  | .double => "double"

namespace Ty

/-- The text of a type, as `ParseType` of the text parser writes it. -/
def text : Ty → String
  | .fixed f => f.text
  | .string => "std::string"
  | .bytes => "Bytes"
  | .vector t => "std::vector<" ++ t.text ++ ">"
  | .map k v => "std::map<" ++ k.text ++ ", " ++ v.text ++ ">"
  | .data n => n

/-- `FieldPrefix`. -/
def fieldPrefix : Ty → String
  | .fixed .bool => "b"
  | .fixed .float => "f"
  | .fixed .double => "d"
  | .fixed _ => "i"
  | .string => "s"
  | .vector _ => "v"
  | .map _ _ => "m"
  | .bytes => "st"
  | .data n => if n ∈ ["int", "size_t", "unsignedint"] then "i" else "st"

/-- `IterMapKeys`. -/
def iterMapKeys : Ty → List Ty
  | .map k v => k :: (k.iterMapKeys ++ v.iterMapKeys)
  | .vector t => t.iterMapKeys
  | _ => []

end Ty

/-- `ValidFieldName`: the prefix of the type, a capital letter, then letters and digits. -/
def validFieldName (t : Ty) (name : String) : Bool :=
  let pre := t.fieldPrefix.toList
  name.toList.take pre.length = pre &&
    match name.toList.drop pre.length with
    | c :: cs => c.isUpper && cs.all Char.isAlphanum
    | [] => false

/-- `AssignFieldSeq`, with the check of `ParseRpcData` that no name comes twice. -/
def assignFieldSeq (d : RpcData) : Bool :=
  (d.members.map Member.name).Nodup && d.members.all (fun m => validFieldName m.ty m.name) &&
    (d.members.map Member.jsonName).Nodup && (d.members.map Member.seq).Nodup

section Ordered

variable (datas : List RpcData)

/-- `TypeOrdered`, given what it says of an rpcdata type. -/
def typeOrderedWith (dataOrdered : String → Bool) : Ty → Bool
  | .fixed _ => true
  | .string => true
  | .bytes => false
  | .vector t => typeOrderedWith dataOrdered t
  | .map k v => typeOrderedWith dataOrdered k && typeOrderedWith dataOrdered v
  | .data n => dataOrdered n

/-- `TypeOrdered` of an rpcdata type: it is marked `key`, it is not being looked at already, and all
its members are ordered.  The stack holds distinct names, so `datas.length` bounds the depth. -/
def dataOrdered : Nat → List String → String → Bool
  | 0, _, _ => false
  | depth + 1, stack, n =>
      match datas.find? (fun d => d.name = n) with
      | none => false
      | some d =>
          d.isKey && !(n ∈ stack) &&
            d.members.all fun m => typeOrderedWith (dataOrdered depth (n :: stack)) m.ty

/-- `TypeOrdered(parsed, stack)`. -/
def typeOrdered (stack : List String) (t : Ty) : Bool :=
  typeOrderedWith (dataOrdered datas (datas.length + 1) stack) t

/-- `CheckKeyComparators`. -/
def checkKeyComparators : Bool :=
  datas.all fun d =>
    !(d.isKey && d.members.isEmpty) &&
      d.members.all (fun m => m.ty.iterMapKeys.all (typeOrdered datas [])) &&
      (!d.isKey || d.members.all fun m => typeOrdered datas [d.name] m.ty)

/-- The checks of `Gen`: no two classes with one name, `AssignFieldSeq` and `CheckKeyComparators`.
-/
def accepted : Bool :=
  (datas.map RpcData.name).Nodup && datas.all assignFieldSeq && checkKeyComparators datas

end Ordered

/-! ## What the compiler asks -/

/-- `"vector" in m.type or "map" in m.type`: `deserialize` starts with `m.clear();`. -/
def clearWritten (m : Member) : Bool :=
  "vector".toList <:+: m.ty.text.toList || "map".toList <:+: m.ty.text.toList

/-- Has the type a `clear()`?  An rpcdata class has none. -/
def Ty.hasClear : Ty → Bool
  | .vector _ | .map _ _ | .string => true
  | _ => false

/-- What the compiler asks of the bodies of `serialize` and `deserialize`: every `case` label is a
`uint32_t`, and `clear()` is called on containers only. The build asks for more: the generator stops
at a class without members, and classes whose headers include each other, or have one file name, are
not declared where they are used. -/
def Schema.BodiesCompile (S : Schema) : Prop :=
  ∀ d ∈ S.datas, ∀ m ∈ d.members, m.seq < 2 ^ 32 ∧ (clearWritten m = true → m.ty.hasClear = true)

/-! ## What comes out of `deserialize` -/

theorem except_bind_ok {α β : Type} {x : Except Fault α} {f : α → Except Fault β} {b : β}
    (h : (x >>= f) = .ok b) : ∃ a, x = .ok a ∧ f a = .ok b := by
  cases x with
  | error e => cases h
  | ok a => exact ⟨a, rfl, h⟩

variable {S : Schema} {d : String → Val → BytesStream → Except Fault (Val × BytesStream)}

variable {os os' : BytesStream} {ms : List Member} {q : Nat} {vs : List Val} {v : Val} {n : String}

/-- An invariant of the body is an invariant of the loop. -/
theorem forRecords_inv {σ : Type}
    {body : Nat → Nat → σ → BytesStream → Except Fault (σ × BytesStream)} {I : σ → Prop}
    (hbody : ∀ q size st os st' os', I st → body q size st os = .ok (st', os') → I st')
    {rounds : Nat} {st st' : σ} (hI : I st) (h : forRecords body rounds st os = .ok (st', os')) :
    I st' := by
  induction rounds generalizing st os with
  | zero =>
    simp only [forRecords] at h
    split at h
    · injection h with h
      injection h with h
      exact h ▸ hI
    · cases h
  | succ rounds ih =>
    simp only [forRecords] at h
    split at h
    · injection h with h
      injection h with h
      exact h ▸ hI
    · obtain ⟨⟨⟨q, size⟩, os₁⟩, -, h⟩ := except_bind_ok h
      obtain ⟨⟨st₁, os₂⟩, h1, h⟩ := except_bind_ok h
      exact ih (hbody q size st os₁ st₁ os₂ hI h1) h

/-- What a `ReadPb` does for the shape of its object: it keeps it, a vector gets one element more.
-/
def KeepsShape (S : Schema) (t : Ty)
    (read : Nat → Val → BytesStream → Except Fault (Val × BytesStream)) : Prop :=
  ∀ size old os v os', read size old os = .ok (v, os') →
    (S.everyNode shaped t old = true → S.everyNode shaped t v = true) ∧
      (t.isVector = true → v.elems.length = old.elems.length + 1)

theorem everyNode_fresh {node : Ty → Val → Bool} (h : ∀ t, node t (S.fresh t) = true) (t : Ty) :
    S.everyNode node t (S.fresh t) = true := by
  induction hk : S.height t using Nat.strong_induction_on generalizing t with
  | _ k ih =>
    cases t with
    | data n =>
      have hn := h (.data n)
      rw [Schema.fresh_data] at hn ⊢
      refine Schema.everyNode_data.2 ⟨hn, fun p hp => ?_⟩
      obtain ⟨m, hm, hpm⟩ : ∃ m ∈ S.members n, p = (m, S.fresh m.ty) := by
        have hzip : (S.members n).zip ((S.members n).map fun m => S.fresh m.ty) =
            (S.members n).map fun m => (m, S.fresh m.ty) := by
          rw [← List.zip_map', List.map_id']
        rw [hzip] at hp
        simpa [eq_comm] using hp
      rw [hpm]
      refine ih _ ?_ m.ty rfl
      have := Schema.height_member hm
      simp only [Schema.height] at hk
      omega
    | vector t => exact Schema.everyNode_vector.2 ⟨h (.vector t), by simp⟩
    | map k v => exact Schema.everyNode_map.2 ⟨h (.map k v), by simp⟩
    | fixed f => exact h (.fixed f)
    | string => exact h .string
    | bytes => exact h .bytes

theorem shaped_fresh (t : Ty) : S.everyNode shaped t (S.fresh t) = true := by
  refine everyNode_fresh (fun t => ?_) t
  cases t with
  | vector t => simp [shaped, Schema.fresh, Schema.freshAt]
  | _ => rfl

theorem elems_fresh (t : Ty) : (S.fresh t).elems = [] := by
  cases t <;> rfl

section Pairs

variable {k v : Ty} {readKey readVal : Nat → Val → BytesStream → Except Fault (Val × BytesStream)}

/-- The key and the value read so far; one that was read and is a vector is not empty. -/
structure PairShaped (S : Schema) (k v : Ty) (st : PairState) : Prop where
  key : S.everyNode shaped k st.key = true
  val : S.everyNode shaped v st.val = true
  gotKey : st.gotKey = true → k.isVector = true → st.key.elems ≠ []
  gotVal : st.gotVal = true → v.isVector = true → st.val.elems ≠ []

theorem readPairField_shaped (hk : KeepsShape S k readKey) (hv : KeepsShape S v readVal)
    {q size : Nat} {st st' : PairState} {os os' : BytesStream} (hst : PairShaped S k v st)
    (h : readPairField readKey readVal q size st os = .ok (st', os')) : PairShaped S k v st' := by
  simp only [readPairField] at h
  split at h
  · obtain ⟨⟨key, os₁⟩, h1, h⟩ := except_bind_ok h
    cases h
    obtain ⟨hshape, hlen⟩ := hk size st.key os key _ h1
    refine ⟨hshape hst.key, hst.val, fun _ ht => ?_, hst.gotVal⟩
    exact List.ne_nil_of_length_pos (by have := hlen ht; dsimp only; omega)
  · split at h
    · obtain ⟨⟨val, os₁⟩, h1, h⟩ := except_bind_ok h
      cases h
      obtain ⟨hshape, hlen⟩ := hv size st.val os val _ h1
      refine ⟨hst.key, hshape hst.val, hst.gotKey, fun _ ht => ?_⟩
      exact List.ne_nil_of_length_pos (by have := hlen ht; dsimp only; omega)
    · obtain ⟨os₁, -, h⟩ := except_bind_ok h
      cases h
      exact hst

/-- A pair of a map that comes from the wire. -/
def PairOk (S : Schema) (k v : Ty) (p : Val × Val) : Prop :=
  (S.everyNode shaped k p.1 = true ∧ S.everyNode shaped v p.2 = true) ∧
    (k.isVector = true → p.1.elems ≠ []) ∧ (v.isVector = true → p.2.elems ≠ [])

theorem readPair_shaped (hk : KeepsShape S k readKey) (hv : KeepsShape S v readVal)
    {q size : Nat} {ps ps' : List (Val × Val)} {os os' : BytesStream}
    (hps : ∀ p ∈ ps, PairOk S k v p)
    (h : readPair readKey readVal (S.fresh k) (S.fresh v) q size ps os = .ok (ps', os')) :
    ∀ p ∈ ps', PairOk S k v p := by
  simp only [readPair] at h
  obtain ⟨b, -, h⟩ := except_bind_ok h
  obtain ⟨all, -, h⟩ := except_bind_ok h
  obtain ⟨⟨st, os₁⟩, hloop, h⟩ := except_bind_ok h
  have hst : PairShaped S k v st :=
    forRecords_inv (fun q size st os st' os' => readPairField_shaped hk hv)
      ⟨shaped_fresh k, shaped_fresh v, by simp, by simp⟩ hloop
  dsimp only at h
  split at h
  · cases h
  · rename_i hgot
    simp only [Bool.or_eq_true, Bool.not_eq_true', not_or, Bool.not_eq_false] at hgot
    cases h
    intro p hp
    rcases Val.mem_insert hp with rfl | hp
    · exact ⟨⟨hst.key, hst.val⟩, hst.gotKey hgot.1, hst.gotVal hgot.2⟩
    · exact hps p hp

end Pairs

theorem shaped_map {k v : Ty} {ps : List (Val × Val)} (h : ∀ p ∈ ps, PairOk S k v p) :
    S.everyNode shaped (.map k v) (.map ps) = true := by
  refine Schema.everyNode_map.2 ⟨List.all_eq_true.2 fun p hp => ?_, fun p hp => (h p hp).1⟩
  obtain ⟨-, hk, hv⟩ := h p hp
  simp only [Bool.and_eq_true, Bool.or_eq_true, Bool.not_eq_true', List.isEmpty_eq_false_iff]
  constructor
  · cases ht : k.isVector with
    | false => exact .inl rfl
    | true => exact .inr (hk ht)
  · cases ht : v.isVector with
    | false => exact .inl rfl
    | true => exact .inr (hv ht)

/-- **Whatever `ReadPb` makes has the shape of the wire format.** -/
theorem readPb_shaped
    (hd : ∀ n old os v os', d n old os = .ok (v, os') →
      S.everyNode shaped (.data n) old = true → S.everyNode shaped (.data n) v = true)
    (t : Ty) : KeepsShape S t (readPb S d t) := by
  induction t with
  | fixed f =>
    intro size old os v os' h
    refine ⟨fun _ => ?_, by simp [Ty.isVector]⟩
    simp only [readPb] at h
    split at h
    · cases h
      rfl
    · cases h
  | string | bytes =>
    intro size old os v os' h
    refine ⟨fun _ => ?_, by simp [Ty.isVector]⟩
    simp only [readPb] at h
    split at h
    · cases h
    · obtain ⟨b, -, h⟩ := except_bind_ok h
      obtain ⟨os₁, -, h⟩ := except_bind_ok h
      cases h
      rfl
  | data n =>
    intro size old os v os' h
    refine ⟨fun hold => ?_, by simp [Ty.isVector]⟩
    simp only [readPb] at h
    split at h
    · cases h
    · obtain ⟨b, -, h⟩ := except_bind_ok h
      obtain ⟨⟨v₁, sub⟩, h1, h⟩ := except_bind_ok h
      dsimp only at h
      split at h
      · cases h
      · obtain ⟨os₁, -, h⟩ := except_bind_ok h
        cases h
        exact hd n old _ v sub h1 hold
  | vector t ih =>
    intro size old os v os' h
    simp only [readPb] at h
    obtain ⟨⟨e, os₁⟩, h1, h⟩ := except_bind_ok h
    cases h
    obtain ⟨hshape, hlen⟩ := ih size (S.fresh t) os e _ h1
    refine ⟨fun hold => ?_, fun _ => by simp [Val.elems]⟩
    have hparts : ∀ x ∈ old.elems, S.everyNode shaped t x = true ∧
        (t.isVector = true → x.elems.length = 1) := by
      intro x hx
      cases old with
      | vec xs =>
        obtain ⟨hself, hxs⟩ := Schema.everyNode_vector.1 hold
        refine ⟨hxs x hx, fun ht => ?_⟩
        simp only [shaped, ht, Bool.not_true, Bool.false_or] at hself
        simpa using List.all_eq_true.1 hself x hx
      | _ => simp [Val.elems] at hx
    -- the new element was read once from a fresh object
    have hnew : S.everyNode shaped t e = true ∧ (t.isVector = true → e.elems.length = 1) :=
      ⟨hshape (shaped_fresh t), fun ht => by rw [hlen ht, elems_fresh]; rfl⟩
    have hall : ∀ x ∈ old.elems ++ [e], S.everyNode shaped t x = true ∧
        (t.isVector = true → x.elems.length = 1) := by
      intro x hx
      rcases List.mem_append.1 hx with hx | hx
      · exact hparts x hx
      · rw [List.mem_singleton.1 hx]
        exact hnew
    refine Schema.everyNode_vector.2 ⟨?_, fun x hx => (hall x hx).1⟩
    cases ht : t.isVector with
    | false => simp [shaped, ht]
    | true =>
      simp only [shaped, ht, Bool.not_true, Bool.false_or]
      exact List.all_eq_true.2 fun x hx => by simpa using (hall x hx).2 ht
  | map k v ihk ihv =>
    intro size old os v' os' h
    refine ⟨fun _ => ?_, by simp [Ty.isVector]⟩
    simp only [readPb] at h
    split at h
    · cases h
    · obtain ⟨b, -, h⟩ := except_bind_ok h
      obtain ⟨os₁, -, h⟩ := except_bind_ok h
      obtain ⟨⟨ps, os₂⟩, hloop, h⟩ := except_bind_ok h
      cases h
      refine shaped_map (forRecords_inv (I := fun ps => ∀ p ∈ ps, PairOk S k v p)
        (fun q size ps os ps' os' hps h => readPair_shaped ihk ihv hps h) (by simp) hloop)

theorem switchMember_shaped (hd : ∀ n old os v os', d n old os = .ok (v, os') →
      S.everyNode shaped (.data n) old = true → S.everyNode shaped (.data n) v = true) {size : Nat}
    {vs' : List Val} (hvs : ∀ p ∈ ms.zip vs, S.everyNode shaped p.1.ty p.2 = true)
    (h : switchMember S d q size ms vs os = .ok (vs', os')) :
    ∀ p ∈ ms.zip vs', S.everyNode shaped p.1.ty p.2 = true := by
  induction ms generalizing vs vs' with
  | nil => simp
  | cons m ms ih =>
    cases vs with
    | nil =>
      simp only [switchMember] at h
      obtain ⟨os₁, -, h⟩ := except_bind_ok h
      cases h
      simp
    | cons v vs =>
      have hv := hvs (m, v) (by simp)
      have htail : ∀ p ∈ ms.zip vs, S.everyNode shaped p.1.ty p.2 = true :=
        fun p hp => hvs p (by simp [hp])
      simp only [switchMember] at h
      split at h
      · obtain ⟨⟨v₁, os₁⟩, h1, h⟩ := except_bind_ok h
        cases h
        have hv₁ := (readPb_shaped hd m.ty size v os v₁ _ h1).1 hv
        rw [List.zip_cons_cons, List.forall_mem_cons]
        exact ⟨hv₁, htail⟩
      · obtain ⟨⟨vs₁, os₁⟩, h1, h⟩ := except_bind_ok h
        cases h
        rw [List.zip_cons_cons, List.forall_mem_cons]
        exact ⟨hv, ih htail h1⟩

theorem clearMember_shaped {m : Member} (h : S.everyNode shaped m.ty v = true) :
    S.everyNode shaped m.ty (clearMember m v) = true := by
  simp only [clearMember]
  split
  · rename_i t hty
    rw [hty]
    exact Schema.everyNode_vector.2 ⟨by simp [shaped], by simp⟩
  · rename_i k v hty
    rw [hty]
    rfl
  · exact h

theorem clear_shaped (h : ∀ p ∈ ms.zip vs, S.everyNode shaped p.1.ty p.2 = true) :
    ∀ p ∈ ms.zip (List.zipWith clearMember ms vs), S.everyNode shaped p.1.ty p.2 = true := by
  induction ms generalizing vs with
  | nil => simp
  | cons m ms ih =>
    cases vs with
    | nil => simp
    | cons v vs =>
      rw [List.zipWith_cons_cons, List.zip_cons_cons, List.forall_mem_cons]
      exact ⟨clearMember_shaped (h (m, v) (by simp)), ih fun p hp => h p (by simp [hp])⟩

/-- **Whatever `deserialize` makes from a shaped object is shaped.** -/
theorem deserializeAt_shaped {depth : Nat} {old : Val}
    (h : deserializeAt S depth n old os = .ok (v, os'))
    (hold : S.everyNode shaped (.data n) old = true) : S.everyNode shaped (.data n) v = true := by
  induction depth generalizing n old v os os' with
  | zero => cases h
  | succ depth ih =>
    simp only [deserializeAt] at h
    obtain ⟨⟨vs, os₁⟩, hloop, h⟩ := except_bind_ok h
    cases h
    have hfields : ∀ p ∈ (S.members n).zip old.fields, S.everyNode shaped p.1.ty p.2 = true := by
      cases old with
      | data fs => exact (Schema.everyNode_data.1 hold).2
      | _ => simp [Val.fields]
    refine Schema.everyNode_data.2 ⟨rfl, ?_⟩
    exact forRecords_inv
      (I := fun vs => ∀ p ∈ (S.members n).zip vs, S.everyNode shaped p.1.ty p.2 = true)
      (fun q size vs os vs' os' hvs h =>
        switchMember_shaped (fun n old os v os' h hold => ih h hold) hvs h)
      (clear_shaped hfields) hloop

/-! ## What `serialize` accepts -/

theorem writePbRaw_ok {size : Nat} {data bytes : List UInt8}
    (h : writePbRaw q data size = .ok bytes) : q < 2 ^ 31 := by
  simp only [writePbRaw] at h
  split at h
  · cases h
  · omega

theorem writeChecked_ok {data bytes : List UInt8} (h : writeChecked q data = .ok bytes) :
    q < 2 ^ 31 := by
  simp only [writeChecked] at h
  split at h
  · cases h
  · exact writePbRaw_ok h

/-- What the induction says about one object that was written. -/
def WrittenFits (S : Schema) (t : Ty) (v : Val) : Prop :=
  ∀ q bytes, writePb S t q v = .ok bytes →
    (writesRecord t v = true → q < 2 ^ 31) ∧ S.everyNode (seqFits S) t v = true

theorem writeElems_fits {t : Ty} {xs : List Val} (ih : ∀ x ∈ xs, WrittenFits S t x)
    {bytes : List UInt8} (h : writeElems S t q xs = .ok bytes) :
    (xs.any (writesRecord t) = true → q < 2 ^ 31) ∧
      ∀ x ∈ xs, S.everyNode (seqFits S) t x = true := by
  induction xs generalizing bytes with
  | nil => simp
  | cons x xs ihx =>
    simp only [writeElems] at h
    obtain ⟨a, ha, h⟩ := except_bind_ok h
    obtain ⟨b, hb, -⟩ := except_bind_ok h
    obtain ⟨hq, hx⟩ := ih x (by simp) q a ha
    obtain ⟨hqs, hxs⟩ := ihx (fun y hy => ih y (by simp [hy])) hb
    refine ⟨fun hw => ?_, List.forall_mem_cons.2 ⟨hx, hxs⟩⟩
    rw [List.any_cons, Bool.or_eq_true] at hw
    rcases hw with hw | hw
    · exact hq hw
    · exact hqs hw

theorem writePairs_fits {k v : Ty} {prs : List (Val × Val)}
    (ih : ∀ p ∈ prs, WrittenFits S k p.1 ∧ WrittenFits S v p.2) {bytes : List UInt8}
    (h : writePairs S k v prs = .ok bytes) :
    ∀ p ∈ prs, S.everyNode (seqFits S) k p.1 = true ∧ S.everyNode (seqFits S) v p.2 = true := by
  induction prs generalizing bytes with
  | nil => simp
  | cons p prs ihp =>
    simp only [writePairs] at h
    obtain ⟨a, ha, h⟩ := except_bind_ok h
    obtain ⟨b, hb, -⟩ := except_bind_ok h
    obtain ⟨hk, hv⟩ := ih p (by simp)
    refine List.forall_mem_cons.2 ⟨?_, ihp (fun y hy => ih y (by simp [hy])) hb⟩
    obtain ⟨key, val⟩ := p
    simp only [writePair] at ha
    obtain ⟨a₁, ha₁, ha⟩ := except_bind_ok ha
    obtain ⟨b₁, hb₁, -⟩ := except_bind_ok ha
    exact ⟨(hk 0 a₁ ha₁).2, (hv 1 b₁ hb₁).2⟩

theorem writeMembers_fits (hseq : ∀ m ∈ ms, m.seq < 2 ^ 32)
    (ih : ∀ p ∈ ms.zip vs, WrittenFits S p.1.ty p.2) {bytes : List UInt8}
    (h : writeMembers S ms vs = .ok bytes) :
    ∀ p ∈ ms.zip vs, (writesRecord p.1.ty p.2 = true → p.1.seq < 2 ^ 31) ∧
      S.everyNode (seqFits S) p.1.ty p.2 = true := by
  induction ms generalizing vs bytes with
  | nil => simp
  | cons m ms ihm =>
    cases vs with
    | nil => simp
    | cons v vs =>
      simp only [writeMembers] at h
      obtain ⟨a, ha, h⟩ := except_bind_ok h
      obtain ⟨b, hb, -⟩ := except_bind_ok h
      obtain ⟨hq, hv⟩ := ih (m, v) (by simp) _ a ha
      rw [Nat.mod_eq_of_lt (hseq m (by simp))] at hq
      rw [List.zip_cons_cons, List.forall_mem_cons]
      exact ⟨⟨hq, hv⟩, ihm (fun m' hm' => hseq m' (by simp [hm']))
        (fun p hp => ih p (by simp [hp])) hb⟩

theorem seqFits_of_members {fs : List Val}
    (h : ∀ p ∈ (S.members n).zip fs, writesRecord p.1.ty p.2 = true → p.1.seq < 2 ^ 31) :
    seqFits S (.data n) (.data fs) = true := by
  refine List.all_eq_true.2 fun p hp => ?_
  cases hw : writesRecord p.1.ty p.2 with
  | false => rfl
  | true => simpa using h p hp hw

theorem writePb_fits (hS : ∀ c, ∀ m ∈ S.members c, m.seq < 2 ^ 32) {t : Ty}
    (hv : S.hasType t v = true) : WrittenFits S t v := by
  refine Schema.typed_induction ?_ ?_ ?_ ?_ ?_ ?_ hv
  · intro f b _ q bytes h
    exact ⟨fun _ => writePbRaw_ok h, rfl⟩
  · intro b q bytes h
    exact ⟨fun _ => writeChecked_ok h, rfl⟩
  · intro b q bytes h
    exact ⟨fun _ => writeChecked_ok h, rfl⟩
  · intro t xs _ ih q bytes h
    obtain ⟨hq, hxs⟩ := writeElems_fits ih h
    exact ⟨hq, Schema.everyNode_vector.2 ⟨rfl, hxs⟩⟩
  · intro k v prs _ ih q bytes h
    simp only [writePb] at h
    obtain ⟨all, hall, h⟩ := except_bind_ok h
    exact ⟨fun _ => writePbRaw_ok h, Schema.everyNode_map.2 ⟨rfl, writePairs_fits ih hall⟩⟩
  · intro n fs _ _ ih q bytes h
    simp only [writePb] at h
    obtain ⟨inner, hinner, h⟩ := except_bind_ok h
    have hms := writeMembers_fits (hS n) ih hinner
    exact ⟨fun _ => writeChecked_ok h, Schema.everyNode_data.2
      ⟨seqFits_of_members fun p hp => (hms p hp).1, fun p hp => (hms p hp).2⟩⟩

/-! ## The accepted schemas

Whether an accepted schema gets its classes is up to the headers that the generator writes, and to
the C++ compiler. `Built` is the schemas whose headers are written and compile. -/

/-- There are classes for `S`, `serialize` succeeds on the object, and `deserialize` of the result
into a fresh object returns it. -/
def RoundTrips (Built : Schema → Prop) (S : Schema) (n : String) (x : Val) : Prop :=
  Built S ∧ ∃ bytes, serialize S n x = .ok bytes ∧
    deserialize S n (S.fresh (.data n)) (.ofBytes bytes) = .ok (x, ⟨bytes, bytes.length, 0⟩)

theorem accepted_distinct (h : accepted S.datas = true) (c : String) :
    ((S.members c).map Member.seq).Nodup := by
  simp only [accepted, Bool.and_eq_true, List.all_eq_true] at h
  rcases S.members_cases c with hc | ⟨d, hd, -, hc⟩
  · simp [hc]
  · have := h.1.2 d hd
    simp only [assignFieldSeq, Bool.and_eq_true, decide_eq_true_eq] at this
    rw [hc]
    exact this.2

theorem accepted_evolution (hS : accepted S.datas = true) : Evolution S S := by
  refine ⟨accepted_distinct hS, accepted_distinct hS, fun c m hm m' hm' hseq => ?_⟩
  rw [List.inj_on_of_nodup_map (accepted_distinct hS c) hm hm' hseq]

/-- What was written has numbers that can be written. -/
theorem seqFits_of_serialize (hcomp : S.BodiesCompile) {x : Val} {bytes : List UInt8}
    (hx : S.hasType (.data n) x = true) (hw : serialize S n x = .ok bytes) :
    S.everyNode (seqFits S) (.data n) x = true := by
  have hseq : ∀ c, ∀ m ∈ S.members c, m.seq < 2 ^ 32 := by
    intro c m hm
    rcases S.members_cases c with hc | ⟨d, hd, -, hc⟩
    · simp [hc] at hm
    · exact (hcomp d hd m (hc ▸ hm)).1
  cases x with
  | data fs =>
    obtain ⟨-, hty⟩ := Schema.hasType_data.1 hx
    have hms := writeMembers_fits (hseq n) (fun p hp => writePb_fits hseq (hty p hp)) hw
    exact Schema.everyNode_data.2
      ⟨seqFits_of_members fun p hp => (hms p hp).1, fun p hp => (hms p hp).2⟩
  | _ => cases hw

/-- An object whose vectors can be told from their records is read back. -/
theorem deserialize_serialize (hS : accepted S.datas = true) {n : String} {x : Val}
    (hx : S.hasType (.data n) x = true)
    (hsorted : S.everyNode Schema.keysSorted (.data n) x = true)
    (hsize : encodedSize S n x < 2 ^ 31) (hseq : S.everyNode (seqFits S) (.data n) x = true)
    (hshape : S.everyNode shaped (.data n) x = true) :
    ∃ bytes, serialize S n x = .ok bytes ∧
      deserialize S n (S.fresh (.data n)) (.ofBytes bytes) = .ok (x, ⟨bytes, bytes.length, 0⟩) := by
  have hev := accepted_evolution hS
  obtain ⟨bytes, hw, hwire⟩ := serialize_wire hx hseq hsize
  have hlen := wireMessage_length hx hwire
  have hr := deserialize_wire hev (hev.sameType n) hx hseq hshape hwire (by omega)
  have hself : evolveAs S S n n x = x := by
    cases x with
    | data fs => exact evolve_self hev.distinct hx hsorted
    | _ => cases hw
  exact ⟨bytes, hw, by rw [hr, hself]⟩

/-- An object whose vectors can be told from their records comes back from what was written. -/
theorem written_comes_back (hS : accepted S.datas = true) (hcomp : S.BodiesCompile) {x : Val}
    (hx : S.hasType (.data n) x = true) (hsorted : S.everyNode Schema.keysSorted (.data n) x = true)
    (hsize : encodedSize S n x < 2 ^ 31) (hshape : S.everyNode shaped (.data n) x = true)
    {bytes : List UInt8} (hw : serialize S n x = .ok bytes) :
    ∃ os, deserialize S n (S.fresh (.data n)) (.ofBytes bytes) = .ok (x, os) ∧
      os.remainSize = 0 := by
  obtain ⟨bytes', hw', hr⟩ := deserialize_serialize hS hx hsorted hsize
    (seqFits_of_serialize hcomp hx hw) hshape
  obtain rfl : bytes = bytes' := Except.ok.inj (hw.symm.trans hw')
  refine ⟨_, hr, ?_⟩
  show (2 ^ 64 + bytes.length - bytes.length) % 2 ^ 64 = 0
  rw [Nat.add_sub_cancel, Nat.mod_self]

/-- **Which objects of an accepted schema round-trip.**  Where the classes are built, exactly those
where the members that write a record have numbers below 2 ^ 31, every vector inside a vector has one
element, and no vector that is a map key or a map value is empty. -/
theorem accepted_round_trips_iff {Built : Schema → Prop}
    (hbodies : ∀ S, Built S → S.BodiesCompile) (hS : accepted S.datas = true) (hbuilt : Built S)
    {n : String} {x : Val} (hx : S.hasType (.data n) x = true)
    (hsorted : S.everyNode Schema.keysSorted (.data n) x = true)
    (hsize : encodedSize S n x < 2 ^ 31) :
    RoundTrips Built S n x ↔
      S.everyNode (seqFits S) (.data n) x = true ∧ S.everyNode shaped (.data n) x = true := by
  constructor
  · rintro ⟨-, bytes, hw, hr⟩
    exact ⟨seqFits_of_serialize (hbodies S hbuilt) hx hw, deserializeAt_shaped hr (shaped_fresh _)⟩
  · rintro ⟨hseq, hshape⟩
    exact ⟨hbuilt, deserialize_serialize hS hx hsorted hsize hseq hshape⟩

/-- `rpcdata Grid { 0 vector<vector<int32_t>> vRows; }`. -/
def gridSchema : Schema where
  datas := [⟨"Grid", false, [⟨"vRows", "vRows", .vector (.vector (.fixed .int32)), 0⟩]⟩]
  rank := fun _ => 0
  rank_lt := by simp

/-- A grid with one empty row. -/
def emptyRow : Val := .data [.vec [.vec []]]

/-- A grid with two rows of one cell. -/
def column : Val := .data [.vec [.vec [.fixed .int32 1], .vec [.fixed .int32 2]]]

theorem gridCompiles : gridSchema.BodiesCompile := by
  intro d hd m hm
  obtain rfl : d = _ := List.mem_singleton.1 hd
  obtain rfl : m = _ := List.mem_singleton.1 hm
  exact ⟨by decide, fun _ => rfl⟩

theorem serialize_emptyRow : serialize gridSchema "Grid" emptyRow = .ok [] := by
  simp [serialize, emptyRow, gridSchema, Schema.members, writeMembers, writePb, writeElems, bind,
    Except.bind, pure, Except.pure]

/-- **The empty row is lost**: the schema is accepted, the grid is written as no bytes at all, and an
empty grid comes back, whatever else is built. -/
theorem empty_row_lost :
    accepted gridSchema.datas = true ∧ gridSchema.BodiesCompile ∧
      gridSchema.hasType (.data "Grid") emptyRow = true ∧
      encodedSize gridSchema "Grid" emptyRow < 2 ^ 31 ∧
      serialize gridSchema "Grid" emptyRow = .ok [] ∧
      deserialize gridSchema "Grid" (gridSchema.fresh (.data "Grid")) (.ofBytes []) =
        .ok (.data [.vec []], ⟨[], 0, 0⟩) ∧
      ∀ Built, ¬ RoundTrips Built gridSchema "Grid" emptyRow := by
  have hw := serialize_emptyRow
  have hr : deserialize gridSchema "Grid" (gridSchema.fresh (.data "Grid")) (.ofBytes []) =
      .ok (.data [.vec []], ⟨[], 0, 0⟩) := by
    simp [deserialize, deserializeAt, forRecords, BytesStream.remainSize, BytesStream.ofBytes,
      BytesStream.size, gridSchema, Schema.members, Schema.fresh, Schema.height, Schema.freshAt,
      Val.fields, clearMember, bind, Except.bind, pure, Except.pure]
  refine ⟨by decide +kernel, gridCompiles, by decide +kernel, by decide +kernel, hw, hr, ?_⟩
  rintro Built ⟨-, bytes, hw', hr'⟩
  rw [hw] at hw'
  injection hw' with hb
  rw [← hb, hr] at hr'
  simp [emptyRow] at hr'

/-- Rows of exactly one cell are carried. -/
theorem accepted_round_trips_column : RoundTrips Schema.BodiesCompile gridSchema "Grid" column :=
  (accepted_round_trips_iff (fun _ hbodies => hbodies) (by decide +kernel) gridCompiles
    (by decide +kernel) (by decide +kernel) (by decide +kernel)).2
    ⟨by decide +kernel, by decide +kernel⟩

end OpenIdea.Codec
