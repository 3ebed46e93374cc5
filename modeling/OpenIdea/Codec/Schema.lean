import Mathlib.Algebra.Group.Nat.Defs
import Mathlib.Algebra.Group.Int.Defs
import Mathlib.Data.List.Basic
import Mathlib.Data.Int.Basic

/-!
# rpcdata schemas and their values

The types a `.proto` file may give a member, the rpcdata classes the generator writes for them, and
the C++ objects of those types.

A type mentions another rpcdata by name, so a class may contain itself inside a `std::vector` or a
`std::map`.  A *direct* member of class type must be complete, so direct membership is well founded;
`Schema` carries that as its rank.  The height of a type goes down at every direct member
(`height_member`), so constructing an object ends (`freshAt_eq`).
-/

set_option autoImplicit false

namespace OpenIdea.Codec

/-! ## Types -/

/-- The scalar types of a member, `PbFixedTrait<T>::bValue`. -/
inductive Fixed
  | bool
  | int8
  | uint8
  | int16
  | uint16
  | int32
  | uint32
  | int64
  | uint64
  | float
  | double
  deriving DecidableEq, Repr

/-- `sizeof(T)`. -/
def Fixed.size : Fixed → Nat
  | .bool | .int8 | .uint8 => 1
  | .int16 | .uint16 => 2
  | .int32 | .uint32 | .float => 4
  | .int64 | .uint64 | .double => 8

/-- The member types, as `ParseType` reads them. -/
inductive Ty
  | fixed (s : Fixed)
  | string
  | bytes
  | vector (t : Ty)
  | map (k v : Ty)
  | data (name : String)
  deriving DecidableEq, Repr

/-- One line of an rpcdata block: `seq type name [json name];`. -/
structure Member where
  name : String
  jsonName : String
  ty : Ty
  seq : Nat
  deriving DecidableEq, Repr

/-- An rpcdata block; `isKey` is the word `key` after its name. -/
structure RpcData where
  name : String
  isKey : Bool
  members : List Member
  deriving DecidableEq, Repr

/-- The rpcdata blocks of a file whose classes are complete: a class that is a direct member of
another one comes before it in some order. -/
structure Schema where
  datas : List RpcData
  rank : String → Nat
  rank_lt : ∀ d ∈ datas, ∀ m ∈ d.members, ∀ n, m.ty = .data n → rank n < rank d.name

namespace Schema

/-- The members of the class called `n`, in declaration order. -/
def members (S : Schema) (n : String) : List Member :=
  match S.datas.find? (fun d => d.name = n) with
  | some d => d.members
  | none => []

theorem members_cases (S : Schema) (n : String) :
    S.members n = [] ∨ ∃ d ∈ S.datas, d.name = n ∧ S.members n = d.members := by
  cases hd : S.datas.find? (fun d => d.name = n) with
  | none => exact .inl (by simp only [members, hd])
  | some d =>
    refine .inr ⟨d, List.mem_of_find?_eq_some hd, ?_, by simp only [members, hd]⟩
    simpa using List.find?_some hd

theorem rank_member (S : Schema) {n n' : String} {m : Member} (hm : m ∈ S.members n)
    (hty : m.ty = .data n') : S.rank n' < S.rank n := by
  rcases S.members_cases n with h | ⟨d, hd, rfl, h⟩
  · simp [h] at hm
  · rw [h] at hm
    exact S.rank_lt d hd m hm n' hty

end Schema

/-! ## Objects -/

/-- A C++ object of a member type.  A scalar is its bit pattern, a `std::map` lists its pairs in the
order of its keys, and an rpcdata object lists its members in declaration order. -/
inductive Val
  | fixed (s : Fixed) (bits : Nat)
  | str (s : List UInt8)
  | bytes (b : List UInt8)
  | vec (xs : List Val)
  | map (ps : List (Val × Val))
  | data (fs : List Val)

namespace Val

/-- The bit pattern of a scalar. -/
def bits : Val → Nat
  | .fixed _ b => b
  | _ => 0

/-- The elements of a `std::vector`. -/
def elems : Val → List Val
  | .vec xs => xs
  | _ => []

/-- The members of an rpcdata object. -/
def fields : Val → List Val
  | .data fs => fs
  | _ => []

end Val

/-! ### The order of map keys -/

/-- The number a bit pattern stands for, up to order; `none` is a NaN. -/
def Fixed.number (s : Fixed) (b : Nat) : Option Int :=
  match s with
  | .bool | .uint8 | .uint16 | .uint32 | .uint64 => some b
  | .int8 | .int16 | .int32 | .int64 =>
      some (if b < 2 ^ (8 * s.size - 1) then (b : Int) else (b : Int) - 2 ^ (8 * s.size))
  | .float => ieee 0x80000000 0x7F800000
  | .double => ieee 0x8000000000000000 0x7FF0000000000000
where
  -- sign and magnitude: the magnitudes above infinity are the NaNs, and both zeros are 0
  ieee (sign infinity : Nat) : Option Int :=
    if infinity < b % sign then none
    else some (if b < sign then (b % sign : Nat) else -((b % sign : Nat) : Int))

/-- `a < b` is `.lt` and `b < a` is `.gt`; a NaN is neither below nor above anything. -/
def Fixed.compare (s : Fixed) (a b : Nat) : Ordering :=
  match s.number a, s.number b with
  | some x, some y => Ord.compare x y
  | _, _ => .eq

/-- `std::string`'s order: bytes as unsigned characters, a proper beginning comes first. -/
def compareBytes : List UInt8 → List UInt8 → Ordering
  | x :: xs, y :: ys => (Ord.compare x.toNat y.toNat).then (compareBytes xs ys)
  | [], _ :: _ => .lt
  | _ :: _, [] => .gt
  | [], [] => .eq

namespace Val

mutual

/-- The `operator<` of a key type, asked both ways: `.lt` when `a < b`, `.gt` when `b < a`.  A
generated class compares its members in declaration order, a container lexicographically.  `Bytes`
has no `operator<` and is no key. -/
def compare : Val → Val → Ordering
  | .fixed s a, .fixed _ b => s.compare a b
  | .str a, .str b => compareBytes a b
  | .vec xs, .vec ys => compareList xs ys
  | .map ps, .map qs => comparePairs ps qs
  | .data xs, .data ys => compareList xs ys
  | _, _ => .eq

/-- Member by member, or element by element. -/
def compareList : List Val → List Val → Ordering
  | x :: xs, y :: ys => (compare x y).then (compareList xs ys)
  | [], _ :: _ => .lt
  | _ :: _, [] => .gt
  | [], [] => .eq

/-- Pair by pair. -/
def comparePairs : List (Val × Val) → List (Val × Val) → Ordering
  | p :: ps, q :: qs => (comparePair p q).then (comparePairs ps qs)
  | [], _ :: _ => .lt
  | _ :: _, [] => .gt
  | [], [] => .eq

/-- `std::pair`'s order: the key first. -/
def comparePair : Val × Val → Val × Val → Ordering
  | (a, b), (c, d) => (compare a c).then (compare b d)

end

/-- `std::map::insert`: a pair whose key is equivalent to one already there is dropped. -/
def insert : List (Val × Val) → Val × Val → List (Val × Val)
  | [], p => [p]
  | q :: qs, p =>
      match compare q.1 p.1 with
      | .lt => q :: insert qs p
      | .gt => p :: q :: qs
      | .eq => q :: qs

theorem insert_last {ps : List (Val × Val)} {p : Val × Val}
    (h : ∀ q ∈ ps, compare q.1 p.1 = .lt) : insert ps p = ps ++ [p] := by
  induction ps with
  | nil => rfl
  | cons q qs ih =>
    have hq := h q (by simp)
    have hqs := ih fun r hr => h r (by simp [hr])
    simp only [insert, hq, hqs, List.cons_append]

theorem mem_insert {ps : List (Val × Val)} {p q : Val × Val} (h : q ∈ insert ps p) :
    q = p ∨ q ∈ ps := by
  induction ps with
  | nil => exact .inl (by simpa [insert] using h)
  | cons r rs ih =>
    simp only [insert] at h
    split at h
    · rcases List.mem_cons.1 h with rfl | h
      · exact .inr (by simp)
      · rcases ih h with rfl | hr
        · exact .inl rfl
        · exact .inr (by simp [hr])
    · exact List.mem_cons.1 h
    · exact .inr h

end Val

/-- The bit patterns of a scalar type: a `bool` is 0 or 1, the others fill their bytes. -/
def Fixed.valid (s : Fixed) (b : Nat) : Bool :=
  if s = .bool then b ≤ 1 else b < 256 ^ s.size

namespace Schema

variable (S : Schema)

/-! ### Properties of every part of an object -/

mutual

/-- `node` holds at an object and at every object inside it, each taken at its own type. -/
def everyNode (node : Ty → Val → Bool) : Ty → Val → Bool
  | .vector t, .vec xs => node (.vector t) (.vec xs) && everyElem node t xs
  | .map k v, .map ps => node (.map k v) (.map ps) && everyPair node k v ps
  | .data n, .data fs => node (.data n) (.data fs) && everyMember node (S.members n) fs
  | t, v => node t v

/-- `everyNode` at each element of a vector. -/
def everyElem (node : Ty → Val → Bool) (t : Ty) : List Val → Bool
  | [] => true
  | x :: xs => everyNode node t x && everyElem node t xs

/-- `everyNode` at each key and each value of a map. -/
def everyPair (node : Ty → Val → Bool) (k v : Ty) : List (Val × Val) → Bool
  | [] => true
  | p :: ps => everyBoth node k v p && everyPair node k v ps

/-- `everyNode` at the key and the value of a pair. -/
def everyBoth (node : Ty → Val → Bool) (k v : Ty) : Val × Val → Bool
  | (a, b) => everyNode node k a && everyNode node v b

/-- `everyNode` at each member of an rpcdata object. -/
def everyMember (node : Ty → Val → Bool) : List Member → List Val → Bool
  | m :: ms, x :: xs => everyNode node m.ty x && everyMember node ms xs
  | _, [] => true
  | [], _ :: _ => true

end

variable {S} {node : Ty → Val → Bool}

variable {t : Ty} {xs : List Val}

-- an empty vector has no parts
example : S.everyNode node (.vector t) (.vec []) = node (.vector t) (.vec []) := by
  simp [everyNode, everyElem]

theorem everyElem_iff : S.everyElem node t xs = true ↔ ∀ x ∈ xs, S.everyNode node t x = true := by
  induction xs with
  | nil => simp [everyElem]
  | cons x xs ih => simp [everyElem, ih]

theorem everyPair_iff {k v : Ty} {ps : List (Val × Val)} :
    S.everyPair node k v ps = true ↔
      ∀ p ∈ ps, S.everyNode node k p.1 = true ∧ S.everyNode node v p.2 = true := by
  induction ps with
  | nil => simp [everyPair]
  | cons p ps ih =>
    obtain ⟨a, b⟩ := p
    simp [everyPair, everyBoth, ih]

theorem everyMember_iff {ms : List Member} :
    S.everyMember node ms xs = true ↔
      ∀ p ∈ ms.zip xs, S.everyNode node p.1.ty p.2 = true := by
  induction xs generalizing ms with
  | nil => cases ms <;> simp [everyMember]
  | cons x xs ih =>
    cases ms with
    | nil => simp [everyMember]
    | cons m ms => simp [everyMember, ih]

theorem everyNode_vector :
    S.everyNode node (.vector t) (.vec xs) = true ↔
      node (.vector t) (.vec xs) = true ∧ ∀ x ∈ xs, S.everyNode node t x = true := by
  simp [everyNode, everyElem_iff]

theorem everyNode_map {k v : Ty} {ps : List (Val × Val)} :
    S.everyNode node (.map k v) (.map ps) = true ↔
      node (.map k v) (.map ps) = true ∧
        ∀ p ∈ ps, S.everyNode node k p.1 = true ∧ S.everyNode node v p.2 = true := by
  simp [everyNode, everyPair_iff]

theorem everyNode_data {n : String} {fs : List Val} :
    S.everyNode node (.data n) (.data fs) = true ↔
      node (.data n) (.data fs) = true ∧
        ∀ p ∈ (S.members n).zip fs, S.everyNode node p.1.ty p.2 = true := by
  simp [everyNode, everyMember_iff]

theorem everyNode_self {v : Val} (h : S.everyNode node t v = true) : node t v = true := by
  unfold everyNode at h
  split at h
  · exact (Bool.and_eq_true _ _ ▸ h).1
  · exact (Bool.and_eq_true _ _ ▸ h).1
  · exact (Bool.and_eq_true _ _ ▸ h).1
  · exact h

/-! ### Typing -/

variable (S)

/-- The object has the layout of its type; what is inside it is not looked at. -/
def layout : Ty → Val → Bool
  | .fixed s, .fixed s' b => s = s' && s.valid b
  | .string, .str _ => true
  | .bytes, .bytes _ => true
  | .vector _, .vec _ => true
  | .map _ _, .map _ => true
  | .data n, .data fs => fs.length = (S.members n).length
  | _, _ => false

/-- The object is one of the type `t`. -/
def hasType (t : Ty) (v : Val) : Bool := S.everyNode S.layout t v

/-- A map lists its pairs by increasing key. -/
def keysSorted : Ty → Val → Bool
  | _, .map ps => ps.Pairwise fun p q => p.1.compare q.1 = .lt
  | _, _ => true

variable {S}

/-- Induction over the objects of the schema's types, one case for each kind of type. -/
@[elab_as_elim] theorem typed_induction {motive : Ty → Val → Prop}
    (fixed : ∀ s b, s.valid b = true → motive (.fixed s) (.fixed s b))
    (string : ∀ b, motive .string (.str b))
    (bytes : ∀ b, motive .bytes (.bytes b))
    (vector : ∀ t xs, (∀ x ∈ xs, S.hasType t x = true) → (∀ x ∈ xs, motive t x) →
      motive (.vector t) (.vec xs))
    (map : ∀ k v ps, (∀ p ∈ ps, S.hasType k p.1 = true ∧ S.hasType v p.2 = true) →
      (∀ p ∈ ps, motive k p.1 ∧ motive v p.2) → motive (.map k v) (.map ps))
    (data : ∀ n fs, fs.length = (S.members n).length →
      (∀ p ∈ (S.members n).zip fs, S.hasType p.1.ty p.2 = true) →
      (∀ p ∈ (S.members n).zip fs, motive p.1.ty p.2) → motive (.data n) (.data fs))
    {t : Ty} {v : Val} (hv : S.hasType t v = true) : motive t v := by
  -- strong induction on the size of the object: every part of an object is smaller
  suffices h : ∀ k, ∀ (v : Val) (t : Ty), sizeOf v ≤ k → S.hasType t v = true → motive t v from
    h (sizeOf v) v t (Nat.le_refl _) hv
  clear hv t v
  intro k
  induction k with
  | zero =>
    intro v t hk
    cases v <;> simp at hk
  | succ k ih =>
    intro v t hk hv
    have hself : S.layout t v = true := everyNode_self hv
    cases t <;> cases v <;> simp only [layout, Bool.false_eq_true] at hself
    · rename_i s s' b
      simp only [Bool.and_eq_true, decide_eq_true_eq] at hself
      obtain ⟨rfl, hb⟩ := hself
      exact fixed s b hb
    · exact string _
    · exact bytes _
    · rename_i t xs
      have hparts := (everyNode_vector.1 hv).2
      refine vector t xs hparts fun x hx => ih x t ?_ (hparts x hx)
      have := List.sizeOf_lt_of_mem hx
      simp only [Val.vec.sizeOf_spec] at hk
      omega
    · rename_i kt vt ps
      have hparts := (everyNode_map.1 hv).2
      refine map kt vt ps hparts fun p hp => ?_
      have hlt := List.sizeOf_lt_of_mem hp
      have hpair : sizeOf p = 1 + sizeOf p.1 + sizeOf p.2 := by cases p; rfl
      simp only [Val.map.sizeOf_spec] at hk
      exact ⟨ih p.1 kt (by omega) (hparts p hp).1, ih p.2 vt (by omega) (hparts p hp).2⟩
    · rename_i n fs
      have hparts := (everyNode_data.1 hv).2
      refine data n fs (by simpa using hself) hparts fun p hp => ?_
      have hlt := List.sizeOf_lt_of_mem (List.of_mem_zip hp).2
      simp only [Val.data.sizeOf_spec] at hk
      exact ih p.2 p.1.ty (by omega) (hparts p hp)

/-! ### Freshly constructed objects -/

variable (S)

/-- A value-initialised object of type `t`, with `k` levels of direct class members. -/
def freshAt : Nat → Ty → Val
  | _, .fixed s => .fixed s 0
  | _, .string => .str []
  | _, .bytes => .bytes []
  | _, .vector _ => .vec []
  | _, .map _ _ => .map []
  | 0, .data _ => .data []
  | k + 1, .data n => .data ((S.members n).map fun m => freshAt k m.ty)

/-- How many levels of direct class members an object of type `t` has at most. -/
def height : Ty → Nat
  | .data n => S.rank n + 1
  | _ => 0

/-- `T stElem{}`: members are declared with `{}`, so scalars are zero. -/
def fresh (t : Ty) : Val := S.freshAt (S.height t) t

variable {S}

theorem height_member {n : String} {m : Member} (hm : m ∈ S.members n) :
    S.height m.ty ≤ S.rank n := by
  cases hty : m.ty with
  | data n' => exact S.rank_member hm hty
  | _ => exact Nat.zero_le _

theorem freshAt_eq {k : Nat} (h : S.height t ≤ k) : S.freshAt k t = S.fresh t := by
  induction k using Nat.strong_induction_on generalizing t with
  | _ k ih =>
    cases t with
    | data n =>
      obtain ⟨k, rfl⟩ : ∃ j, k = j + 1 := ⟨k - 1, by simp only [height] at h; omega⟩
      simp only [fresh, height, freshAt] at h ⊢
      congr 1
      refine List.map_congr_left fun m hm => ?_
      have hm' := height_member hm
      rw [ih k (by omega) (by omega), ih (S.rank n) (by omega) hm']
    | _ => cases k <;> rfl

theorem fresh_data (n : String) :
    S.fresh (.data n) = .data ((S.members n).map fun m => S.fresh m.ty) := by
  simp only [fresh, height, freshAt]
  congr 1
  exact List.map_congr_left fun m hm => freshAt_eq (height_member hm)

end Schema

end OpenIdea.Codec
