import OpenIdea.Lib.Decimal
import OpenIdea.Lib.OrdMap
import OpenIdea.Codec.Generator

/-!
# JSON (oi_json.h, serialize_data_file_gen.py, proto_parse.py)

The `ToJsonValue` and `FromJsonValue` overloads, the `ToJson` and `FromJson` that the generator
writes into a class, and `TypeJsonOk`, which decides whether it does.

A `FromJsonValue` sees the kind of a `Json::Value` and hands its parts to further overloads; `Node`
is a value with the overloads of its parts in their place, so that each overload is a definition of
its own. The result is the `bool` and what the target holds afterwards. An integer comes back from
the `Json::Value` it was put into (`ofInt_toInt`).
-/

set_option autoImplicit false

namespace OpenIdea.Codec

open OpenIdea.Lib

namespace Json

/-! ## `Json::Value` -/

/-- The order of the names of an object, and of `std::string`: by unsigned characters. -/
scoped instance linearOrderBytes : LinearOrder (List UInt8) :=
  LinearOrder.lift' (fun name => name.map UInt8.toNat)
    (List.map_injective_iff.2 fun _ _ => UInt8.toNat_inj.1)

/-- A `Json::Value`. The members of an object stand in the order of their names. -/
inductive Value where
  | null
  | bool (b : Bool)
  /-- `intValue` -/
  | int (i : Int)
  /-- `uintValue` -/
  | uint (n : Nat)
  /-- `realValue`, by the bits of the `double` -/
  | real (bits : Nat)
  | str (s : List UInt8)
  | arr (elems : List Value)
  | obj (members : List (List UInt8 × Value))

/-- What C++ does with floating numbers, on bit patterns. -/
structure FloatOps where
  /-- `static_cast<double>` of a `float` -/
  widen : Nat → Nat
  /-- `static_cast<float>` of a `double` -/
  narrow : Nat → Nat
  /-- `asDouble()` of an integer -/
  ofInt : Int → Nat

end Json

namespace Fixed

def signed : Fixed → Bool
  | .int8 | .int16 | .int32 | .int64 => true
  | _ => false

def floating : Fixed → Bool
  | .float | .double => true
  | _ => false

/-- The value of an integer, from its bits. -/
def toInt (f : Fixed) (bits : Nat) : Int :=
  if f.signed && 2 ^ (8 * f.size - 1) ≤ bits then (bits : Int) - 2 ^ (8 * f.size) else bits

/-- `static_cast<T>` of an integer. -/
def ofInt (f : Fixed) (i : Int) : Nat := (i % 2 ^ (8 * f.size)).toNat

/-- `std::numeric_limits<T>::min()` and `max()`. -/
def min (f : Fixed) : Int := if f.signed then -2 ^ (8 * f.size - 1) else 0

def max (f : Fixed) : Int := if f.signed then 2 ^ (8 * f.size - 1) - 1 else 2 ^ (8 * f.size) - 1

theorem ofInt_toInt {f : Fixed} {bits : Nat} (hfloat : f.floating = false) (hbool : f ≠ .bool)
    (h : f.valid bits = true) : f.ofInt (f.toInt bits) = bits := by
  simp only [valid, if_neg hbool, decide_eq_true_eq] at h
  cases f <;> simp only [floating, Bool.true_eq_false, size] at hfloat h <;>
    simp only [ofInt, toInt, signed, size, Bool.true_and, Bool.false_and] <;>
    norm_num at h ⊢ <;> omega

theorem toInt_range {f : Fixed} {bits : Nat} (hfloat : f.floating = false) (hbool : f ≠ .bool)
    (h : f.valid bits = true) : f.min ≤ f.toInt bits ∧ f.toInt bits ≤ f.max := by
  simp only [valid, if_neg hbool, decide_eq_true_eq] at h
  cases f <;> simp only [floating, Bool.true_eq_false, size] at hfloat h <;>
    simp only [min, max, toInt, signed, size, Bool.true_and, Bool.false_and] <;>
    norm_num at h ⊢ <;> omega

end Fixed

namespace Json

/-! ## `ToJsonValue` -/

/-- The name of a member in the generated text. -/
def jsonKey (m : Member) : List UInt8 := m.jsonName.toUTF8.data.toList

/-- `std::to_string(iKey)`, or the key itself. -/
def keyText : Val → List UInt8
  | .str s => s
  | .fixed f b => Decimal.signedText (f.toInt b)
  | _ => []

/-- The overloads for scalars. -/
def scalarToJson (fl : FloatOps) (f : Fixed) (bits : Nat) : Value :=
  match f with
  | .bool => .bool (bits ≠ 0)
  | .float => .real (fl.widen bits)
  | .double => .real bits
  | f => if f.signed then .int (f.toInt bits) else .uint bits

section ToJson

variable (S : Schema) (fl : FloatOps)

mutual

/-- `ToJsonValue(stOutput, value)`. -/
def toJsonValue : Ty → Val → Value
  | .fixed f, .fixed _ b => scalarToJson fl f b
  | .string, .str s => .str s
  | .bytes, .bytes b => .str b
  | .vector t, .vec xs => .arr (toJsonElems t xs)
  | .map _ v, .map ps => .obj (OrdMap.ofList (toJsonPairs v ps))
  | .data n, .data fs => .obj (OrdMap.ofList (toJsonMembers (S.members n) fs))
  | _, _ => .null

def toJsonElems (t : Ty) : List Val → List Value
  | [] => []
  | x :: xs => toJsonValue t x :: toJsonElems t xs

/-- The assignments `stOutput[key] = stChild` of the overloads for maps. -/
def toJsonPairs (v : Ty) : List (Val × Val) → List (List UInt8 × Value)
  | [] => []
  | p :: ps => toJsonPair v p :: toJsonPairs v ps

def toJsonPair (v : Ty) : Val × Val → List UInt8 × Value
  | (key, val) => (keyText key, toJsonValue v val)

/-- The statements `ToJsonValue(out["name"], member)` of `ToJson`. -/
def toJsonMembers : List Member → List Val → List (List UInt8 × Value)
  | m :: ms, x :: xs => (jsonKey m, toJsonValue m.ty x) :: toJsonMembers ms xs
  | _, _ => []

end

end ToJson

/-! ## `FromJsonValue` -/

/-- `FromJsonValue` of one value: the type of the target, and what it holds. -/
abbrev Reader : Type := Ty → Val → Bool × Val

/-- A value as an overload sees it: its kind, and the overloads for its parts. -/
inductive Node where
  | null
  | bool (b : Bool)
  | int (i : Int)
  | uint (n : Nat)
  | real (bits : Nat)
  | str (s : List UInt8)
  | arr (elems : List Reader)
  | obj (members : List (List UInt8 × Reader))

def fromJsonBool : Node → Val → Bool × Val
  | .bool b, _ => (true, .fixed .bool b.toNat)
  | _, old => (false, old)

/-- The overload for integers: by the kind of the number, and within the limits of the target. -/
def fromJsonIntegral (f : Fixed) : Node → Val → Bool × Val
  | .int i, old =>
      if i < f.min ∨ f.max < i then (false, old) else (true, .fixed f (f.ofInt i))
  | .uint n, old => if f.max < n then (false, old) else (true, .fixed f (f.ofInt n))
  | _, old => (false, old)

/-- `isNumeric()` and `asDouble()`. -/
def asDouble (fl : FloatOps) : Node → Option Nat
  | .int i => some (fl.ofInt i)
  | .uint n => some (fl.ofInt n)
  | .real bits => some bits
  | _ => none

def fromJsonFloat (fl : FloatOps) (f : Fixed) (node : Node) (old : Val) : Bool × Val :=
  match asDouble fl node with
  | none => (false, old)
  | some bits => (true, .fixed f (if f = .float then fl.narrow bits else bits))

def fromJsonString : Node → Val → Bool × Val
  | .str s, _ => (true, .str s)
  | _, old => (false, old)

/-- `Reserve(0)` drops what the target holds. -/
def fromJsonBytes : Node → Val → Bool × Val
  | .str s, _ => (true, .bytes s)
  | _, old => (false, old)

/-- `ParseJsonIntegerKey`: `std::from_chars` over the whole key. -/
def parseJsonIntegerKey (f : Fixed) (key : List UInt8) : Option Int :=
  let parsed := if f.signed then Decimal.parseSigned key else (Decimal.parse key).map Int.ofNat
  match parsed with
  | none => none
  | some i => if i < f.min ∨ f.max < i then none else some i

section FromJson

variable (S : Schema) (fl : FloatOps)

/-- The loop over an array, into `vDecoded`. -/
def decodeElems (t : Ty) : List Reader → Option (List Val)
  | [] => some []
  | read :: rest =>
      match read t (S.fresh t) with
      | (true, x) => (decodeElems t rest).map (x :: ·)
      | (false, _) => none

def fromJsonVector (t : Ty) : Node → Val → Bool × Val
  | .arr elems, old =>
      match decodeElems S t elems with
      | some xs => (true, .vec xs)
      | none => (false, old)
  | _, old => (false, old)

/-- The loop over an object, into `mDecoded`. -/
def decodePairs {K : Type} [LinearOrder K] (parseKey : List UInt8 → Option K) (v : Ty) :
    List (List UInt8 × Reader) → List (K × Val) → Option (List (K × Val))
  | [], decoded => some decoded
  | (name, read) :: rest, decoded =>
      match parseKey name with
      | none => none
      | some key =>
          match read v (S.fresh v) with
          | (true, x) => decodePairs parseKey v rest (OrdMap.put decoded key x)
          | (false, _) => none

/-- The overloads for maps, by what they do with a key. -/
def fromJsonMap {K : Type} [LinearOrder K] (parseKey : List UInt8 → Option K) (toKey : K → Val)
    (v : Ty) : Node → Val → Bool × Val
  | .obj members, old =>
      match decodePairs S parseKey v members [] with
      | some ps => (true, .map (ps.map fun p => (toKey p.1, p.2)))
      | none => (false, old)
  | _, old => (false, old)

/-- `std::map<std::string, V>`. -/
def fromJsonStringMap (v : Ty) : Node → Val → Bool × Val := fromJsonMap S some Val.str v

/-- `std::map<int32_t, V>`, and `FromJsonUnsignedKeyMap`. -/
def fromJsonIntegerMap (f : Fixed) (v : Ty) : Node → Val → Bool × Val :=
  fromJsonMap S (parseJsonIntegerKey f) (fun i => .fixed f (f.ofInt i)) v

/-- The statements of `FromJson` on `decoded`: a member that the object does not have stays. -/
def decodeMembers (members : List (List UInt8 × Reader)) : List Member → List Val →
    Option (List Val)
  | m :: ms, x :: xs =>
      match OrdMap.find members (jsonKey m) with
      | none => (decodeMembers members ms xs).map (x :: ·)
      | some read =>
          match read m.ty x with
          | (true, x) => (decodeMembers members ms xs).map (x :: ·)
          | (false, _) => none
  | _, xs => some xs

/-- `FromJson(const Json::Value&)` of class `n`. -/
def fromJsonData (n : String) : Node → Val → Bool × Val
  | .obj members, old =>
      match decodeMembers members (S.members n) old.fields with
      | some fs => (true, .data fs)
      | none => (false, old)
  | _, old => (false, old)

/-- The overload for a type. -/
def fromJsonNode (node : Node) : Reader
  | .fixed .bool, old => fromJsonBool node old
  | .fixed .float, old => fromJsonFloat fl .float node old
  | .fixed .double, old => fromJsonFloat fl .double node old
  | .fixed f, old => fromJsonIntegral f node old
  | .string, old => fromJsonString node old
  | .bytes, old => fromJsonBytes node old
  | .vector t, old => fromJsonVector S t node old
  | .map .string v, old => fromJsonStringMap S v node old
  | .map (.fixed .int32) v, old => fromJsonIntegerMap S .int32 v node old
  | .map (.fixed .uint32) v, old => fromJsonIntegerMap S .uint32 v node old
  | .map (.fixed .uint64) v, old => fromJsonIntegerMap S .uint64 v node old
  -- no overload
  | .map _ _, old => (false, old)
  | .data n, old => fromJsonData S n node old

mutual

def Value.node : Value → Node
  | .null => .null
  | .bool b => .bool b
  | .int i => .int i
  | .uint n => .uint n
  | .real bits => .real bits
  | .str s => .str s
  | .arr elems => .arr (elemReaders elems)
  | .obj members => .obj (memberReaders members)

def elemReaders : List Value → List Reader
  | [] => []
  | j :: js => fromJsonNode S fl j.node :: elemReaders js

def memberReaders : List (List UInt8 × Value) → List (List UInt8 × Reader)
  | [] => []
  | m :: ms => memberReader m :: memberReaders ms

def memberReader : List UInt8 × Value → List UInt8 × Reader
  | (name, j) => (name, fromJsonNode S fl j.node)

end

/-- `FromJsonValue(stInput, stOutput)`. -/
def fromJsonValue (j : Value) : Reader := fromJsonNode S fl (j.node S fl)

end FromJson

/-! ## Which classes get the methods -/

section JsonOk

variable (datas : List RpcData) (scalarOk : Fixed → Bool)

/-- `JSON_MAP_KEYS`. -/
def jsonMapKey : Ty → Bool
  | .string | .fixed .int32 | .fixed .uint32 | .fixed .uint64 => true
  | _ => false

/-- `TypeJsonOk`, given what it says of an rpcdata type. Of the scalars, `JSON_SCALARS` has all. -/
def typeJsonOkWith (dataJsonOk : String → Bool) : Ty → Bool
  | .fixed f => scalarOk f
  | .string | .bytes => true
  | .vector t => typeJsonOkWith dataJsonOk t
  | .map k v => jsonMapKey k && typeJsonOkWith dataJsonOk v
  | .data n => dataJsonOk n

/-- `TypeJsonOk` of an rpcdata type: it is not marked `key`, it is not being looked at already, and
all its members are fine. The stack holds distinct names, so `datas.length` bounds the depth. -/
def dataJsonOk : Nat → List String → String → Bool
  | 0, _, _ => false
  | depth + 1, stack, n =>
      match datas.find? (fun d => d.name = n) with
      | none => false
      | some d =>
          !d.isKey && !(n ∈ stack) &&
            d.members.all fun m => typeJsonOkWith scalarOk (dataJsonOk depth (n :: stack)) m.ty

/-- `TypeJsonOk(parsed, set())`. -/
def typeJsonOk (t : Ty) : Bool :=
  typeJsonOkWith scalarOk (dataJsonOk datas scalarOk (datas.length + 1) []) t

/-- `data.json_ok`, as `CheckKeyComparators` sets it, with the scalars that are allowed. -/
def jsonOkOf (d : RpcData) : Bool :=
  !d.isKey && d.members.all fun m => typeJsonOk datas scalarOk m.ty

end JsonOk

/-- `data.json_ok`. -/
def jsonOk (datas : List RpcData) (d : RpcData) : Bool := jsonOkOf datas (fun _ => true) d

/-- `data.json_ok`, of a class with no floating fields. -/
def jsonOkExact (datas : List RpcData) (d : RpcData) : Bool :=
  jsonOkOf datas (fun f => !f.floating) d

/-! ## What the compiler asks of `oi_json.h`

A template finds the overloads that stand before it in the file, and those in the namespaces of its
argument's type. `std::vector<T>` and `std::map<K, V>` bring the namespaces of `T`, `K` and `V`; a
generated class brings `OI::Rpc`, where its base class is, and so all overloads. `Bytes` is not in
`OI::Rpc`. -/

/-- The type has `OI::Rpc` among its namespaces. -/
def bringsRpc : Ty → Bool
  | .vector t => bringsRpc t
  | .map k v => bringsRpc k || bringsRpc v
  | .data _ => true
  | _ => false

/-- The place of an overload in the file: scalars, vectors, the maps by their keys, classes. -/
def overloadPlace : Ty → Nat
  | .vector _ => 1
  | .map .string _ => 2
  | .map (.fixed .int32) _ => 3
  | .map (.fixed .uint32) _ => 5
  | .map _ _ => 6
  | .data _ => 7
  | _ => 0

/-- The place of the body that goes on with the elements; `FromJsonUnsignedKeyMap` and
`ToJsonUnsignedKeyMap` stand before the overloads that call them. -/
def bodyPlace : Ty → Nat
  | .map (.fixed .uint32) _ | .map (.fixed .uint64) _ => 4
  | t => overloadPlace t

/-- The body of the overload for `outer` finds the one for `inner`. -/
def finds (outer inner : Ty) : Bool := overloadPlace inner ≤ bodyPlace outer || bringsRpc inner

/-- The overloads for a member compile. -/
def overloadsCompile : Ty → Bool
  | .vector t => finds (.vector t) t && overloadsCompile t
  | .map k v => finds (.map k v) v && overloadsCompile v
  | _ => true

/-- The bodies of `FromJson` and `ToJson` compile. -/
def MethodsCompile (S : Schema) : Prop :=
  ∀ d ∈ S.datas, jsonOk S.datas d = true → ∀ m ∈ d.members, overloadsCompile m.ty = true

end Json

end OpenIdea.Codec
