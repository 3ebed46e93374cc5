import OpenIdea.Codec.Stream

/-!
# Reading

The `ReadPb` overloads, the generated `deserialize`, and the `operator>>` overloads.

Three loops of the source have one shape: while bytes remain, read a record header and hand the
record to a body.  `forRecords` is that loop.  Its rounds and the depth of nested `deserialize`
calls are counted, and a count that runs out is the fault `endless`; the counts given here are the
number of bytes at hand.
-/

set_option autoImplicit false

namespace OpenIdea.Codec

open OpenIdea.Lib

/-- `while (os.RemainSize() > 0) { os.ReadPbHeader(seq, size); body }`. -/
def forRecords {σ : Type} (body : Nat → Nat → σ → BytesStream → Except Fault (σ × BytesStream)) :
    Nat → σ → BytesStream → Except Fault (σ × BytesStream)
  | 0, st, os => if os.remainSize = 0 then .ok (st, os) else .error .endless
  | rounds + 1, st, os =>
      if os.remainSize = 0 then .ok (st, os)
      else do
        let ((seq, size), os) ← os.readPbHeader
        let (st, os) ← body seq size st os
        forRecords body rounds st os

/-! ## `ReadPb` -/

/-- The local variables of one round of the pair loop: `stKey`, `stVal`, `bGotKey`, `bGotVal`. -/
structure PairState where
  key : Val
  val : Val
  gotKey : Bool
  gotVal : Bool

section Pairs

-- the `ReadPb` of the key type and of the value type
variable (readKey readVal : Nat → Val → BytesStream → Except Fault (Val × BytesStream))

/-- The body of the loop over the fields of one pair. -/
def readPairField (seq size : Nat) (st : PairState) (pair : BytesStream) :
    Except Fault (PairState × BytesStream) :=
  if seq = 0 then do
    let (key, pair) ← readKey size st.key pair
    return ({ st with key := key, gotKey := true }, pair)
  else if seq = 1 then do
    let (val, pair) ← readVal size st.val pair
    return ({ st with val := val, gotVal := true }, pair)
  else do
    let pair ← pair.skipPb size
    return (st, pair)

/-- The body of the loop over the pairs of a map; the number of a pair's record is not looked at.
`key` and `val` are the freshly constructed `stKey` and `stVal`. -/
def readPair (key val : Val) (_seq size : Nat) (ps : List (Val × Val)) (all : BytesStream) :
    Except Fault (List (Val × Val) × BytesStream) := do
  let b ← all.curBytes size
  let all ← all.addCurPos size
  let (st, _) ← forRecords (readPairField readKey readVal) b.length ⟨key, val, false, false⟩
    (.ofBytes b)
  if !st.gotKey || !st.gotVal then
    throw .parser
  return (Val.insert ps (st.key, st.val), all)

end Pairs

section ReadPb

-- `deserialize` is the generated function of the nested classes
variable (S : Schema) (deserialize : String → Val → BytesStream → Except Fault (Val × BytesStream))

/-- `void ReadPb(uint32_t iSize, T& stValueLocal)`; `old` is the object before the call. -/
def readPb : Ty → Nat → Val → BytesStream → Except Fault (Val × BytesStream)
  | .fixed f, size, old, os =>
      match readPbFixed f size os old.bits with
      | .ok _ (os, b) => .ok (.fixed f b, os)
      | .error e _ => .error e
  | .string, size, _, os => do
      if os.remainSize < size then
        throw .parser
      let b ← os.curBytes size
      let os ← os.addCurPos size
      return (.str b, os)
  | .bytes, size, _, os => do
      if os.remainSize < size then
        throw .parser
      let b ← os.curBytes size
      let os ← os.addCurPos size
      return (.bytes b, os)
  | .data n, size, old, os => do
      if os.remainSize < size then
        throw .parser
      let b ← os.curBytes size
      let (v, sub) ← deserialize n old (.ofBytes b)
      if sub.remainSize ≠ 0 then
        throw .parser
      let os ← os.addCurPos size
      return (v, os)
  | .vector t, size, old, os => do
      let (e, os) ← readPb t size (S.fresh t) os
      return (.vec (old.elems ++ [e]), os)
  | .map k v, size, _, os => do
      if os.remainSize < size then
        throw .parser
      let b ← os.curBytes size
      let os ← os.addCurPos size
      -- the map is cleared first
      let (ps, _) ← forRecords (readPair (readPb k) (readPb v) (S.fresh k) (S.fresh v))
        b.length [] (.ofBytes b)
      return (.map ps, os)

/-- The generated `switch (field_seq)`. -/
def switchMember (seq size : Nat) :
    List Member → List Val → BytesStream → Except Fault (List Val × BytesStream)
  | m :: ms, v :: vs, os =>
      if m.seq = seq then do
        let (v, os) ← readPb S deserialize m.ty size v os
        return (v :: vs, os)
      else do
        let (vs, os) ← switchMember seq size ms vs os
        return (v :: vs, os)
  | _, vs, os => do
      let os ← os.skipPb size
      return (vs, os)

end ReadPb

/-- The generated `x.clear();` of a vector or map member. -/
def clearMember (m : Member) (v : Val) : Val :=
  match m.ty with
  | .vector _ => .vec []
  | .map _ _ => .map []
  | _ => v

/-- The generated `deserialize` of class `n`, with at most `depth` nested calls. -/
def deserializeAt (S : Schema) : Nat → String → Val → BytesStream → Except Fault (Val × BytesStream)
  | 0, _, _, _ => .error .endless
  | depth + 1, n, old, os => do
      let ms := S.members n
      let (vs, os) ← forRecords
        (fun seq size vs os => switchMember S (deserializeAt S depth) seq size ms vs os)
        os.size (List.zipWith clearMember ms old.fields) os
      return (.data vs, os)

/-- `BytesStream& deserialize(BytesStream& os)` of class `n`. -/
def deserialize (S : Schema) (n : String) (old : Val) (os : BytesStream) :
    Except Fault (Val × BytesStream) :=
  deserializeAt S (os.size + 1) n old os

/-! ## `operator>>` -/

/-- The types that have an `operator>>`; a `std::map` has none. -/
inductive ShiftTy
  | fixed (f : Fixed)
  | string
  | bytes
  | vector (t : ShiftTy)
  | data (n : String)
  deriving DecidableEq, Repr

namespace ShiftTy

def toTy : ShiftTy → Ty
  | .fixed f => .fixed f
  | .string => .string
  | .bytes => .bytes
  | .vector t => .vector t.toTy
  | .data n => .data n

/-- `iMinElem`: the fewest bytes an element takes. -/
def minElem : ShiftTy → Nat
  | .fixed f => f.size
  | _ => 1

end ShiftTy

/-- `uint32_t` and `int32_t` reads into a fresh variable. -/
def shiftWord (f : Fixed) (os : BytesStream) : Except Fault (Nat × BytesStream) :=
  match shiftFixed f os 0 with
  | .ok _ (os, b) => .ok (b, os)
  | .error e _ => .error e

/-- `ReadLenPrefix`. -/
def readLenPrefix (os : BytesStream) : Except Fault (Nat × BytesStream) := do
  let (size, os) ← shiftWord .int32 os
  if 2 ^ 31 ≤ size ∨ os.remainSize < size then
    throw .parser
  return (size, os)

/-- `stValueLocal.resize(count)` while the bytes at hand are those of `os`. -/
def resizeVector (S : Schema) (t : ShiftTy) (count : Nat) (xs : List Val) (os : BytesStream) :
    Except Fault (List Val) :=
  if count * t.minElem ≤ os.remainSize then
    .ok (xs.take count ++ List.replicate (count - xs.length) (S.fresh t.toTy))
  else .error .overAlloc

/-- `for (...) (*this) >> stValueLocal[i];`. -/
def forElems (step : Val → BytesStream → Except Fault (Val × BytesStream)) :
    List Val → BytesStream → Except Fault (List Val × BytesStream)
  | [], os => .ok ([], os)
  | x :: xs, os => do
      let (x, os) ← step x os
      let (xs, os) ← forElems step xs os
      return (x :: xs, os)

/-- `BytesStream& operator>>(T&)`. -/
def shift (S : Schema) : ShiftTy → Val → BytesStream → Except Fault (Val × BytesStream)
  | .fixed f, old, os =>
      match shiftFixed f os old.bits with
      | .ok _ (os, b) => .ok (.fixed f b, os)
      | .error e _ => .error e
  | .string, _, os => do
      let (size, os) ← readLenPrefix os
      let b ← os.curBytes size
      let os ← os.addCurPos size
      return (.str b, os)
  | .bytes, _, os => do
      let (size, os) ← readLenPrefix os
      let b ← os.curBytes size
      let os ← os.addCurPos size
      return (.bytes b, os)
  | .data n, old, os => deserialize S n old os
  | .vector t, old, os => do
      let (count, os) ← shiftWord .uint32 os
      if os.remainSize / t.minElem < count then
        throw .parser
      let xs ← resizeVector S t count old.elems os
      let (xs, os) ← forElems (shift S t) xs os
      return (.vec xs, os)

end OpenIdea.Codec
