import OpenIdea.Lib.LittleEndian
import OpenIdea.Codec.Schema

/-!
# The byte stream

`BytesStream`: a buffer with a read cursor, the record header, and the reads of scalars.

The source leaves two things to its checks: a pointer obtained from `GetCurPtr` is dereferenced
without a bound of its own, and the cursor is moved by plain addition.  Here `curBytes` and
`addCurPos` stop with a fault of their own in the cases that the checks have to exclude, so that a
run that ends without one never read a byte outside its buffer and never had its cursor past the
end.  A header is what `headerOf` sees of the bytes at the cursor (`preparePbHeader_eq`), and a
scalar takes the bytes of its size (`readPbFixed_reads`).
-/

set_option autoImplicit false

namespace OpenIdea.Codec

open OpenIdea.Lib

/-- Why a read or a write stops. -/
inductive Fault
  /-- `throw ParserException()` -/
  | parser
  /-- a byte outside the buffer is read -/
  | outOfBounds
  /-- the cursor is moved past `Size()` -/
  | overrun
  /-- a vector is resized to more elements than the remaining bytes can hold -/
  | overAlloc
  /-- a loop or a recursion goes on for ever -/
  | endless
  /-- the object is not one of its type, which no C++ program can bring about -/
  | illTyped
  deriving DecidableEq, Repr

theorem ok_bind {α β : Type} (a : α) (f : α → Except Fault β) :
    ((.ok a : Except Fault α) >>= f) = f a := rfl

/-- `BytesStream`. -/
structure BytesStream where
  buf : List UInt8
  /-- `m_iCurrentPosition` -/
  cur : Nat
  /-- `m_iSnapshotPosition` -/
  snapshot : Nat
  deriving DecidableEq, Repr

namespace BytesStream

/-- A stream over a copy of `b`, read from its start. -/
def ofBytes (b : List UInt8) : BytesStream := ⟨b, 0, 0⟩

def size (s : BytesStream) : Nat := s.buf.length

/-- `Size() - m_iCurrentPosition` on `size_t`. -/
def remainSize (s : BytesStream) : Nat := (2 ^ 64 + s.size - s.cur) % 2 ^ 64

/-- The stream with its cursor `n` bytes further on. -/
def moved (s : BytesStream) (n : Nat) : BytesStream := { s with cur := s.cur + n }

/-- The bytes from the cursor on. -/
def rest (s : BytesStream) : List UInt8 := s.buf.drop s.cur

/-- The `n` bytes at `GetCurPtr()`. -/
def curBytes (s : BytesStream) (n : Nat) : Except Fault (List UInt8) :=
  if s.cur + n ≤ s.size then .ok (s.rest.take n) else .error .outOfBounds

/-- `m_iCurrentPosition += n`. -/
def addCurPos (s : BytesStream) (n : Nat) : Except Fault BytesStream :=
  if s.cur + n ≤ s.size then .ok (s.moved n) else .error .overrun

def startTransaction (s : BytesStream) : BytesStream := { s with snapshot := s.cur }

def rollBack (s : BytesStream) : BytesStream := { s with cur := s.snapshot }

/-! ## The cursor stays inside the buffer -/

/-- The cursor invariant; a size is a `size_t`. -/
def InBounds (s : BytesStream) : Prop := s.cur ≤ s.size ∧ s.size < 2 ^ 64

instance (s : BytesStream) : Decidable s.InBounds :=
  inferInstanceAs (Decidable (s.cur ≤ s.size ∧ s.size < 2 ^ 64))

theorem inBounds_ofBytes {b : List UInt8} (h : b.length < 2 ^ 64) : (ofBytes b).InBounds :=
  ⟨Nat.zero_le _, h⟩

@[simp] theorem moved_cur (s : BytesStream) (n : Nat) : (s.moved n).cur = s.cur + n := rfl

@[simp] theorem moved_size (s : BytesStream) (n : Nat) : (s.moved n).size = s.size := rfl

@[simp] theorem moved_buf (s : BytesStream) (n : Nat) : (s.moved n).buf = s.buf := rfl

@[simp] theorem moved_moved (s : BytesStream) (m n : Nat) :
    (s.moved m).moved n = s.moved (m + n) := by
  simp [moved, Nat.add_assoc]

@[simp] theorem moved_zero (s : BytesStream) : s.moved 0 = s := rfl

variable {n : Nat} {s : BytesStream}

theorem InBounds.moved (h : s.InBounds) (hn : s.cur + n ≤ s.size) :
    (s.moved n).InBounds := ⟨hn, h.2⟩

theorem InBounds.remainSize (h : s.InBounds) : s.remainSize = s.size - s.cur := by
  obtain ⟨hcur, hsize⟩ := h
  simp only [BytesStream.remainSize]
  omega

theorem rest_length (s : BytesStream) : s.rest.length = s.size - s.cur := by
  simp [rest, size]

@[simp] theorem rest_moved (s : BytesStream) (n : Nat) : (s.moved n).rest = s.rest.drop n := by
  simp [rest, moved, List.drop_drop]

@[simp] theorem rest_ofBytes (b : List UInt8) : (ofBytes b).rest = b := rfl

@[simp] theorem size_ofBytes (b : List UInt8) : (ofBytes b).size = b.length := rfl

@[simp] theorem cur_ofBytes (b : List UInt8) : (ofBytes b).cur = 0 := rfl

theorem curBytes_ok (h : s.cur + n ≤ s.size) : s.curBytes n = .ok (s.rest.take n) := if_pos h

theorem addCurPos_ok (h : s.cur + n ≤ s.size) : s.addCurPos n = .ok (s.moved n) := if_pos h

theorem take_rest_length (h : s.cur + n ≤ s.size) : (s.rest.take n).length = n := by
  rw [List.length_take, rest_length]
  omega

end BytesStream

/-! ## Record headers -/

/-- The outcome of `PreparePbHeader`, with what it stores in its two arguments. -/
inductive PbHeader
  | ok (seq size : Nat)
  | needMore
  | bad
  deriving DecidableEq, Repr

namespace BytesStream

/-- `PreparePbHeader`. -/
def preparePbHeader (s : BytesStream) : Except Fault (PbHeader × BytesStream) := do
  if s.remainSize < 8 then
    return (.needMore, s)
  let head ← s.curBytes 8
  let seq := LittleEndian.decode (head.take 4)
  let size := LittleEndian.decode (head.drop 4)
  -- the top bit of either is the sign of an `int32_t`
  if 2 ^ 31 ≤ seq ∨ 2 ^ 31 ≤ size then
    return (.bad, s)
  if s.remainSize < 8 + size then
    return (.needMore, s)
  let s ← s.addCurPos 8
  return (.ok seq size, s)

/-- `ReadPbHeader`. -/
def readPbHeader (s : BytesStream) : Except Fault ((Nat × Nat) × BytesStream) := do
  match ← s.preparePbHeader with
  | (.ok seq size, s) => return ((seq, size), s)
  | _ => throw .parser

/-- `SkipPb`. -/
def skipPb (s : BytesStream) (size : Nat) : Except Fault BytesStream := do
  if s.remainSize < size then
    throw .parser
  s.addCurPos size

/-- What a header at the front of `b` says. -/
def headerOf (b : List UInt8) : PbHeader :=
  let seq := LittleEndian.decode (b.take 4)
  let size := LittleEndian.decode ((b.take 8).drop 4)
  if b.length < 8 then .needMore
  else if 2 ^ 31 ≤ seq ∨ 2 ^ 31 ≤ size then .bad
  else if b.length < 8 + size then .needMore
  else .ok seq size

/-- The cursor moves over a complete header and nowhere else. -/
def afterHeader (s : BytesStream) : PbHeader → BytesStream
  | .ok _ _ => s.moved 8
  | _ => s

/-- **`PreparePbHeader` reads what is at the cursor.** -/
theorem preparePbHeader_eq {s : BytesStream} (h : s.InBounds) :
    s.preparePbHeader = .ok (headerOf s.rest, s.afterHeader (headerOf s.rest)) := by
  have hrem := h.remainSize
  have hlen := s.rest_length
  simp only [preparePbHeader, headerOf, hrem, hlen]
  by_cases h8 : s.size - s.cur < 8
  · simp only [h8, ↓reduceIte]
    rfl
  · have hb : s.curBytes 8 = .ok (s.rest.take 8) := curBytes_ok (by omega)
    have ha : s.addCurPos 8 = .ok (s.moved 8) := addCurPos_ok (by omega)
    have htake : (s.rest.take 8).take 4 = s.rest.take 4 := by simp [List.take_take]
    simp only [h8, ↓reduceIte, hb, ha, htake, bind, Except.bind, pure, Except.pure]
    split
    · rfl
    · split
      · rfl
      · rfl

theorem headerOf_ok {b : List UInt8} {seq size : Nat} (h : headerOf b = .ok seq size) :
    seq < 2 ^ 31 ∧ size < 2 ^ 31 ∧ 8 + size ≤ b.length := by
  simp only [headerOf] at h
  split at h
  · cases h
  · split at h
    · cases h
    · split at h
      · cases h
      · rename_i h1 h2 h3
        injection h with hseq hsize
        subst hseq hsize
        omega

end BytesStream

/-! ## Scalars -/

/-- Where a read of a scalar leaves the stream and the variable it reads into, whether it returns or
throws. -/
abbrev ScalarRead := EStateM.Result Fault (BytesStream × Nat) Unit

/-- The part the two scalar reads share: the byte of a `bool` is looked at before the variable is
written, and the cursor moves last. -/
def loadFixed (f : Fixed) (s : BytesStream) (out : Nat) : ScalarRead :=
  match s.curBytes f.size with
  | .error e => .error e (s, out)
  | .ok raw =>
      let value := LittleEndian.decode raw
      if f = .bool ∧ 1 < value then .error .parser (s, out)
      else
        match s.addCurPos f.size with
        | .error e => .error e (s, value)
        | .ok s' => .ok () (s', value)

/-- `operator>>(T&)` for a scalar type. -/
def shiftFixed (f : Fixed) (s : BytesStream) (out : Nat) : ScalarRead :=
  if s.remainSize < f.size then .error .parser (s, out) else loadFixed f s out

/-- `ReadPb(uint32_t iSize, T&)` for a scalar type. -/
def readPbFixed (f : Fixed) (size : Nat) (s : BytesStream) (out : Nat) : ScalarRead :=
  if size ≠ f.size ∨ s.remainSize < size then .error .parser (s, out) else loadFixed f s out

/-- What a scalar read may do: throw and leave everything as it was, or store the scalar that stands
at the cursor, which for a `bool` is a byte 0 or 1. -/
def ScalarReads (f : Fixed) (s : BytesStream) (out : Nat) (r : ScalarRead) : Prop :=
  r = .error .parser (s, out) ∨
    (s.cur + f.size ≤ s.size ∧ f.valid (LittleEndian.decode (s.rest.take f.size)) = true ∧
      r = .ok () (s.moved f.size, LittleEndian.decode (s.rest.take f.size)))

variable {f : Fixed} {s : BytesStream}

theorem loadFixed_reads {out : Nat} (h : s.cur + f.size ≤ s.size) :
    ScalarReads f s out (loadFixed f s out) := by
  have hlt : LittleEndian.decode (s.rest.take f.size) < 256 ^ f.size := by
    have := LittleEndian.decode_lt (s.rest.take f.size)
    rwa [BytesStream.take_rest_length h] at this
  simp only [loadFixed, BytesStream.curBytes_ok h, BytesStream.addCurPos_ok h]
  by_cases hbool : f = .bool ∧ 1 < LittleEndian.decode (s.rest.take f.size)
  · rw [if_pos hbool]
    exact .inl rfl
  · rw [if_neg hbool]
    refine .inr ⟨h, ?_, rfl⟩
    simp only [Fixed.valid]
    split
    · rename_i hf
      simpa using fun hgt => hbool ⟨hf, hgt⟩
    · simpa using hlt

theorem shiftFixed_reads (h : s.InBounds) (out : Nat) :
    ScalarReads f s out (shiftFixed f s out) := by
  simp only [shiftFixed, h.remainSize]
  split
  · exact .inl rfl
  · exact loadFixed_reads (by have := h.1; omega)

theorem readPbFixed_reads (h : s.InBounds) (size out : Nat) :
    ScalarReads f s out (readPbFixed f size s out) := by
  simp only [readPbFixed, h.remainSize]
  split
  · exact .inl rfl
  · rename_i hsize
    exact loadFixed_reads (by have := h.1; omega)

end OpenIdea.Codec
