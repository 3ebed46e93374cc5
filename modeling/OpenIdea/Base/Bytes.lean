import Mathlib.Data.List.Basic
import Mathlib.Tactic.Ring

/-!
# Byte buffers (oi_bytes.cpp)

`Bytes` is one allocated block with the bytes in use somewhere inside it: an erase at the front only
moves the start, an append grows the block when the room behind the bytes is too small. `Bytes.data`
is the byte string a buffer stands for, and every operation is described by what it does to it.

An allocation can fail; the operations that allocate take that as an argument and return `none` for
`std::bad_alloc`. An append whose source lies in the buffer's own block copies the source first; as
a value the source is the same. An append is an append of the byte strings (`data_append`), an erase
takes bytes out of the middle (`data_erase`).
-/

set_option autoImplicit false

namespace OpenIdea.Base

/-- `SIZE_MAX`. -/
def SIZE_MAX : ℕ := 2 ^ 64 - 1

/-- `PTRDIFF_MAX`; `malloc` gives no larger block. -/
def PTRDIFF_MAX : ℕ := 2 ^ 63 - 1

/-- **A buffer.** The block is its list of bytes, so `m_iCapacity` is that list's length; no block
and a block of no bytes are the same. The bytes in use lie inside the block. -/
structure Bytes where
  m_pMemory : List UInt8
  m_iHead : ℕ
  m_iSize : ℕ
  /-- The bytes in use end inside the block. -/
  inside : m_iHead + m_iSize ≤ m_pMemory.length
  block : m_pMemory.length ≤ PTRDIFF_MAX

namespace Bytes

/-- The bytes in use, from `Data()`. -/
def data (b : Bytes) : List UInt8 := (b.m_pMemory.drop b.m_iHead).take b.m_iSize

/-- `Size()`. -/
def size (b : Bytes) : ℕ := b.m_iSize

@[simp] theorem length_data (b : Bytes) : b.data.length = b.size := by
  have hinside := b.inside
  rw [data, List.length_take, List.length_drop, size]
  omega

theorem data_eq_nil {b : Bytes} : b.data = [] ↔ b.size = 0 := by
  rw [← length_data, List.length_eq_zero_iff]

/-- The default constructor. -/
def empty : Bytes where
  m_pMemory := []
  m_iHead := 0
  m_iSize := 0
  inside := le_refl _
  block := Nat.zero_le _

/-! ## Room -/

/-- The capacity after the loop of `Grow`: doubled until it is enough. `fuel` bounds the rounds; a
positive capacity passes `SIZE_MAX / 2` within 64 of them. -/
def grownCapacity (iNeed : ℕ) : ℕ → ℕ → Option ℕ
  | 0, _ => none
  | fuel + 1, iCapacity =>
      if iCapacity > SIZE_MAX / 2 then none
      else if iCapacity * 2 < iNeed then grownCapacity iNeed fuel (iCapacity * 2)
      else some (iCapacity * 2)

theorem le_grownCapacity {iNeed fuel iCapacity n : ℕ}
    (h : grownCapacity iNeed fuel iCapacity = some n) : iNeed ≤ n := by
  induction fuel generalizing iCapacity with
  | zero => cases h
  | succ fuel ih =>
    rw [grownCapacity] at h
    obtain ⟨_, h⟩ := Option.ite_none_left_eq_some.1 h
    split at h
    · exact ih h
    · rename_i henough
      rw [← Option.some.inj h]
      exact Nat.le_of_not_lt henough

/-- The loop ends by itself: once the rounds lead past `SIZE_MAX`, more of them change nothing. -/
theorem grownCapacity_fuel {iNeed : ℕ} (fuel extra iCapacity : ℕ)
    (henough : SIZE_MAX < iCapacity * 2 ^ fuel) :
    grownCapacity iNeed (fuel + extra) iCapacity = grownCapacity iNeed fuel iCapacity := by
  induction fuel generalizing iCapacity with
  | zero =>
    cases extra with
    | zero => rfl
    | succ extra =>
      have hpast : iCapacity > SIZE_MAX / 2 := by
        rw [Nat.pow_zero, Nat.mul_one] at henough
        omega
      show grownCapacity iNeed (0 + extra + 1) iCapacity = none
      rw [grownCapacity, if_pos hpast]
  | succ fuel ih =>
    have hnext : SIZE_MAX < iCapacity * 2 * 2 ^ fuel := by
      rw [Nat.pow_succ] at henough
      rw [Nat.mul_assoc, Nat.mul_comm 2]
      exact henough
    rw [Nat.add_right_comm, grownCapacity, grownCapacity, ih _ hnext]

/-- What `Grow` gives: the same bytes, with room for `iNeed` from the head on. -/
abbrev Grown (b : Bytes) (iNeed : ℕ) : Type :=
  { b' : Bytes // b'.data = b.data ∧ b'.m_iSize = b.m_iSize ∧
    b'.m_iHead + iNeed ≤ b'.m_pMemory.length }

/-- The bytes in use moved to the front of a block `tail` follows. -/
def relocate (b : Bytes) (tail : List UInt8) (hblock : b.m_iSize + tail.length ≤ PTRDIFF_MAX) :
    Bytes where
  m_pMemory := b.data ++ tail
  m_iHead := 0
  m_iSize := b.m_iSize
  inside := by
    rw [Nat.zero_add, List.length_append, length_data]
    exact Nat.le_add_right _ _
  block := by
    rw [List.length_append, length_data]
    exact hblock

theorem data_relocate (b : Bytes) (tail : List UInt8)
    (hblock : b.m_iSize + tail.length ≤ PTRDIFF_MAX) : (b.relocate tail hblock).data = b.data := by
  show ((b.data ++ tail).drop 0).take b.m_iSize = b.data
  have hlen : b.m_iSize = b.data.length := b.length_data.symm
  rw [List.drop_zero, hlen, List.take_left]

/-- `Grow(iNeed)`: nothing where there is room, else the bytes move to the front of the block where
more than them has been erased there, else to a larger block, whose other bytes are not used. -/
def grow (b : Bytes) (bMalloc : Bool) (iNeed : ℕ) (hneed : b.m_iSize ≤ iNeed)
    (hrange : b.m_iHead + iNeed < 2 ^ 64) : Option (Grown b iNeed) :=
  if hroom : (b.m_iHead + iNeed) % 2 ^ 64 ≤ b.m_pMemory.length then
    some ⟨b, rfl, rfl, by rwa [Nat.mod_eq_of_lt hrange] at hroom⟩
  else if hmove : iNeed ≤ b.m_pMemory.length ∧ b.m_iHead ≥ b.m_iSize then
    have hlen : b.m_iSize + (b.m_pMemory.drop b.m_iSize).length = b.m_pMemory.length := by
      rw [List.length_drop]
      exact Nat.add_sub_cancel' (hneed.trans hmove.1)
    some ⟨b.relocate (b.m_pMemory.drop b.m_iSize) (hlen ▸ b.block), data_relocate _ _ _, rfl, by
      show 0 + iNeed ≤ (b.data ++ b.m_pMemory.drop b.m_iSize).length
      rw [Nat.zero_add, List.length_append, length_data, size, hlen]
      exact hmove.1⟩
  else
    match hgrown : grownCapacity iNeed 64
        (if b.m_pMemory.length = 0 then 32 else b.m_pMemory.length) with
    | none => none
    | some iCapacity =>
        if hmalloc : bMalloc ∧ iCapacity ≤ PTRDIFF_MAX then
          have hlen : b.m_iSize + (List.replicate (iCapacity - b.m_iSize) (0 : UInt8)).length =
              iCapacity := by
            rw [List.length_replicate]
            exact Nat.add_sub_cancel' (hneed.trans (le_grownCapacity hgrown))
          some ⟨b.relocate (List.replicate (iCapacity - b.m_iSize) 0)
              (le_of_eq_of_le hlen hmalloc.2), data_relocate _ _ _, rfl, by
            show 0 + iNeed ≤ (b.data ++ List.replicate (iCapacity - b.m_iSize) 0).length
            rw [Nat.zero_add, List.length_append, length_data, size, hlen]
            exact le_grownCapacity hgrown⟩
        else none

/-! ## The operations -/

/-- The block with `source` written at `offset`. -/
def overwrite (memory : List UInt8) (offset : ℕ) (source : List UInt8) : List UInt8 :=
  memory.take offset ++ source ++ memory.drop (offset + source.length)

theorem length_overwrite {memory source : List UInt8} {offset : ℕ}
    (hfits : offset + source.length ≤ memory.length) :
    (overwrite memory offset source).length = memory.length := by
  rw [overwrite, List.length_append, List.length_append, List.length_take, List.length_drop]
  omega

/-- `Append`, of another buffer's bytes. -/
def append (b : Bytes) (bMalloc : Bool) (stBytes : Bytes) : Option Bytes :=
  if stBytes.size = 0 then some b
  else if stBytes.size > SIZE_MAX - b.m_iSize then none
  else
    have hrange : b.m_iHead + (b.m_iSize + stBytes.size) < 2 ^ 64 := by
      have h₁ := b.inside
      have h₂ := b.block
      have h₃ := stBytes.inside
      have h₄ := stBytes.block
      have h₅ : PTRDIFF_MAX + PTRDIFF_MAX < 2 ^ 64 := by decide
      show b.m_iHead + (b.m_iSize + stBytes.m_iSize) < 2 ^ 64
      omega
    (b.grow bMalloc (b.m_iSize + stBytes.size) (Nat.le_add_right _ _) hrange).map
      fun (grown : Grown b (b.m_iSize + stBytes.size)) =>
      have hfits : grown.1.m_iHead + grown.1.m_iSize + stBytes.data.length ≤
          grown.1.m_pMemory.length := by
        rw [length_data, grown.2.2.1, Nat.add_assoc]
        exact grown.2.2.2
      { m_pMemory := overwrite grown.1.m_pMemory (grown.1.m_iHead + grown.1.m_iSize) stBytes.data
        m_iHead := grown.1.m_iHead
        m_iSize := grown.1.m_iSize + stBytes.size
        inside := by
          rw [length_overwrite hfits, ← Nat.add_assoc]
          exact le_of_eq_of_le (by rw [length_data]) hfits
        block := by
          rw [length_overwrite hfits]
          exact grown.1.block }

/-- **An append that does not fail puts the bytes behind those in use.** -/
theorem data_append {b b' stBytes : Bytes} {bMalloc : Bool}
    (happend : b.append bMalloc stBytes = some b') : b'.data = b.data ++ stBytes.data := by
  rw [append] at happend
  split at happend
  · rename_i hzero
    obtain rfl := Option.some.inj happend
    rw [data_eq_nil.2 hzero, List.append_nil]
  · obtain ⟨_, happend⟩ := Option.ite_none_left_eq_some.1 happend
    obtain ⟨⟨grown, hdata, hsize, hroom⟩, -, rfl⟩ := Option.map_eq_some_iff.1 happend
    show ((overwrite grown.m_pMemory (grown.m_iHead + grown.m_iSize) stBytes.data).drop
      grown.m_iHead).take (grown.m_iSize + stBytes.size) = b.data ++ stBytes.data
    have hinside := grown.inside
    rw [overwrite, List.append_assoc, List.drop_append_of_le_length, List.drop_take,
      Nat.add_sub_cancel_left, ← List.append_assoc]
    · show (grown.data ++ stBytes.data ++ _).take _ = _
      rw [List.take_append_of_le_length, List.take_of_length_le, hdata]
      · rw [List.length_append, length_data, length_data]
        exact le_refl _
      · rw [List.length_append, length_data, length_data]
        exact le_refl _
    · rw [List.length_take]
      omega

/-- The bytes from `iOffset` on, `iLength` of them, are taken out. At the front only the head moves.
-/
def eraseInside (b : Bytes) (iOffset iLength : ℕ) (hlast : iOffset + iLength ≤ b.m_iSize) : Bytes :=
  if iOffset = 0 then
    { b with
      m_iHead := if b.m_iSize - iLength = 0 then 0 else b.m_iHead + iLength
      m_iSize := b.m_iSize - iLength
      inside := by
        have hinside := b.inside
        split <;> omega }
  else
    have hfits : b.m_iHead + iOffset + (b.data.drop (iOffset + iLength)).length ≤
        b.m_pMemory.length := by
      have hinside := b.inside
      rw [List.length_drop, length_data, size]
      omega
    { b with
      m_pMemory := overwrite b.m_pMemory (b.m_iHead + iOffset) (b.data.drop (iOffset + iLength))
      m_iSize := b.m_iSize - iLength
      inside := by
        have hinside := b.inside
        rw [length_overwrite hfits]
        omega
      block := by
        rw [length_overwrite hfits]
        exact b.block }

/-- `Erase(iOffset, iLength)`: what lies beyond the end is not counted. -/
def erase (b : Bytes) (iOffset iLength : ℕ) : Bytes :=
  if hbeyond : iOffset > b.m_iSize then b
  else if min iLength (b.m_iSize - iOffset) = 0 then b
  else b.eraseInside iOffset (min iLength (b.m_iSize - iOffset)) (by omega)

theorem data_eraseInside (b : Bytes) {iOffset iLength : ℕ} (hlast : iOffset + iLength ≤ b.m_iSize) :
    (b.eraseInside iOffset iLength hlast).data =
      b.data.take iOffset ++ b.data.drop (iOffset + iLength) := by
  have hinside := b.inside
  rw [eraseInside]
  split
  · rename_i hzero
    subst hzero
    rw [List.take_zero, List.nil_append, Nat.zero_add]
    show (b.m_pMemory.drop (if b.m_iSize - iLength = 0 then 0 else b.m_iHead + iLength)).take
      (b.m_iSize - iLength) = ((b.m_pMemory.drop b.m_iHead).take b.m_iSize).drop iLength
    rw [List.drop_take, List.drop_drop]
    split
    · rename_i hall
      rw [hall, List.take_zero, List.take_zero]
    · rfl
  · show ((overwrite b.m_pMemory (b.m_iHead + iOffset) (b.data.drop (iOffset + iLength))).drop
      b.m_iHead).take (b.m_iSize - iLength) = _
    have hlen : (b.data.drop (iOffset + iLength)).length = b.m_iSize - (iOffset + iLength) := by
      rw [List.length_drop, length_data, size]
    have hfront : (b.m_pMemory.drop b.m_iHead).take iOffset = b.data.take iOffset := by
      rw [data, List.take_take, Nat.min_eq_left (by omega)]
    have hstart : (b.m_pMemory.take (b.m_iHead + iOffset)).drop b.m_iHead = b.data.take iOffset := by
      rw [List.drop_take, Nat.add_sub_cancel_left, hfront]
    have hkept : (b.data.take iOffset ++ b.data.drop (iOffset + iLength)).length =
        b.m_iSize - iLength := by
      rw [List.length_append, hlen, List.length_take, length_data, size]
      omega
    rw [overwrite, List.append_assoc, List.drop_append_of_le_length, hstart, ← List.append_assoc,
      ← hkept, List.take_left]
    rw [List.length_take]
    omega

/-- **An erase takes the bytes out of the middle.** -/
theorem data_erase (b : Bytes) {iOffset : ℕ} (hoffset : iOffset ≤ b.size) (iLength : ℕ) :
    (b.erase iOffset iLength).data = b.data.take iOffset ++ b.data.drop (iOffset + iLength) := by
  have hsize : b.m_iSize = b.data.length := b.length_data.symm
  have hoffset' : ¬ iOffset > b.m_iSize := Nat.not_lt.2 hoffset
  rw [erase, dif_neg hoffset']
  split
  · rename_i hnone
    -- nothing to erase: no length, or the offset is the end
    rcases Nat.le_total iLength (b.m_iSize - iOffset) with hle | hle
    · rw [Nat.min_eq_left hle] at hnone
      rw [hnone, Nat.add_zero, List.take_append_drop]
    · rw [Nat.min_eq_right hle] at hnone
      rw [List.take_of_length_le (by omega), List.drop_of_length_le (by omega), List.append_nil]
  · rw [data_eraseInside]
    rcases Nat.le_total iLength (b.m_iSize - iOffset) with hle | hle
    · rw [Nat.min_eq_left hle]
    · rw [Nat.min_eq_right hle]
      congr 1
      rw [List.drop_of_length_le (by omega), List.drop_of_length_le (by omega)]

/-- `Erase(0, iLength)`, what a write to the socket is followed by. -/
theorem data_erase_front (b : Bytes) (iLength : ℕ) :
    (b.erase 0 iLength).data = b.data.drop iLength := by
  rw [data_erase b (Nat.zero_le _), List.take_zero, List.nil_append, Nat.zero_add]

theorem size_erase_front (b : Bytes) (iLength : ℕ) :
    (b.erase 0 iLength).size = b.size - iLength := by
  rw [← length_data, data_erase_front, List.length_drop, length_data]

/-- `Clear()`. -/
def clear (b : Bytes) : Bytes :=
  { b with
    m_iHead := 0
    m_iSize := 0
    inside := Nat.zero_le _ }

@[simp] theorem data_clear (b : Bytes) : b.clear.data = [] := rfl

/-- `a.Swap(b)`: the two buffers, `a` first. -/
def swap (a b : Bytes) : Bytes × Bytes := (b, a)

end Bytes

end OpenIdea.Base
