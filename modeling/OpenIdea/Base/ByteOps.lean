import OpenIdea.Base.Bytes

/-!
# The operations of a byte buffer (oi_bytes.cpp)

Every operation of `Bytes` on its own block: what `malloc` answers and what it leaves in a new block
are arguments, an operation that throws says what it leaves of the buffer, and a copy that would go
past the block, or whose two ranges share a byte, is undefined.

A source may lie in the buffer's own block. Its bytes are read before anything is written, so the
operations take them as a list; where in the block they lie matters to the checks only. One lemma
for each operation says what it gives (`replace_gives`, `reserve_gives`, `commit_gives`);
`reserve_granted_iff` says when a buffer has the room it was asked for.
-/

set_option autoImplicit false

namespace OpenIdea.Base

/-- One answer of `malloc`: none, or what happens to be in the new block. -/
abbrev Answer : Type := Option (ℕ → UInt8)

/-- How an operation ends. -/
inductive Outcome where
  | returned (b : Bytes)
  /-- an exception, with what it leaves of the buffer -/
  | thrown (b : Bytes)
  | undefined

/-- A copy that is undefined where it does not fit. -/
def Outcome.of : Option Bytes → Outcome
  | some b => .returned b
  | none => .undefined

/-- The operation returns with bytes in use as described, or throws and leaves the bytes in use. -/
def Outcome.Gives (o : Outcome) (before : List UInt8) (after : List UInt8 → Prop) : Prop :=
  (∃ b, o = .returned b ∧ after b.data) ∨ ∃ b, o = .thrown b ∧ b.data = before

namespace Bytes

/-- `Capacity()`. -/
def capacity (b : Bytes) : ℕ := b.m_pMemory.length - b.m_iHead

/-! ## Copies -/

/-- The bytes from place `iPlace` of the block on are written; none is outside of the block. -/
def copyTo (b : Bytes) (iPlace : ℕ) (source : List UInt8) : Option Bytes :=
  if hfits : iPlace + source.length ≤ b.m_pMemory.length then
    some
      { b with
        m_pMemory := overwrite b.m_pMemory iPlace source
        inside := by
          rw [length_overwrite hfits]
          exact b.inside
        block := by
          rw [length_overwrite hfits]
          exact b.block }
  else none

/-- `m_iSize` is set; none is past the end of the block. -/
def withSize (b : Bytes) (iSize : ℕ) : Option Bytes :=
  if hfits : b.m_iHead + iSize ≤ b.m_pMemory.length then
    some { b with m_iSize := iSize, inside := hfits }
  else none

/-! ## Growing -/

/-- `Grow`. The first sum is one of two `size_t`; none is `std::bad_alloc`, which leaves the buffer
as it is. -/
def growWith (b : Bytes) (malloc : Answer) (iNeed : ℕ) : Option Bytes :=
  if (b.m_iHead + iNeed) % 2 ^ 64 ≤ b.m_pMemory.length then some b
  else if iNeed ≤ b.m_pMemory.length ∧ b.m_iHead ≥ b.m_iSize then
    some (b.relocate (b.m_pMemory.drop b.m_iSize) (by
      have hinside := b.inside
      have hblock := b.block
      rw [List.length_drop]
      omega))
  else
    match grownCapacity iNeed 64 (if b.m_pMemory.length = 0 then 32 else b.m_pMemory.length) with
    | none => none
    | some iCapacity =>
        match malloc with
        | none => none
        | some bytes =>
            if hmalloc : iCapacity ≤ PTRDIFF_MAX then
              some (b.relocate ((List.range (iCapacity - b.m_iSize)).map bytes) (by
                have hinside := b.inside
                have hblock := b.block
                rw [List.length_map, List.length_range]
                omega))
            else none

/-- `Grow`, then the bytes at the start, then `m_iSize`. -/
def fill (b : Bytes) (malloc : Answer) (source : List UInt8) : Outcome :=
  match b.growWith malloc source.length with
  | none => .thrown b
  | some b => .of ((b.copyTo b.m_iHead source).bind fun b => b.withSize source.length)

/-! ## Construction and assignment -/

/-- `Bytes(pData, iLength)`; an exception leaves no buffer. -/
def construct (malloc : Answer) (source : List UInt8) : Outcome :=
  if source.length = 0 then .returned empty else empty.fill malloc source

/-- `Bytes(const Bytes&)`. -/
def copyOf (malloc : Answer) (stOther : Bytes) : Outcome :=
  if stOther.m_iSize > 0 then empty.fill malloc stOther.data else .returned empty

/-- `operator=(const Bytes&)` of another buffer. -/
def assign (b : Bytes) (malloc : Answer) (stOther : Bytes) : Outcome :=
  if stOther.m_iSize > 0 then b.clear.fill malloc stOther.data else .returned b.clear

/-! ## Writing -/

/-- `Append` of a source outside of the block, once the checks have passed. -/
def appendOutside (b : Bytes) (malloc : Answer) (source : List UInt8) : Outcome :=
  match b.growWith malloc (b.m_iSize + source.length) with
  | none => .thrown b
  | some b =>
      .of ((b.copyTo (b.m_iHead + b.m_iSize) source).bind fun b =>
        b.withSize (b.m_iSize + source.length))

/-- `Append`; a source in the own block is copied first. -/
def appendFrom (b : Bytes) (stCopy malloc : Answer) (bOverlaps : Bool) (source : List UInt8) :
    Outcome :=
  if source.length = 0 then .returned b
  else if source.length > SIZE_MAX - b.m_iSize then .thrown b
  else if bOverlaps then
    match construct stCopy source with
    | .returned copied => b.appendOutside malloc copied.data
    | .thrown _ => .thrown b
    | .undefined => .undefined
  else b.appendOutside malloc source

/-- The front of the block that has been erased is taken back. -/
def takeBack (b : Bytes) (iLength : ℕ) (h : iLength ≤ b.m_iHead) : Bytes :=
  { b with
    m_iHead := b.m_iHead - iLength
    m_iSize := b.m_iSize + iLength
    inside := by
      have hinside := b.inside
      omega }

/-- `Insert` of a source outside of the block, once the checks have passed. -/
def insertOutside (b : Bytes) (iOffset : ℕ) (malloc : Answer) (source : List UInt8) : Outcome :=
  if h : iOffset = 0 ∧ b.m_iHead ≥ source.length then
    .of ((b.takeBack source.length h.2).copyTo (b.m_iHead - source.length) source)
  else
    match b.growWith malloc (b.m_iSize + source.length) with
    | none => .thrown b
    | some b =>
        -- `memmove` of the bytes behind the offset, then `memcpy`
        .of ((b.copyTo (b.m_iHead + iOffset + source.length) (b.data.drop iOffset)).bind fun b =>
          (b.copyTo (b.m_iHead + iOffset) source).bind fun b =>
            b.withSize (b.m_iSize + source.length))

/-- `Insert`; a source in the own block is copied first. -/
def insert (b : Bytes) (iOffset : ℕ) (stCopy malloc : Answer) (bOverlaps : Bool)
    (source : List UInt8) : Outcome :=
  if iOffset ≥ b.m_iSize then b.appendFrom stCopy malloc bOverlaps source
  else if source.length = 0 then .returned b
  else if source.length > SIZE_MAX - b.m_iSize then .thrown b
  else if bOverlaps then
    match construct stCopy source with
    | .returned copied => b.insertOutside iOffset malloc copied.data
    | .thrown _ => .thrown b
    | .undefined => .undefined
  else b.insertOutside iOffset malloc source

/-- The two ranges of `Replace`'s `memcpy` share a byte; `place` is where in the block the source
lies. -/
def Clash (b : Bytes) (iOffset : ℕ) (place : Option ℕ) (iLength : ℕ) : Prop :=
  ∃ p ∈ place, p < b.m_iHead + iOffset + iLength ∧ b.m_iHead + iOffset < p + iLength

instance (b : Bytes) (iOffset : ℕ) (place : Option ℕ) (iLength : ℕ) :
    Decidable (b.Clash iOffset place iLength) :=
  inferInstanceAs (Decidable (∃ p ∈ place, _))

/-- `Replace`. What goes past the end is cut off; it does not ask whether the source overlaps. -/
def replace (b : Bytes) (iOffset : ℕ) (place : Option ℕ) (source : List UInt8) : Outcome :=
  let source := source.take (b.m_iSize - iOffset)
  if source.length = 0 then .returned b
  else if b.Clash iOffset place source.length then .undefined
  else .of (b.copyTo (b.m_iHead + iOffset) source)

/-! ## Sizes -/

/-- `Reserve`. -/
def reserve (b : Bytes) (malloc : Answer) (iSize : ℕ) : Outcome :=
  match b.growWith malloc iSize with
  | none => .thrown b
  | some b =>
      .returned
        { b with
          m_iHead := if min b.m_iSize iSize = 0 then 0 else b.m_iHead
          m_iSize := min b.m_iSize iSize
          inside := by
            have hinside := b.inside
            split <;> omega }

/-- `Commit`. -/
def commit (b : Bytes) (iNumber : ℕ) : Outcome :=
  if iNumber > b.capacity - b.m_iSize then .thrown b else .of (b.withSize (b.m_iSize + iNumber))

/-- `Erase` at an offset that may be negative, as its overloads for `int` and for a pointer take. -/
def eraseAt (b : Bytes) (iOffset : ℤ) (iLength : ℕ) : Bytes :=
  if 0 ≤ iOffset then b.erase iOffset.toNat iLength else b

/-! ## What is written -/

variable {iNeed k : ℕ} {memory : List UInt8} {b : Bytes}

theorem drop_overwrite {source : List UInt8} {iHead : ℕ} (h : iHead ≤ memory.length) :
    (overwrite memory (iHead + k) source).drop iHead = overwrite (memory.drop iHead) k source := by
  rw [overwrite, overwrite, List.append_assoc, List.append_assoc, List.drop_append,
    List.drop_take, List.drop_drop, List.length_take, Nat.add_sub_cancel_left, Nat.add_assoc]
  have hzero : iHead - min (iHead + k) memory.length = 0 := by omega
  rw [hzero, List.drop_zero]

theorem take_overwrite {source : List UInt8} (h : k ≤ memory.length) :
    (overwrite memory k source).take (k + source.length) = memory.take k ++ source := by
  have hlen : (memory.take k ++ source).length = k + source.length := by
    rw [List.length_append, List.length_take, Nat.min_eq_left h]
  rw [overwrite, ← hlen, List.take_left]

theorem take_overwrite_front {source : List UInt8} {n : ℕ} (h : k ≤ memory.length) (hn : n ≤ k) :
    (overwrite memory k source).take n = memory.take n := by
  rw [overwrite, List.append_assoc, List.take_append_of_le_length, List.take_take,
    Nat.min_eq_left hn]
  rw [List.length_take]
  omega

theorem drop_overwrite_back {source : List UInt8} (h : k ≤ memory.length) :
    (overwrite memory k source).drop k = source ++ memory.drop (k + source.length) := by
  rw [overwrite, List.append_assoc, List.drop_left' (List.length_take_of_le h)]

/-- What `copyTo` does inside the block. -/
theorem copyTo_spec {b : Bytes} {iPlace : ℕ} {source : List UInt8}
    (h : iPlace + source.length ≤ b.m_pMemory.length) :
    ∃ b', b.copyTo iPlace source = some b' ∧ b'.m_pMemory = overwrite b.m_pMemory iPlace source ∧
      b'.m_pMemory.length = b.m_pMemory.length ∧ b'.m_iHead = b.m_iHead ∧ b'.m_iSize = b.m_iSize := by
  rw [copyTo, dif_pos h]
  exact ⟨_, rfl, rfl, length_overwrite h, rfl, rfl⟩

theorem withSize_spec {iSize : ℕ} (h : b.m_iHead + iSize ≤ b.m_pMemory.length) :
    ∃ b', b.withSize iSize = some b' ∧ b'.data = (b.m_pMemory.drop b.m_iHead).take iSize := by
  rw [withSize, dif_pos h]
  exact ⟨_, rfl, rfl⟩

variable {malloc : Answer} {iOffset : ℕ}

/-- `Grow` keeps the bytes and makes room, unless the sum of head and need wraps. -/
theorem growWith_spec {g : Bytes} (h : b.growWith malloc iNeed = some g) :
    g.data = b.data ∧ g.m_iSize = b.m_iSize ∧
      (b.m_iHead + iNeed < 2 ^ 64 → g.m_iHead + iNeed ≤ g.m_pMemory.length) := by
  rw [growWith] at h
  split at h
  · rename_i hroom
    obtain rfl := Option.some.inj h
    exact ⟨rfl, rfl, fun hrange => by rwa [Nat.mod_eq_of_lt hrange] at hroom⟩
  · split at h
    · rename_i hmove
      obtain rfl := Option.some.inj h
      refine ⟨data_relocate _ _ _, rfl, fun _ => ?_⟩
      show 0 + iNeed ≤ (b.data ++ b.m_pMemory.drop b.m_iSize).length
      rw [List.length_append, length_data, List.length_drop, size]
      omega
    · split at h
      · cases h
      · rename_i iCapacity hgrown
        cases malloc with
        | none => cases h
        | some bytes =>
          dsimp only at h
          split at h
          · obtain rfl := Option.some.inj h
            refine ⟨data_relocate _ _ _, rfl, fun _ => ?_⟩
            show 0 + iNeed ≤ (b.data ++ (List.range (iCapacity - b.m_iSize)).map bytes).length
            have henough := le_grownCapacity hgrown
            rw [List.length_append, length_data, List.length_map, List.length_range, size]
            omega
          · cases h

/-- Where the sum wraps, `Grow` takes it for small and does nothing. -/
theorem growWith_wraps (malloc : Answer) (hneed : iNeed ≤ SIZE_MAX)
    (hwraps : 2 ^ 64 ≤ b.m_iHead + iNeed) : b.growWith malloc iNeed = some b := by
  have hinside := b.inside
  have hblock := b.block
  have hmax : SIZE_MAX + 1 = 2 ^ 64 := rfl
  have hptr : PTRDIFF_MAX < 2 ^ 64 := by decide
  have hmod : (b.m_iHead + iNeed) % 2 ^ 64 = b.m_iHead + iNeed - 2 ^ 64 := by omega
  rw [growWith, if_pos]
  omega

/-! ## What the operations do -/

/-- The bytes from the head on, as far as the block goes. -/
def window (b : Bytes) : List UInt8 := b.m_pMemory.drop b.m_iHead

theorem length_window (b : Bytes) : b.window.length = b.capacity := by
  rw [window, List.length_drop, capacity]

theorem size_le_window (b : Bytes) : b.m_iSize ≤ b.window.length := by
  have hinside := b.inside
  rw [length_window, capacity]
  omega

theorem data_eq_window (b : Bytes) : b.data = b.window.take b.m_iSize := rfl

/-- A copy at `iOffset` from the head on. -/
theorem copyTo_window {b : Bytes} {iOffset : ℕ} {source : List UInt8}
    (h : iOffset + source.length ≤ b.window.length) :
    ∃ b', b.copyTo (b.m_iHead + iOffset) source = some b' ∧
      b'.window = overwrite b.window iOffset source ∧ b'.m_iHead = b.m_iHead ∧
      b'.m_iSize = b.m_iSize := by
  have hinside := b.inside
  rw [length_window, capacity] at h
  obtain ⟨b', hcopy, hmemory, hlength, hhead, hsize⟩ :=
    @copyTo_spec b (b.m_iHead + iOffset) source (by omega)
  refine ⟨b', hcopy, ?_, hhead, hsize⟩
  rw [window, hmemory, hhead, drop_overwrite (by omega)]
  rfl

theorem withSize_window {b : Bytes} {iSize : ℕ} (h : iSize ≤ b.window.length) :
    ∃ b', b.withSize iSize = some b' ∧ b'.data = b.window.take iSize := by
  have hinside := b.inside
  rw [length_window, capacity] at h
  exact withSize_spec (by omega)

/-- `Grow` for a sum that does not wrap. -/
theorem growWith_window {g : Bytes} (h : b.growWith malloc iNeed = some g)
    (hrange : b.m_iHead + iNeed < 2 ^ 64) :
    g.data = b.data ∧ g.m_iSize = b.m_iSize ∧ iNeed ≤ g.window.length := by
  obtain ⟨hdata, hsize, hroom⟩ := growWith_spec h
  have hfits := hroom hrange
  refine ⟨hdata, hsize, ?_⟩
  rw [length_window, capacity]
  omega

/-- A block and a source are too small for their sizes to wrap. -/
theorem no_wrap (b : Bytes) {iLength : ℕ} (h : iLength ≤ PTRDIFF_MAX) :
    b.m_iHead + (b.m_iSize + iLength) < 2 ^ 64 ∧ ¬ iLength > SIZE_MAX - b.m_iSize := by
  have hinside := b.inside
  have hblock := b.block
  have hptr : PTRDIFF_MAX + PTRDIFF_MAX < SIZE_MAX := by decide
  have hmax : SIZE_MAX + 1 = 2 ^ 64 := rfl
  constructor
  · omega
  · omega

theorem fill_gives (hempty : b.m_iSize = 0) (malloc : Answer) {source : List UInt8}
    (hlen : source.length ≤ PTRDIFF_MAX) : (b.fill malloc source).Gives b.data (· = source) := by
  have hrange := (b.no_wrap hlen).1
  rw [hempty, Nat.zero_add] at hrange
  rw [fill]
  cases hgrow : b.growWith malloc source.length with
  | none => exact Or.inr ⟨b, rfl, rfl⟩
  | some g =>
    obtain ⟨-, -, hroom⟩ := growWith_window hgrow hrange
    obtain ⟨g₁, hcopy, hwindow, -, -⟩ := @copyTo_window g 0 source (by omega)
    have hlen₁ : g₁.window.length = g.window.length := by
      rw [hwindow, length_overwrite (by omega)]
    obtain ⟨g₂, hsize, hdata⟩ := @withSize_window g₁ source.length (by omega)
    refine Or.inl ⟨g₂, ?_, ?_⟩
    · show Outcome.of ((g.copyTo (g.m_iHead + 0) source).bind _) = _
      rw [hcopy, Option.bind_some, hsize]
      rfl
    · rw [hdata, hwindow, overwrite, List.take_zero, List.nil_append, List.take_left]

theorem construct_gives (malloc : Answer) {source : List UInt8}
    (hlen : source.length ≤ PTRDIFF_MAX) : (construct malloc source).Gives [] (· = source) := by
  rw [construct]
  split
  · rename_i hzero
    exact Or.inl ⟨empty, rfl, (List.length_eq_zero_iff.1 hzero).symm⟩
  · exact fill_gives rfl malloc hlen

theorem length_data_le (b : Bytes) : b.data.length ≤ PTRDIFF_MAX := by
  have hinside := b.inside
  have hblock := b.block
  rw [length_data, size]
  omega

theorem copyOf_gives (malloc : Answer) (stOther : Bytes) :
    (copyOf malloc stOther).Gives [] (· = stOther.data) := by
  rw [copyOf]
  split
  · exact fill_gives rfl malloc stOther.length_data_le
  · rename_i hzero
    exact Or.inl ⟨empty, rfl, (data_eq_nil.2 (Nat.eq_zero_of_not_pos hzero)).symm⟩

/-- A copy assignment that throws leaves the buffer empty. -/
theorem assign_gives (b : Bytes) (malloc : Answer) (stOther : Bytes) :
    (b.assign malloc stOther).Gives [] (· = stOther.data) := by
  rw [assign]
  split
  · exact fill_gives rfl malloc stOther.length_data_le
  · rename_i hzero
    exact Or.inl ⟨b.clear, rfl, (data_eq_nil.2 (Nat.eq_zero_of_not_pos hzero)).symm⟩

theorem appendOutside_gives (b : Bytes) (malloc : Answer) {source : List UInt8}
    (hlen : source.length ≤ PTRDIFF_MAX) :
    (b.appendOutside malloc source).Gives b.data (· = b.data ++ source) := by
  rw [appendOutside]
  cases hgrow : b.growWith malloc (b.m_iSize + source.length) with
  | none => exact Or.inr ⟨b, rfl, rfl⟩
  | some g =>
    obtain ⟨hdata, hsize, hroom⟩ := growWith_window hgrow (b.no_wrap hlen).1
    have hle := g.size_le_window
    obtain ⟨g₁, hcopy, hwindow, -, hsize₁⟩ := @copyTo_window g g.m_iSize source (by omega)
    have hlen₁ : g₁.window.length = g.window.length := by
      rw [hwindow, length_overwrite (by omega)]
    obtain ⟨g₂, hgrown, hdata₂⟩ := @withSize_window g₁ (g₁.m_iSize + source.length) (by omega)
    refine Or.inl ⟨g₂, ?_, ?_⟩
    · show Outcome.of ((g.copyTo (g.m_iHead + g.m_iSize) source).bind _) = _
      rw [hcopy, Option.bind_some, hgrown]
      rfl
    · rw [hdata₂, hwindow, hsize₁, take_overwrite hle, ← data_eq_window, hdata]

/-- A source in the own block is copied before it is used. -/
theorem copied_gives {stCopy : Answer} {source : List UInt8} (hlen : source.length ≤ PTRDIFF_MAX)
    {b : Bytes} {after : List UInt8 → Prop} {use : List UInt8 → Outcome}
    (huse : (use source).Gives b.data after) :
    Outcome.Gives (match construct stCopy source with
      | .returned copied => use copied.data
      | .thrown _ => .thrown b
      | .undefined => .undefined) b.data after := by
  rcases construct_gives stCopy hlen with ⟨copied, hc, hdata⟩ | ⟨e, hc, -⟩
  · rw [hc]
    dsimp only
    rw [hdata]
    exact huse
  · rw [hc]
    exact Or.inr ⟨b, rfl, rfl⟩

theorem appendFrom_gives (b : Bytes) (stCopy malloc : Answer) (bOverlaps : Bool)
    {source : List UInt8} (hlen : source.length ≤ PTRDIFF_MAX) :
    (b.appendFrom stCopy malloc bOverlaps source).Gives b.data (· = b.data ++ source) := by
  rw [appendFrom]
  split
  · rename_i hzero
    rw [List.length_eq_zero_iff.1 hzero, List.append_nil]
    exact Or.inl ⟨b, rfl, rfl⟩
  · rw [if_neg (b.no_wrap hlen).2]
    split
    · exact @copied_gives stCopy source hlen b _ (b.appendOutside malloc)
        (b.appendOutside_gives malloc hlen)
    · exact b.appendOutside_gives malloc hlen

theorem insertOutside_gives (b : Bytes) (hoffset : iOffset ≤ b.m_iSize) (malloc : Answer)
    {source : List UInt8} (hlen : source.length ≤ PTRDIFF_MAX) :
    (b.insertOutside iOffset malloc source).Gives b.data
      (· = b.data.take iOffset ++ source ++ b.data.drop iOffset) := by
  rw [insertOutside]
  split
  · -- the source fits before the head
    rename_i hfront
    obtain ⟨rfl, hroom⟩ := hfront
    have hinside := b.inside
    obtain ⟨b', hcopy, hmemory, -, hhead, hsize⟩ :=
      @copyTo_spec (b.takeBack source.length hroom) (b.m_iHead - source.length) source (by
        show b.m_iHead - source.length + source.length ≤ b.m_pMemory.length
        omega)
    refine Or.inl ⟨b', by rw [hcopy]; rfl, ?_⟩
    have hdrop : (overwrite b.m_pMemory (b.m_iHead - source.length) source).drop
        (b.m_iHead - source.length) = source ++ b.m_pMemory.drop b.m_iHead := by
      rw [drop_overwrite_back (by omega), Nat.sub_add_cancel hroom]
    have htake : b'.data = (source ++ b.m_pMemory.drop b.m_iHead).take (b.m_iSize + source.length) := by
      rw [← hdrop, data, hmemory, hhead, hsize]
      rfl
    rw [htake, List.take_zero, List.nil_append, List.drop_zero, List.take_append,
      List.take_of_length_le (by omega), Nat.add_sub_cancel]
    rfl
  · cases hgrow : b.growWith malloc (b.m_iSize + source.length) with
    | none => exact Or.inr ⟨b, rfl, rfl⟩
    | some g =>
      obtain ⟨hdata, hsize, hroom⟩ := growWith_window hgrow (b.no_wrap hlen).1
      have hle := g.size_le_window
      have htail : (g.data.drop iOffset).length = g.m_iSize - iOffset := by
        rw [List.length_drop, length_data, size]
      obtain ⟨g₁, hmove, hwindow₁, hhead₁, hsize₁⟩ :=
        @copyTo_window g (iOffset + source.length) (g.data.drop iOffset) (by omega)
      have hlen₁ : g₁.window.length = g.window.length := by
        rw [hwindow₁, length_overwrite (by omega)]
      obtain ⟨g₂, hcopy, hwindow₂, -, hsize₂⟩ := @copyTo_window g₁ iOffset source (by omega)
      have hlen₂ : g₂.window.length = g₁.window.length := by
        rw [hwindow₂, length_overwrite (by omega)]
      obtain ⟨g₃, hgrown, hdata₃⟩ := @withSize_window g₂ (g₂.m_iSize + source.length) (by omega)
      refine Or.inl ⟨g₃, ?_, ?_⟩
      · dsimp only
        rw [Nat.add_assoc g.m_iHead, hmove, Option.bind_some, hcopy, Option.bind_some, hgrown]
        rfl
      · have hback : g₁.window.drop (iOffset + source.length) =
            g.data.drop iOffset ++ g.window.drop (g.m_iSize + source.length) := by
          rw [hwindow₁, drop_overwrite_back (by omega), htail]
          congr 2
          omega
        have hfront : g₁.window.take iOffset = g.data.take iOffset := by
          rw [hwindow₁, take_overwrite_front (by omega) (Nat.le_add_right _ _), data_eq_window,
            List.take_take, Nat.min_eq_left (by omega)]
        have hall : (g.data.take iOffset ++ source ++ g.data.drop iOffset).length =
            g₂.m_iSize + source.length := by
          rw [List.length_append, List.length_append, htail, List.length_take, length_data, size]
          omega
        rw [hdata₃, hwindow₂, overwrite, hback, hfront, ← List.append_assoc, ← hall,
          List.take_left, hdata]

theorem insert_gives (b : Bytes) (hoffset : iOffset ≤ b.m_iSize) (stCopy malloc : Answer)
    (bOverlaps : Bool) {source : List UInt8} (hlen : source.length ≤ PTRDIFF_MAX) :
    (b.insert iOffset stCopy malloc bOverlaps source).Gives b.data
      (· = b.data.take iOffset ++ source ++ b.data.drop iOffset) := by
  rw [insert]
  split
  · have hall : b.data.length ≤ iOffset := by
      rw [length_data, size]
      assumption
    rw [List.take_of_length_le hall, List.drop_of_length_le hall, List.append_nil]
    exact b.appendFrom_gives stCopy malloc bOverlaps hlen
  · split
    · rename_i hzero
      rw [List.length_eq_zero_iff.1 hzero, List.append_nil, List.take_append_drop]
      exact Or.inl ⟨b, rfl, rfl⟩
    · rw [if_neg (b.no_wrap hlen).2]
      split
      · exact @copied_gives stCopy source hlen b _ (b.insertOutside iOffset malloc)
          (b.insertOutside_gives hoffset malloc hlen)
      · exact b.insertOutside_gives hoffset malloc hlen

/-- `Replace` of a range inside the bytes in use, from a source that has no byte in it. -/
theorem replace_gives (b : Bytes) {source : List UInt8}
    (hfits : iOffset + source.length ≤ b.m_iSize) {place : Option ℕ}
    (hclash : ¬ b.Clash iOffset place source.length) :
    (b.replace iOffset place source).Gives b.data
      (· = b.data.take iOffset ++ source ++ b.data.drop (iOffset + source.length)) := by
  have hwhole : source.take (b.m_iSize - iOffset) = source :=
    List.take_of_length_le (by omega)
  rw [replace, hwhole, if_neg hclash]
  split
  · rename_i hzero
    rw [List.length_eq_zero_iff.1 hzero, List.append_nil, List.length_nil, Nat.add_zero,
      List.take_append_drop]
    exact Or.inl ⟨b, rfl, rfl⟩
  · have hle := b.size_le_window
    obtain ⟨b', hcopy, hwindow, -, hsize⟩ := @copyTo_window b iOffset source (by omega)
    refine Or.inl ⟨b', by rw [hcopy]; rfl, ?_⟩
    have hfront : b.window.take iOffset = b.data.take iOffset := by
      rw [data_eq_window, List.take_take, Nat.min_eq_left (by omega)]
    have hlenf : (b.data.take iOffset ++ source).length = iOffset + source.length := by
      rw [List.length_append, List.length_take, length_data, size]
      omega
    show b'.data = _
    rw [data_eq_window, hwindow, hsize, overwrite, hfront, List.take_append, hlenf,
      List.take_of_length_le (by omega), data_eq_window b, List.drop_take]

/-- `Reserve` cuts the bytes in use off at `iSize`. -/
theorem reserve_gives (b : Bytes) (malloc : Answer) (iSize : ℕ) :
    (b.reserve malloc iSize).Gives b.data (· = b.data.take iSize) := by
  rw [reserve]
  cases hgrow : b.growWith malloc iSize with
  | none => exact Or.inr ⟨b, rfl, rfl⟩
  | some g =>
    obtain ⟨hdata, -, -⟩ := growWith_spec hgrow
    refine Or.inl ⟨_, rfl, ?_⟩
    rw [← hdata, data, data, List.take_take, Nat.min_comm]
    dsimp only
    split
    · rename_i hzero
      rw [hzero, List.take_zero, List.take_zero]
    · rfl

/-- `Reserve` gives the room it is asked for unless the sum of the head and the size wraps. -/
theorem reserve_granted_iff {b' : Bytes} {iSize : ℕ} (h : b.reserve malloc iSize = .returned b') :
    iSize ≤ b'.capacity ↔ b.m_iHead + iSize < 2 ^ 64 := by
  constructor
  · intro hroom
    by_contra hwraps
    -- the block is as it was, and no block is that large
    have hinside := b.inside
    have hblock := b'.block
    have hbefore := b.block
    have hptr : PTRDIFF_MAX + PTRDIFF_MAX < 2 ^ 64 := by decide
    rw [capacity] at hroom
    omega
  · intro hrange
    rw [reserve] at h
    cases hgrow : b.growWith malloc iSize with
    | none =>
      rw [hgrow] at h
      cases h
    | some g =>
      rw [hgrow] at h
      obtain rfl := Outcome.returned.inj h
      have hroom := (growWith_spec hgrow).2.2 hrange
      show iSize ≤ g.m_pMemory.length - if min g.m_iSize iSize = 0 then 0 else g.m_iHead
      split
      · omega
      · omega

/-- `Commit` after `written` has been written at `End()`. -/
theorem commit_gives (b : Bytes) {written : List UInt8}
    (hfits : written.length ≤ b.capacity - b.m_iSize) (iNumber : ℕ) :
    ∃ b', b.copyTo (b.m_iHead + b.m_iSize) written = some b' ∧
      (b'.commit iNumber).Gives b.data fun bytes => ∃ tail, tail.length = iNumber ∧
        tail.take written.length = written.take iNumber ∧ bytes = b.data ++ tail := by
  have hle := b.size_le_window
  rw [← length_window] at hfits
  obtain ⟨b₁, hcopy, hwindow, -, hsize⟩ := @copyTo_window b b.m_iSize written (by omega)
  have hlen : b₁.window.length = b.window.length := by
    rw [hwindow, length_overwrite (by omega)]
  have hfront : b₁.window.take b.m_iSize = b.data := by
    rw [hwindow, take_overwrite_front hle (le_refl _), data_eq_window]
  have hback : b₁.window.drop b.m_iSize = written ++ b.window.drop (b.m_iSize + written.length) := by
    rw [hwindow, drop_overwrite_back hle]
  refine ⟨b₁, hcopy, ?_⟩
  rw [commit]
  split
  · refine Or.inr ⟨b₁, rfl, ?_⟩
    rw [data_eq_window, hsize, hfront]
  · rename_i hroom
    rw [← length_window] at hroom
    obtain ⟨b₂, hgrown, hdata⟩ := @withSize_window b₁ (b₁.m_iSize + iNumber) (by omega)
    refine Or.inl ⟨b₂, by rw [hgrown]; rfl, (b₁.window.drop b.m_iSize).take iNumber, ?_, ?_, ?_⟩
    · rw [List.length_take, List.length_drop]
      omega
    · rw [List.take_take, Nat.min_comm, ← List.take_take, hback, List.take_left]
    · rw [hdata, List.take_add, hsize, hfront]

/-! ## The operations of the send queues -/

/-- `Grow` of the send queues: the bytes that happen to be in a new block are taken to be zeros. -/
theorem growWith_eq_grow (b : Bytes) (bMalloc : Bool) (hneed : b.m_iSize ≤ iNeed)
    (hrange : b.m_iHead + iNeed < 2 ^ 64) :
    b.growWith (if bMalloc then some fun _ => 0 else none) iNeed =
      (b.grow bMalloc iNeed hneed hrange).map Subtype.val := by
  have hzeros : ∀ n : ℕ, (List.range n).map (fun _ => (0 : UInt8)) = List.replicate n 0 := by
    intro n
    rw [List.map_const', List.length_range]
  rw [grow, growWith]
  split
  · rfl
  · split
    · rfl
    · split
      · rename_i hnone
        split
        · rfl
        · rename_i hsome
          cases hnone.symm.trans hsome
      · rename_i iCapacity hsome
        cases bMalloc with
        | false =>
          simp only [Bool.false_eq_true, false_and, dite_false, if_false]
          split
          · rfl
          · rfl
        | true =>
          simp only [true_and, if_true]
          by_cases hmalloc : iCapacity ≤ PTRDIFF_MAX
          · rw [dif_pos hmalloc]
            split
            · rename_i hnone
              cases hsome.symm.trans hnone
            · rename_i iCapacity' hsome'
              obtain rfl := Option.some.inj (hsome.symm.trans hsome')
              rw [dif_pos hmalloc, Option.map_some]
              simp only [hzeros]
          · rw [dif_neg hmalloc]
            split
            · rfl
            · rename_i iCapacity' hsome'
              obtain rfl := Option.some.inj (hsome.symm.trans hsome')
              rw [dif_neg hmalloc, Option.map_none]

/-- `Append` of another buffer's bytes. -/
theorem appendFrom_eq_append (b stBytes : Bytes) (stCopy : Answer) (bMalloc : Bool) :
    b.appendFrom stCopy (if bMalloc then some fun _ => 0 else none) false stBytes.data =
      match b.append bMalloc stBytes with
      | some b' => .returned b'
      | none => .thrown b := by
  rw [appendFrom, append]
  simp only [length_data]
  split
  · rfl
  · split
    · rfl
    · have hrange := (b.no_wrap stBytes.length_data_le).1
      rw [length_data] at hrange
      have hgrow := growWith_eq_grow b bMalloc (Nat.le_add_right b.m_iSize stBytes.size) hrange
      simp only [Bool.false_eq_true, if_false, appendOutside, length_data, hgrow]
      cases b.grow bMalloc (b.m_iSize + stBytes.size) (Nat.le_add_right _ _) hrange with
      | none => rfl
      | some grown =>
        obtain ⟨g, hdata, hsize, hroom⟩ := grown
        have hfits : g.m_iHead + g.m_iSize + stBytes.data.length ≤ g.m_pMemory.length := by
          rw [length_data]
          omega
        have hend : g.m_iHead + (g.m_iSize + stBytes.size) ≤
            (overwrite g.m_pMemory (g.m_iHead + g.m_iSize) stBytes.data).length := by
          rw [length_overwrite hfits]
          omega
        simp only [Option.map_some, copyTo, dif_pos hfits, Option.bind_some, withSize,
          dif_pos hend]
        rfl

end Bytes

end OpenIdea.Base
