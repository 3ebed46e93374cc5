import OpenIdea.Base.ByteOps
import OpenIdea.Lib.Runs

/-!
# Byte buffers as lists of bytes

A program has any number of buffers and works on them with the operations of `Bytes`. What a source
points to may lie outside of all buffers or in the block of one, also of the one that is written.
`Performs` says what each operation does to plain lists of bytes. A sequence of operations does to
the buffers what it does to the lists exactly where each of them is safe (`bytes_refine_iff`); a
reserve whose sum wraps is not (`reserve_wraps`).
-/

set_option autoImplicit false

namespace OpenIdea.Base

open OpenIdea.Lib OpenIdea.Lib.Runs

/-! ## Buffers, sources and operations -/

/-- The buffers that are alive. -/
abbrev Buffers : Type := ℕ → Option Bytes

/-- What the buffers stand for. -/
def Buffers.lists (H : Buffers) : ℕ → Option (List UInt8) := fun i => (H i).map Bytes.data

/-- What `pData` and `iLength` describe. -/
inductive Source where
  /-- memory of no buffer -/
  | outside (pData : List UInt8)
  /-- `iLength` bytes from `Data() + iOffset` of a buffer on -/
  | visible (j iOffset iLength : ℕ)
  /-- `iLength` bytes from any place of the block of a buffer on -/
  | block (j iPlace iLength : ℕ)
  /-- a buffer with its `Size()` -/
  | whole (j : ℕ)

namespace Source

/-- The bytes at the source. -/
def read (H : Buffers) : Source → Option (List UInt8)
  | outside pData => some pData
  | visible j iOffset iLength => (H j).map fun b => (b.data.drop iOffset).take iLength
  | block j iPlace iLength => (H j).map fun b => (b.m_pMemory.drop iPlace).take iLength
  | whole j => (H j).map Bytes.data

/-- Where in the block of buffer `i` the source starts, if it is there. -/
def place (H : Buffers) (i : ℕ) : Source → Option ℕ
  | outside _ => none
  | visible j iOffset _ => if j = i then (H j).map fun b => b.m_iHead + iOffset else none
  | block j iPlace _ => if j = i then some iPlace else none
  | whole j => if j = i then (H j).map Bytes.m_iHead else none

/-- The source is memory that can be read. No object is larger than `PTRDIFF_MAX`. -/
def InRange (H : Buffers) : Source → Prop
  | outside pData => pData.length ≤ PTRDIFF_MAX
  | visible j iOffset iLength => ∃ b ∈ H j, iOffset + iLength ≤ b.size
  | block j iPlace iLength => ∃ b ∈ H j, iPlace + iLength ≤ b.m_pMemory.length
  | whole j => (H j).isSome

instance (H : Buffers) : ∀ source : Source, Decidable (source.InRange H)
  | outside _ => inferInstanceAs (Decidable (_ ≤ _))
  | visible _ _ _ => inferInstanceAs (Decidable (∃ b ∈ H _, _))
  | block _ _ _ => inferInstanceAs (Decidable (∃ b ∈ H _, _))
  | whole _ => inferInstanceAs (Decidable (_ = true))

end Source

/-- An operation on one buffer. -/
inductive Method where
  | append (source : Source)
  | appendForward (source : Source)
  | insert (iOffset : ℕ) (source : Source)
  | erase (iOffset iLength : ℕ)
  | eraseAt (iOffset : ℤ) (iLength : ℕ)
  | replace (iOffset : ℕ) (source : Source)
  | reserve (iSize : ℕ)
  /-- `written` has been written at `End()` before. -/
  | commit (written : List UInt8) (iNumber : ℕ)
  | clear

namespace Method

def source : Method → Source
  | append source | appendForward source | insert _ source | replace _ source => source
  | _ => .outside []

/-- The operation on its buffer, with the bytes at the source and their place in the block. -/
def run (b : Bytes) (bytes : List UInt8) (place : Option ℕ) (stCopy malloc : Answer) :
    Method → Outcome
  | append _ => b.appendFrom stCopy malloc place.isSome bytes
  | appendForward _ => b.insert 0 stCopy malloc place.isSome bytes
  | insert iOffset _ => b.insert iOffset stCopy malloc place.isSome bytes
  | erase iOffset iLength => .returned (b.erase iOffset iLength)
  | eraseAt iOffset iLength => .returned (b.eraseAt iOffset iLength)
  | replace iOffset _ => b.replace iOffset place bytes
  | reserve iSize => b.reserve malloc iSize
  | commit written iNumber =>
      match b.copyTo (b.m_iHead + b.m_iSize) written with
      | none => .undefined
      | some b => b.commit iNumber
  | clear => .returned b.clear

/-- The other arguments are in range. -/
def InRange (b : Bytes) (bytes : List UInt8) : Method → Prop
  | insert iOffset _ => iOffset ≤ b.size
  | replace iOffset _ => iOffset + bytes.length ≤ b.size
  | reserve iSize => iSize ≤ SIZE_MAX
  | commit written iNumber => written.length ≤ b.capacity - b.size ∧ iNumber ≤ SIZE_MAX
  | _ => True

instance (b : Bytes) (bytes : List UInt8) : ∀ m : Method, Decidable (m.InRange b bytes)
  | insert _ _ | replace _ _ | reserve _ => inferInstanceAs (Decidable (_ ≤ _))
  | commit _ _ => inferInstanceAs (Decidable (_ ∧ _))
  | append _ | appendForward _ | erase _ _ | eraseAt _ _ | clear =>
      inferInstanceAs (Decidable True)

/-- What the operation makes of a list. -/
def Makes (bytes before : List UInt8) : Method → List UInt8 → Prop
  | append _, after => after = before ++ bytes
  | appendForward _, after => after = bytes ++ before
  | insert iOffset _, after => after = before.take iOffset ++ bytes ++ before.drop iOffset
  | erase iOffset iLength, after =>
      after = before.take iOffset ++ before.drop (iOffset + iLength)
  | eraseAt iOffset iLength, after =>
      if 0 ≤ iOffset then
        after = before.take iOffset.toNat ++ before.drop (iOffset.toNat + iLength)
      else after = before
  | replace iOffset _, after =>
      after = before.take iOffset ++ bytes ++ before.drop (iOffset + bytes.length)
  | reserve iSize, after => after = before.take iSize
  | commit written iNumber, after => ∃ tail, tail.length = iNumber ∧
      tail.take written.length = written.take iNumber ∧ after = before ++ tail
  | clear, after => after = []

/-- `Reserve` does not wrap, and `Replace` does not overlap. -/
def Safe (b : Bytes) (bytes : List UInt8) (place : Option ℕ) : Method → Prop
  | reserve iSize => b.m_iHead + iSize < 2 ^ 64
  | replace iOffset _ => bytes = [] ∨ ¬ b.Clash iOffset place bytes.length
  | _ => True

instance (b : Bytes) (bytes : List UInt8) (place : Option ℕ) :
    ∀ m : Method, Decidable (m.Safe b bytes place)
  | reserve _ => inferInstanceAs (Decidable (_ < _))
  | replace _ _ => inferInstanceAs (Decidable (_ ∨ ¬ b.Clash _ place _))
  | append _ | appendForward _ | insert _ _ | erase _ _ | eraseAt _ _ | commit _ _ | clear =>
      inferInstanceAs (Decidable True)

end Method

/-- An operation of the program. `stCopy` and `malloc` are the answers for a copy of an own source
and for `Grow`. -/
inductive Op where
  | create (i : ℕ)
  | construct (i : ℕ) (source : Source) (malloc : Answer)
  | copy (i j : ℕ) (malloc : Answer)
  | move (i j : ℕ)
  | assign (i j : ℕ) (malloc : Answer)
  | moveAssign (i j : ℕ)
  | call (i : ℕ) (m : Method) (stCopy malloc : Answer)
  | swap (i j : ℕ)
  | destroy (i : ℕ)

/-- The buffers after a construction; an exception leaves no buffer. -/
def constructed (H : Buffers) (i : ℕ) : Outcome → Option (Buffers × Bool)
  | .returned b => some (Function.update H i (some b), true)
  | .thrown _ => some (H, false)
  | .undefined => none

/-- The buffers after an operation on one of them. -/
def called (H : Buffers) (i : ℕ) : Outcome → Option (Buffers × Bool)
  | .returned b => some (Function.update H i (some b), true)
  | .thrown b => some (Function.update H i (some b), false)
  | .undefined => none

/-- The buffers after an operation, and whether it has returned; none is undefined. -/
def perform (H : Buffers) : Op → Option (Buffers × Bool)
  | .create i => some (Function.update H i (some .empty), true)
  | .construct i source malloc =>
      (source.read H).bind fun bytes => constructed H i (Bytes.construct malloc bytes)
  | .copy i j malloc => (H j).bind fun stOther => constructed H i (Bytes.copyOf malloc stOther)
  | .move i j =>
      (H j).map fun stOther =>
        (Function.update (Function.update H j (some .empty)) i (some stOther), true)
  | .assign i j malloc =>
      (H i).bind fun b => (H j).bind fun stOther =>
        if i = j then some (H, true) else called H i (b.assign malloc stOther)
  | .moveAssign i j =>
      (H j).map fun stOther =>
        if i = j then (H, true)
        else (Function.update (Function.update H j (some .empty)) i (some stOther), true)
  | .call i m stCopy malloc =>
      (H i).bind fun b => (m.source.read H).bind fun bytes =>
        called H i (m.run b bytes (m.source.place H i) stCopy malloc)
  | .swap i j => some (Function.update (Function.update H i (H j)) j (H i), true)
  | .destroy i => some (Function.update H i none, true)

/-! ## What is asked of an operation -/

/-- The buffers that an operation needs are there, and its arguments are in range. -/
def Op.InRange (H : Buffers) : Op → Prop
  | .create i => H i = none
  | .construct i source _ => H i = none ∧ source.InRange H
  | .copy i j _ | .move i j => H i = none ∧ (H j).isSome
  | .assign i j _ | .moveAssign i j | .swap i j => (H i).isSome ∧ (H j).isSome
  | .call i m _ _ => m.source.InRange H ∧
      ∃ b ∈ H i, ∃ bytes ∈ m.source.read H, m.InRange b bytes
  | .destroy i => (H i).isSome

instance (H : Buffers) : ∀ op : Op, Decidable (op.InRange H)
  | .create i => decidable_of_iff ((H i).isNone) Option.isNone_iff_eq_none
  | .construct i source _ =>
      decidable_of_iff ((H i).isNone ∧ source.InRange H) (by rw [Option.isNone_iff_eq_none]; rfl)
  | .copy i j _ | .move i j =>
      decidable_of_iff ((H i).isNone ∧ (H j).isSome) (by rw [Option.isNone_iff_eq_none]; rfl)
  | .assign _ _ _ | .moveAssign _ _ | .swap _ _ => inferInstanceAs (Decidable (_ ∧ _))
  | .call i m _ _ => inferInstanceAs (Decidable (_ ∧ ∃ b ∈ H i, ∃ bytes ∈ m.source.read H, _))
  | .destroy _ => inferInstanceAs (Decidable (_ = true))

/-- What the operation must not come to. -/
def Op.Safe (H : Buffers) : Op → Prop
  | .call i m _ _ => ∀ b ∈ H i, ∀ bytes ∈ m.source.read H,
      m.Safe b bytes (m.source.place H i)
  | _ => True

instance (H : Buffers) : ∀ op : Op, Decidable (op.Safe H)
  | .call i m _ _ => inferInstanceAs (Decidable (∀ b ∈ H i, ∀ bytes ∈ m.source.read H, _))
  | .create _ | .construct _ _ _ | .copy _ _ _ | .move _ _ | .assign _ _ _ | .moveAssign _ _
  | .swap _ _ | .destroy _ => inferInstanceAs (Decidable True)

/-- What a source reads of lists. Bytes that are not in use are any bytes. -/
def Source.Reads (A : ℕ → Option (List UInt8)) : Source → List UInt8 → Prop
  | .outside pData, bytes => bytes = pData
  | .visible j iOffset iLength, bytes =>
      ∃ l, A j = some l ∧ bytes = (l.drop iOffset).take iLength
  | .block _ _ iLength, bytes => bytes.length = iLength
  | .whole j, bytes => A j = some bytes

/-- What an operation that returns does to plain lists. -/
def Op.Returns (A A' : ℕ → Option (List UInt8)) : Op → Prop
  | .create i => A' = Function.update A i (some [])
  | .construct i source _ => ∃ bytes, source.Reads A bytes ∧ A' = Function.update A i (some bytes)
  | .copy i j _ => ∃ l, A j = some l ∧ A' = Function.update A i (some l)
  | .move i j => ∃ l, A j = some l ∧
      A' = Function.update (Function.update A j (some [])) i (some l)
  | .assign i j _ => ∃ l, A j = some l ∧ A' = Function.update A i (some l)
  | .moveAssign i j =>
      if i = j then A' = A
      else ∃ l, A j = some l ∧ A' = Function.update (Function.update A j (some [])) i (some l)
  | .call i m _ _ => ∃ before bytes after, A i = some before ∧ m.source.Reads A bytes ∧
      m.Makes bytes before after ∧ A' = Function.update A i (some after)
  | .swap i j => A' = Function.update (Function.update A i (A j)) j (A i)
  | .destroy i => A' = Function.update A i none

/-- What an operation that throws does to plain lists: nothing, or a copy assignment empties its
buffer. -/
def Op.Throws (A A' : ℕ → Option (List UInt8)) : Op → Prop
  | .assign i _ _ => A' = A ∨ A' = Function.update A i (some [])
  | _ => A' = A

/-- A `Reserve` has given the room it was asked for. -/
def Op.Granted (H' : Buffers) : Op → Prop
  | .call i (.reserve iSize) _ _ => ∃ b, H' i = some b ∧ iSize ≤ b.capacity
  | _ => True

/-- The operation is defined and does to the buffers what it does to lists. -/
def Holds (H : Buffers) (op : Op) : Prop :=
  ∃ H' returned, perform H op = some (H', returned) ∧
    (∀ i b, H' i = some b → b.m_iHead + b.m_iSize ≤ b.m_pMemory.length) ∧
    if returned then op.Returns H.lists H'.lists ∧ op.Granted H' else op.Throws H.lists H'.lists

/-! ## One operation -/

theorem lists_update (H : Buffers) (i : ℕ) (b : Option Bytes) :
    Buffers.lists (Function.update H i b) =
      Function.update H.lists i (b.map Bytes.data) := by
  funext j
  by_cases hj : j = i
  · rw [hj, Buffers.lists, Function.update_self, Function.update_self]
  · rw [Buffers.lists, Function.update_of_ne hj, Function.update_of_ne hj]
    rfl

variable {H : Buffers} {i j : ℕ} {malloc : Answer}

variable {b : Bytes} {op : Op}

theorem lists_some (h : H i = some b) : H.lists i = some b.data := by
  rw [Buffers.lists, h]
  rfl

theorem holds_of_returns {H' : Buffers} (h : perform H op = some (H', true))
    (hreturns : op.Returns H.lists H'.lists) (hgranted : op.Granted H') : Holds H op :=
  ⟨H', true, h, fun _ b _ => b.inside, by rw [if_pos rfl]; exact ⟨hreturns, hgranted⟩⟩

theorem holds_of_throws {H' : Buffers} (h : perform H op = some (H', false))
    (hthrows : op.Throws H.lists H'.lists) : Holds H op :=
  ⟨H', false, h, fun _ b _ => b.inside, by rw [if_neg Bool.false_ne_true]; exact hthrows⟩

theorem Source.read_spec {source : Source} (h : source.InRange H) :
    ∃ bytes, source.read H = some bytes ∧ bytes.length ≤ PTRDIFF_MAX ∧
      source.Reads H.lists bytes := by
  cases source with
  | outside pData => exact ⟨pData, rfl, h, rfl⟩
  | visible j iOffset iLength =>
    obtain ⟨b, hmem, hfits⟩ := h
    have hb : H j = some b := hmem
    refine ⟨(b.data.drop iOffset).take iLength, ?_, ?_, b.data, lists_some hb, rfl⟩
    · rw [read, hb]
      rfl
    · have hle := b.length_data_le
      rw [List.length_take, List.length_drop]
      omega
  | block j iPlace iLength =>
    obtain ⟨b, hmem, hfits⟩ := h
    have hb : H j = some b := hmem
    have hlen : ((b.m_pMemory.drop iPlace).take iLength).length = iLength := by
      rw [List.length_take, List.length_drop]
      omega
    have hblock := b.block
    refine ⟨(b.m_pMemory.drop iPlace).take iLength, ?_, by omega, hlen⟩
    rw [read, hb]
    rfl
  | whole j =>
    obtain ⟨b, hb⟩ := Option.isSome_iff_exists.1 h
    refine ⟨b.data, ?_, b.length_data_le, lists_some hb⟩
    rw [read, hb]
    rfl

theorem erase_makes (b : Bytes) (iOffset iLength : ℕ) :
    (b.erase iOffset iLength).data = b.data.take iOffset ++ b.data.drop (iOffset + iLength) := by
  by_cases hoffset : iOffset ≤ b.size
  · exact Bytes.data_erase b hoffset iLength
  · have hsize : b.data.length ≤ iOffset := by
      rw [Bytes.length_data]
      omega
    rw [Bytes.erase, dif_pos (show iOffset > b.m_iSize from Nat.lt_of_not_le hoffset), List.take_of_length_le hsize,
      List.drop_of_length_le (by omega), List.append_nil]

/-- Every operation does to the bytes in use what it does to a list. -/
theorem Method.run_gives {bytes : List UInt8} {place : Option ℕ} {m : Method}
    (stCopy malloc : Answer) (hlen : bytes.length ≤ PTRDIFF_MAX) (hrange : m.InRange b bytes)
    (hsafe : m.Safe b bytes place) :
    (m.run b bytes place stCopy malloc).Gives b.data (m.Makes bytes b.data) := by
  cases m with
  | append source => exact b.appendFrom_gives stCopy malloc place.isSome hlen
  | appendForward source =>
    have h := b.insert_gives (Nat.zero_le _) stCopy malloc place.isSome hlen
    rw [List.take_zero, List.nil_append, List.drop_zero] at h
    exact h
  | insert iOffset source => exact b.insert_gives hrange stCopy malloc place.isSome hlen
  | erase iOffset iLength => exact Or.inl ⟨_, rfl, erase_makes b iOffset iLength⟩
  | eraseAt iOffset iLength =>
    refine Or.inl ⟨_, rfl, ?_⟩
    rw [Bytes.eraseAt, Makes]
    split
    · exact erase_makes b iOffset.toNat iLength
    · rfl
  | replace iOffset source =>
    rcases hsafe with rfl | hclash
    · refine Or.inl ⟨b, ?_, ?_⟩
      · show b.replace iOffset place [] = _
        rw [Bytes.replace, List.take_nil]
        rfl
      · show b.data = b.data.take iOffset ++ [] ++ b.data.drop (iOffset + 0)
        rw [List.append_nil, Nat.add_zero, List.take_append_drop]
    · exact b.replace_gives hrange hclash
  | reserve iSize => exact b.reserve_gives malloc iSize
  | commit written iNumber =>
    obtain ⟨b', hcopy, hgives⟩ := b.commit_gives hrange.1 iNumber
    show Outcome.Gives (match b.copyTo (b.m_iHead + b.m_iSize) written with
      | none => .undefined
      | some b => b.commit iNumber) b.data _
    rw [hcopy]
    exact hgives
  | clear => exact Or.inl ⟨_, rfl, Bytes.data_clear b⟩

/-- A `Replace` onto its own source is undefined. -/
theorem replace_undefined {iOffset : ℕ} {bytes : List UInt8} {place : Option ℕ}
    (hfits : iOffset + bytes.length ≤ b.size) (hbytes : bytes ≠ [])
    (hclash : b.Clash iOffset place bytes.length) : b.replace iOffset place bytes = .undefined := by
  have hsize : b.size = b.m_iSize := rfl
  have hwhole : bytes.take (b.m_iSize - iOffset) = bytes := List.take_of_length_le (by omega)
  rw [Bytes.replace, hwhole, if_neg (fun hzero => hbytes (List.length_eq_zero_iff.1 hzero)),
    if_pos hclash]

/-- An operation on a buffer holds exactly if it does not come to what it must not. -/
theorem call_holds_iff {m : Method} {stCopy : Answer}
    (hrange : (Op.call i m stCopy malloc).InRange H) :
    Holds H (.call i m stCopy malloc) ↔ (Op.call i m stCopy malloc).Safe H := by
  obtain ⟨hsource, b, hmem, bytes, hin, hm⟩ := hrange
  have hb : H i = some b := hmem
  have hread : m.source.read H = some bytes := hin
  obtain ⟨bytes', hread', hlen, hreads⟩ := Source.read_spec hsource
  obtain rfl := Option.some.inj (hread.symm.trans hread')
  have hperform : perform H (.call i m stCopy malloc) =
      called H i (m.run b bytes (m.source.place H i) stCopy malloc) := by
    rw [perform, hb, Option.bind_some, hread, Option.bind_some]
  constructor
  · rintro ⟨H', returned, hstep, -, hends⟩ b' hb' bytes' hread'
    obtain rfl := Option.some.inj (hb.symm.trans hb')
    obtain rfl := Option.some.inj (hread.symm.trans hread')
    rw [hperform] at hstep
    cases m with
    | reserve iSize =>
      show b.m_iHead + iSize < 2 ^ 64
      by_contra hwraps
      -- `Reserve` returns without having done anything
      obtain ⟨b', hrun⟩ : ∃ b', b.reserve malloc iSize = .returned b' := by
        rw [Bytes.reserve, Bytes.growWith_wraps malloc hm (Nat.le_of_not_lt hwraps)]
        exact ⟨_, rfl⟩
      rw [show Method.run b bytes _ stCopy malloc (.reserve iSize) = _ from hrun] at hstep
      obtain ⟨rfl, rfl⟩ := Prod.mk.inj (Option.some.inj hstep)
      rw [if_pos rfl] at hends
      obtain ⟨b'', hb'', hroom⟩ := hends.2
      obtain rfl := Option.some.inj ((Function.update_self i (some b') H).symm.trans hb'')
      exact hwraps ((Bytes.reserve_granted_iff hrun).1 hroom)
    | replace iOffset source =>
      show bytes = [] ∨ ¬ b.Clash iOffset _ bytes.length
      by_cases hbytes : bytes = []
      · exact Or.inl hbytes
      · refine Or.inr fun hclash => ?_
        rw [show Method.run b bytes _ stCopy malloc (.replace iOffset source) = _ from
          replace_undefined hm hbytes hclash] at hstep
        cases hstep
    | _ => exact trivial
  · intro hsafe
    have hgives := Method.run_gives stCopy malloc hlen hm (hsafe b hb bytes hread)
    rcases hgives with ⟨b', hrun, hmakes⟩ | ⟨b', hrun, hkept⟩
    · rw [hrun] at hperform
      refine holds_of_returns hperform ⟨b.data, bytes, b'.data, lists_some hb, hreads, hmakes, ?_⟩ ?_
      · rw [lists_update]
        rfl
      · cases m with
        | reserve iSize =>
          refine ⟨b', Function.update_self _ _ _, ?_⟩
          exact (Bytes.reserve_granted_iff hrun).2 (hsafe b hb bytes hread)
        | _ => exact trivial
    · rw [hrun] at hperform
      refine holds_of_throws hperform ?_
      show Buffers.lists (Function.update H i (some b')) = H.lists
      rw [lists_update, Option.map_some, hkept, ← lists_some hb, Function.update_eq_self]

/-- The other operations hold always. -/
theorem construct_holds {source : Source} (hrange : (Op.construct i source malloc).InRange H) :
    Holds H (.construct i source malloc) := by
  obtain ⟨bytes, hread, hlen, hreads⟩ := Source.read_spec hrange.2
  have hperform : perform H (.construct i source malloc) =
      constructed H i (Bytes.construct malloc bytes) := by
    rw [perform, hread, Option.bind_some]
  rcases Bytes.construct_gives malloc hlen with ⟨b, hb, hdata⟩ | ⟨b, hb, -⟩
  · rw [hb] at hperform
    refine holds_of_returns hperform ⟨bytes, hreads, ?_⟩ trivial
    rw [lists_update, Option.map_some, hdata]
  · rw [hb] at hperform
    exact holds_of_throws hperform rfl

theorem copy_holds (hrange : (Op.copy i j malloc).InRange H) : Holds H (.copy i j malloc) := by
  obtain ⟨stOther, hj⟩ := Option.isSome_iff_exists.1 hrange.2
  have hperform : perform H (.copy i j malloc) =
      constructed H i (Bytes.copyOf malloc stOther) := by
    rw [perform, hj, Option.bind_some]
  rcases Bytes.copyOf_gives malloc stOther with ⟨b, hb, hdata⟩ | ⟨b, hb, -⟩
  · rw [hb] at hperform
    refine holds_of_returns hperform ⟨stOther.data, lists_some hj, ?_⟩ trivial
    rw [lists_update, Option.map_some, hdata]
  · rw [hb] at hperform
    exact holds_of_throws hperform rfl

theorem move_lists {stOther : Bytes} :
    Buffers.lists (Function.update (Function.update H j (some .empty)) i (some stOther)) =
      Function.update (Function.update H.lists j (some [])) i (some stOther.data) := by
  rw [lists_update, lists_update]
  rfl

theorem move_holds (hrange : (Op.move i j).InRange H) : Holds H (.move i j) := by
  obtain ⟨stOther, hj⟩ := Option.isSome_iff_exists.1 hrange.2
  refine holds_of_returns ?_ ⟨stOther.data, lists_some hj, move_lists⟩ trivial
  rw [perform, hj]
  rfl

theorem moveAssign_holds (hrange : (Op.moveAssign i j).InRange H) : Holds H (.moveAssign i j) := by
  obtain ⟨stOther, hj⟩ := Option.isSome_iff_exists.1 hrange.2
  have hperform : perform H (.moveAssign i j) = some (if i = j then (H, true) else
      (Function.update (Function.update H j (some .empty)) i (some stOther), true)) := by
    rw [perform, hj]
    rfl
  by_cases hij : i = j
  · rw [if_pos hij] at hperform
    refine holds_of_returns hperform ?_ trivial
    rw [Op.Returns, if_pos hij]
  · rw [if_neg hij] at hperform
    refine holds_of_returns hperform ?_ trivial
    rw [Op.Returns, if_neg hij]
    exact ⟨stOther.data, lists_some hj, move_lists⟩

theorem assign_holds (hrange : (Op.assign i j malloc).InRange H) :
    Holds H (.assign i j malloc) := by
  obtain ⟨b, hi⟩ := Option.isSome_iff_exists.1 hrange.1
  obtain ⟨stOther, hj⟩ := Option.isSome_iff_exists.1 hrange.2
  have hperform : perform H (.assign i j malloc) =
      if i = j then some (H, true) else called H i (b.assign malloc stOther) := by
    rw [perform, hi, hj, Option.bind_some, Option.bind_some]
  by_cases hij : i = j
  · rw [if_pos hij] at hperform
    refine holds_of_returns hperform ⟨stOther.data, lists_some hj, ?_⟩ trivial
    rw [hij, ← lists_some hj, Function.update_eq_self]
  · rw [if_neg hij] at hperform
    rcases b.assign_gives malloc stOther with ⟨b', hb', hdata⟩ | ⟨b', hb', hdata⟩
    · rw [hb'] at hperform
      refine holds_of_returns hperform ⟨stOther.data, lists_some hj, ?_⟩ trivial
      rw [lists_update, Option.map_some, hdata]
    · rw [hb'] at hperform
      refine holds_of_throws hperform (Or.inr ?_)
      rw [lists_update, Option.map_some, hdata]

theorem holds_iff (hrange : op.InRange H) : Holds H op ↔ op.Safe H := by
  cases op with
  | call i m stCopy malloc => exact call_holds_iff hrange
  | construct i source malloc => exact iff_of_true (construct_holds hrange) trivial
  | copy i j malloc => exact iff_of_true (copy_holds hrange) trivial
  | move i j => exact iff_of_true (move_holds hrange) trivial
  | assign i j malloc => exact iff_of_true (assign_holds hrange) trivial
  | moveAssign i j => exact iff_of_true (moveAssign_holds hrange) trivial
  | create i =>
    refine iff_of_true (holds_of_returns rfl ?_ trivial) trivial
    rw [Op.Returns, lists_update]
    rfl
  | swap i j =>
    refine iff_of_true (holds_of_returns rfl ?_ trivial) trivial
    rw [Op.Returns, lists_update, lists_update]
    rfl
  | destroy i =>
    refine iff_of_true (holds_of_returns rfl ?_ trivial) trivial
    rw [Op.Returns, lists_update]
    rfl

/-! ## Sequences of operations -/

/-- The buffers after an operation. -/
def next (H : Buffers) (op : Op) : Option Buffers := (perform H op).map Prod.fst

/-- No buffer is alive. -/
def noBuffers : Buffers := fun _ => none

/-- In every sequence of operations whose arguments are in range, each does to the buffers what it
does to lists, and gives the room it is asked for, exactly if no `Reserve` wraps and no `Replace`
overlaps its source. -/
theorem bytes_refine_iff (ops : List Op)
    (hrange : Along next (fun H op => op.InRange H) noBuffers ops) :
    Along next Holds noBuffers ops ↔ Along next (fun H op => op.Safe H) noBuffers ops :=
  along_congr_of (fun _ _ h => holds_iff h) hrange

/-- `malloc` answers, with a block of zeros. -/
def zeros : Answer := some fun _ => 0

/-- A buffer takes bytes of its own behind, between and in front of its bytes, and is copied. -/
def ownBytes : List Op :=
  [.construct 0 (.outside [1, 2, 3]) zeros, .call 0 (.append (.whole 0)) zeros zeros,
    .call 0 (.insert 1 (.visible 0 2 3)) zeros zeros, .call 0 (.erase 0 4) zeros zeros,
    .call 0 (.appendForward (.visible 0 1 2)) zeros zeros,
    .call 0 (.replace 0 (.visible 0 4 2)) none none, .call 0 (.reserve 100) none zeros,
    .call 0 (.commit [9] 2) none none, .copy 1 0 zeros, .swap 0 1, .call 0 .clear none none,
    .moveAssign 0 1]

theorem bytes_refine_iff_ownBytes :
    Along next (fun H op => op.InRange H) noBuffers ownBytes ∧ Along next Holds noBuffers ownBytes ∧
      (runFrom next noBuffers ownBytes).bind (fun H => H.lists 0) =
        some [1, 2, 2, 3, 1, 2, 3, 9, 0] := by
  have hrange : Along next (fun H op => op.InRange H) noBuffers ownBytes := by
    decide +kernel
  refine ⟨hrange, (bytes_refine_iff ownBytes hrange).2 ?_, ?_⟩
  · decide +kernel
  · decide +kernel

/-- Two bytes are appended, the first is erased, and room for `SIZE_MAX` bytes is asked for. -/
def reserveTooMuch : List Op :=
  [.create 0, .call 0 (.append (.outside [97, 98])) none zeros, .call 0 (.erase 0 1) none none]

/-- `Reserve` returns with a capacity of 63. -/
theorem reserve_wraps :
    Along next (fun H op => op.InRange H) noBuffers
        (reserveTooMuch ++ [.call 0 (.reserve SIZE_MAX) none none]) ∧
      ∃ H H' b, runFrom next noBuffers reserveTooMuch = some H ∧
        perform H (.call 0 (.reserve SIZE_MAX) none none) = some (H', true) ∧ H' 0 = some b ∧
        b.capacity < SIZE_MAX := by
  have hvalues : ((runFrom next noBuffers reserveTooMuch).bind fun H =>
      (perform H (.call 0 (.reserve SIZE_MAX) none none)).map fun r =>
        (r.2, (r.1 0).map Bytes.capacity)) = some (true, some 63) := by
    decide +kernel
  obtain ⟨H, hrun, hrest⟩ := Option.bind_eq_some_iff.1 hvalues
  obtain ⟨⟨H', returned⟩, hperform, heq⟩ := Option.map_eq_some_iff.1 hrest
  obtain ⟨rfl, hcapacity⟩ := Prod.mk.inj heq
  obtain ⟨b, hb, h63⟩ := Option.map_eq_some_iff.1 hcapacity
  refine ⟨by decide +kernel, H, H', b, hrun, hperform, hb, ?_⟩
  rw [h63]
  decide

end OpenIdea.Base
