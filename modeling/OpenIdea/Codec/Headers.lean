import OpenIdea.Codec.Write

/-!
# The length headers (oi_bytes_stream.h, oi_bytes_stream.cpp, oi_parser.cpp, oi_registry.cpp)

Every record goes through `WritePbRaw`, whose size is a `uint32_t`. The overloads for strings,
`Bytes` and rpcdata objects, and `EncodePbFrame`, look at the length before they narrow it to 32
bits; the one for maps, for the pair and for the whole, and `EncodeRegFrame` do not.

`rawCalls` is the list of the calls of `WritePbRaw` that a call of `WritePb` makes up to the first
one that throws, and `records` is the list of the records that it ought to write, with the lengths
their payloads have when nothing is cut. `Agrees` relates the two, and has a rule for a sequence.
The headers are whole exactly where the first record that does not fit is rejected
(`headers_whole_iff`); a map that is too long is written with a header that was cut
(`long_map_cut`).
-/

set_option autoImplicit false

namespace OpenIdea.Codec.Headers

open OpenIdea.Lib

/-! ## The calls of `WritePbRaw` -/

/-- A call of `WritePbRaw`: the payload it is given, and the size. -/
structure RawCall where
  seq : Nat
  payload : List UInt8
  size : Nat

namespace RawCall

def result (r : RawCall) : Except Fault (List UInt8) := writePbRaw r.seq r.payload r.size

/-- **The record is not cut**: the call throws, or what it appends is a header with the number of
bytes of the payload and the whole payload behind it. -/
def NotCut (r : RawCall) : Prop :=
  r.result = .error .parser ∨
    r.payload.length < 2 ^ 31 ∧
      r.result = .ok (LittleEndian.encode 4 r.seq ++ LittleEndian.encode 4 r.payload.length ++
        r.payload)

end RawCall

/-- The call behind a `(uint32_t)stAll.Size()`. -/
def narrowedCall (seq : Nat) (data : List UInt8) : List RawCall :=
  [⟨seq, data, data.length % 2 ^ 32⟩]

/-- The same, with the length looked at first. -/
def checkedCall (seq : Nat) (data : List UInt8) : List RawCall :=
  if 0x7FFFFFFF < data.length then [] else narrowedCall seq data

/-- What follows is reached when nothing has been thrown. -/
def andThen {α : Type} (first : Except Fault α) (next : α → List RawCall) : List RawCall :=
  match first with
  | .ok a => next a
  | .error _ => []

section Calls

variable (S : Schema)

mutual

/-- The calls of `WritePbRaw` that `WritePb(iSequence, value)` makes, up to the first that throws.
-/
def rawCalls : Ty → Nat → Val → List RawCall
  | .fixed f, seq, .fixed _ b => [⟨seq, LittleEndian.encode f.size b, f.size⟩]
  | .string, seq, .str b => checkedCall seq b
  | .bytes, seq, .bytes b => checkedCall seq b
  | .data n, seq, .data fs =>
      memberCalls (S.members n) fs ++
        andThen (writeMembers S (S.members n) fs) fun inner => checkedCall seq inner
  | .vector t, seq, .vec xs => elemCalls t seq xs
  | .map k v, seq, .map ps =>
      pairsCalls k v ps ++ andThen (writePairs S k v ps) fun all => narrowedCall seq all
  | _, _, _ => []

def elemCalls (t : Ty) (seq : Nat) : List Val → List RawCall
  | [] => []
  | x :: xs => rawCalls t seq x ++ andThen (writePb S t seq x) fun _ => elemCalls t seq xs

def pairsCalls (k v : Ty) : List (Val × Val) → List RawCall
  | [] => []
  | p :: ps => pairCalls k v p ++ andThen (writePair S k v p) fun _ => pairsCalls k v ps

def pairCalls (k v : Ty) : Val × Val → List RawCall
  | (key, val) =>
      rawCalls k 0 key ++ andThen (writePb S k 0 key) fun a =>
        rawCalls v 1 val ++ andThen (writePb S v 1 val) fun b => narrowedCall 0 (a ++ b)

def memberCalls : List Member → List Val → List RawCall
  | m :: ms, v :: vs =>
      rawCalls m.ty (m.seq % 2 ^ 32) v ++
        andThen (writePb S m.ty (m.seq % 2 ^ 32) v) fun _ => memberCalls ms vs
  | _, _ => []

end

end Calls

/-! ## The records of a value -/

/-- A record that ought to be written: its number, the length of its payload, and whether the code
compares that length with `0x7FFFFFFF` before it narrows it. -/
structure Record where
  seq : Nat
  length : Nat
  checked : Bool

namespace Record

/-- The header can carry both numbers. -/
def Fits (r : Record) : Prop := r.seq < 2 ^ 31 ∧ r.length < 2 ^ 31

instance (r : Record) : Decidable r.Fits := inferInstanceAs (Decidable (_ ∧ _))

/-- The code throws for the record: by its number, by its length, or by what is left of the length
after it has been narrowed. -/
def Rejected (r : Record) : Prop :=
  2 ^ 31 ≤ r.seq ∨ (r.checked = true ∧ 0x7FFFFFFF < r.length) ∨ 2 ^ 31 ≤ r.length % 2 ^ 32

instance (r : Record) : Decidable r.Rejected := inferInstanceAs (Decidable (_ ∨ _ ∨ _))

end Record

section Records

variable (S : Schema)

mutual

/-- The records of a value in the order in which the writer reaches them, a record after those of
its payload. -/
def records : Ty → Nat → Val → List Record
  | .fixed f, seq, .fixed _ _ => [⟨seq, f.size, false⟩]
  | .string, seq, .str b => [⟨seq, b.length, true⟩]
  | .bytes, seq, .bytes b => [⟨seq, b.length, true⟩]
  | .data n, seq, .data fs =>
      recordsMembers (S.members n) fs ++ [⟨seq, sizeMembers S (S.members n) fs, true⟩]
  | .vector t, seq, .vec xs => recordsElems t seq xs
  | .map k v, seq, .map ps => recordsPairs k v ps ++ [⟨seq, sizePairs S k v ps, false⟩]
  | _, _, _ => []

def recordsElems (t : Ty) (seq : Nat) : List Val → List Record
  | [] => []
  | x :: xs => records t seq x ++ recordsElems t seq xs

def recordsPairs (k v : Ty) : List (Val × Val) → List Record
  | [] => []
  | p :: ps => recordsPair k v p ++ recordsPairs k v ps

def recordsPair (k v : Ty) : Val × Val → List Record
  | (key, val) =>
      records k 0 key ++ (records v 1 val ++ [⟨0, wireSize S k key + wireSize S v val, false⟩])

def recordsMembers : List Member → List Val → List Record
  | m :: ms, v :: vs => records m.ty (m.seq % 2 ^ 32) v ++ recordsMembers ms vs
  | _, _ => []

end

end Records

/-- The first record that does not fit its header. -/
def firstLong (recs : List Record) : Option Record := recs.find? fun r => ¬ r.Fits

/-- **The first record that does not fit its header, if there is one, is rejected.** -/
def LongRejected (recs : List Record) : Prop := ∀ r, firstLong recs = some r → r.Rejected

instance (recs : List Record) : Decidable (LongRejected recs) :=
  match h : firstLong recs with
  | none => .isTrue fun _ hr => (nomatch h.symm.trans hr)
  | some r =>
      if hr : r.Rejected then .isTrue fun _ hr' => Option.some.inj (h.symm.trans hr') ▸ hr
      else .isFalse fun hall => hr (hall r h)

theorem firstLong_append (a b : List Record) :
    firstLong (a ++ b) = (firstLong a).or (firstLong b) := List.find?_append

/-! ## What the writer does with the records -/

/-- **A piece of the writer agrees with its records**: `n` bytes when they all fit; else it stops at
the first that does not, by an exception or with a record that is cut. -/
def Agrees (recs : List Record) (n : Nat) (result : Except Fault (List UInt8))
    (calls : List RawCall) : Prop :=
  match firstLong recs with
  | none => (∃ b, result = .ok b ∧ b.length = n) ∧ ∀ c ∈ calls, c.NotCut
  | some r =>
      if r.Rejected then result = .error .parser ∧ ∀ c ∈ calls, c.NotCut
      else ∃ c ∈ calls, ¬ c.NotCut

variable {n n' seq : Nat} {recs : List Record}

/-- No record, and bytes that are already there. -/
theorem Agrees.pure {b : List UInt8} (hlen : b.length = n) :
    Agrees [] n (.ok b) [] := ⟨⟨b, rfl, hlen⟩, fun _ hc => (nomatch hc)⟩

/-- **One piece after another.** -/
theorem Agrees.bind {recs' : List Record} {result : Except Fault (List UInt8)}
    {calls : List RawCall} {next : List UInt8 → Except Fault (List UInt8)}
    {nextCalls : List UInt8 → List RawCall} (h : Agrees recs n result calls)
    (hnext : ∀ b, b.length = n → Agrees recs' n' (next b) (nextCalls b)) :
    Agrees (recs ++ recs') n' (result >>= next) (calls ++ andThen result nextCalls) := by
  unfold Agrees at h ⊢
  rw [firstLong_append]
  cases hfirst : firstLong recs with
  | none =>
    rw [hfirst] at h
    obtain ⟨⟨b, rfl, hlen⟩, hcalls⟩ := h
    have hpiece := hnext b hlen
    unfold Agrees at hpiece
    -- the first piece has come to its end, and the second one decides
    rw [Option.none_or]
    show match firstLong recs' with
      | none => (∃ b', next b = .ok b' ∧ b'.length = n') ∧ ∀ c ∈ calls ++ nextCalls b, c.NotCut
      | some r =>
        if r.Rejected then next b = .error .parser ∧ ∀ c ∈ calls ++ nextCalls b, c.NotCut
        else ∃ c ∈ calls ++ nextCalls b, ¬ c.NotCut
    cases hsecond : firstLong recs' with
    | none =>
      rw [hsecond] at hpiece
      exact ⟨hpiece.1, List.forall_mem_append.2 ⟨hcalls, hpiece.2⟩⟩
    | some r =>
      rw [hsecond] at hpiece
      dsimp only at hpiece ⊢
      split at hpiece
      · rename_i hr
        rw [if_pos hr]
        exact ⟨hpiece.1, List.forall_mem_append.2 ⟨hcalls, hpiece.2⟩⟩
      · rename_i hr
        rw [if_neg hr]
        obtain ⟨c, hc, hcut⟩ := hpiece
        exact ⟨c, List.mem_append_right _ hc, hcut⟩
  | some r =>
    rw [hfirst] at h
    rw [Option.some_or]
    dsimp only at h ⊢
    split at h
    · rename_i hr
      rw [if_pos hr]
      obtain ⟨rfl, hcalls⟩ := h
      refine ⟨rfl, List.forall_mem_append.2 ⟨hcalls, ?_⟩⟩
      exact fun _ hc => (nomatch hc)
    · rename_i hr
      rw [if_neg hr]
      obtain ⟨c, hc, hcut⟩ := h
      exact ⟨c, List.mem_append_left _ hc, hcut⟩

/-- What is made of the bytes afterwards. -/
theorem Agrees.map {result : Except Fault (List UInt8)} {calls : List RawCall}
    (h : Agrees recs n result calls) {f : List UInt8 → List UInt8}
    (hf : ∀ b, b.length = n → (f b).length = n') :
    Agrees recs n' (result >>= fun b => .ok (f b)) calls := by
  unfold Agrees at h ⊢
  cases hfirst : firstLong recs with
  | none =>
    rw [hfirst] at h
    obtain ⟨⟨b, rfl, hlen⟩, hcalls⟩ := h
    exact ⟨⟨f b, rfl, hf b hlen⟩, hcalls⟩
  | some r =>
    rw [hfirst] at h
    dsimp only at h ⊢
    split at h
    · rename_i hr
      obtain ⟨rfl, hcalls⟩ := h
      rw [if_pos hr]
      exact ⟨rfl, hcalls⟩
    · rename_i hr
      rw [if_neg hr]
      exact h

/-- **Two pieces, and the bytes of both.** -/
theorem Agrees.concat {recs' : List Record} {result result' : Except Fault (List UInt8)}
    {calls calls' : List RawCall} (h : Agrees recs n result calls)
    (h' : Agrees recs' n' result' calls') :
    Agrees (recs ++ recs') (n + n')
      (result >>= fun a => result' >>= fun b => .ok (a ++ b))
      (calls ++ andThen result fun _ => calls') := by
  refine h.bind fun a ha => h'.map fun b hb => ?_
  rw [List.length_append, ha, hb]

/-! ## The records, one kind at a time -/

theorem narrowedCall_notCut {data : List UInt8}
    (h : 2 ^ 31 ≤ seq ∨ data.length < 2 ^ 31 ∨ 2 ^ 31 ≤ data.length % 2 ^ 32) :
    ∀ c ∈ narrowedCall seq data, c.NotCut := by
  intro c hc
  obtain rfl := List.mem_singleton.1 hc
  by_cases hthrow : 2 ^ 31 ≤ seq ∨ 2 ^ 31 ≤ data.length % 2 ^ 32
  · exact Or.inl (by rw [RawCall.result, writePbRaw, if_pos hthrow])
  · right
    have hshort : data.length < 2 ^ 31 := by omega
    refine ⟨hshort, ?_⟩
    rw [RawCall.result]
    dsimp only
    rw [writePbRaw, if_neg hthrow, Nat.mod_eq_of_lt (by omega), List.take_length]

/-- A length that loses its upper bits. -/
theorem narrowedCall_cut {data : List UInt8} (hseq : seq < 2 ^ 31) (hlong : 2 ^ 31 ≤ data.length)
    (hlow : data.length % 2 ^ 32 < 2 ^ 31) : ∃ c ∈ narrowedCall seq data, ¬ c.NotCut := by
  refine ⟨_, List.mem_singleton_self _, ?_⟩
  rintro (hthrow | ⟨hshort, -⟩)
  · rw [RawCall.result] at hthrow
    dsimp only at hthrow
    rw [writePbRaw, if_neg (by omega)] at hthrow
    cases hthrow
  · exact absurd hshort (by dsimp only; omega)

theorem firstLong_single (r : Record) : firstLong [r] = if r.Fits then none else some r := by
  by_cases hr : r.Fits <;> simp [firstLong, hr]

/-- **A record whose length is narrowed with no look at it.** -/
theorem Agrees.narrowed (seq : Nat) {data : List UInt8} (hlen : data.length = n) :
    Agrees [⟨seq, n, false⟩] (8 + n) (writePbRaw seq data (data.length % 2 ^ 32))
      (narrowedCall seq data) := by
  subst hlen
  rw [Agrees, firstLong_single]
  by_cases hfits : Record.Fits ⟨seq, data.length, false⟩
  · obtain ⟨hseq, hshort⟩ := hfits
    dsimp only at hseq hshort
    rw [if_pos ⟨hseq, hshort⟩]
    refine ⟨⟨_, writePbRaw_frame hseq hshort, frame_single_length _⟩, ?_⟩
    exact narrowedCall_notCut (Or.inr (Or.inl hshort))
  · rw [if_neg hfits]
    dsimp only
    -- too long to fit: what is left of the length may be negative, or look right
    have hlong : ¬ (seq < 2 ^ 31 ∧ data.length < 2 ^ 31) := hfits
    by_cases hrejected : Record.Rejected ⟨seq, data.length, false⟩
    · rw [if_pos hrejected]
      have hthrow : 2 ^ 31 ≤ seq ∨ 2 ^ 31 ≤ data.length % 2 ^ 32 := by
        rcases hrejected with hseq | ⟨hchecked, -⟩ | hlow
        · exact Or.inl hseq
        · cases hchecked
        · exact Or.inr hlow
      refine ⟨by rw [writePbRaw, if_pos hthrow], narrowedCall_notCut ?_⟩
      rcases hthrow with hseq | hlow
      · exact Or.inl hseq
      · exact Or.inr (Or.inr hlow)
    · rw [if_neg hrejected]
      simp only [Record.Rejected, not_or] at hrejected
      obtain ⟨hseq, -, hlow⟩ := hrejected
      exact narrowedCall_cut (by omega) (by omega) (by omega)

/-- **A record whose length is looked at first.** -/
theorem Agrees.checked (seq : Nat) {data : List UInt8} (hlen : data.length = n) :
    Agrees [⟨seq, n, true⟩] (8 + n) (writeChecked seq data) (checkedCall seq data) := by
  subst hlen
  rw [Agrees, firstLong_single, writeChecked, checkedCall]
  by_cases hlong : 0x7FFFFFFF < data.length
  · have hfits : ¬ Record.Fits ⟨seq, data.length, true⟩ := by
      rintro ⟨-, hshort⟩
      dsimp only at hshort
      omega
    have hrejected : Record.Rejected ⟨seq, data.length, true⟩ := Or.inr (Or.inl ⟨rfl, hlong⟩)
    rw [if_neg hfits, if_pos hlong, if_pos hlong]
    dsimp only
    rw [if_pos hrejected]
    exact ⟨rfl, fun _ hc => (by cases hc)⟩
  · rw [if_neg hlong, if_neg hlong]
    by_cases hseq : seq < 2 ^ 31
    · have hfits : Record.Fits ⟨seq, data.length, true⟩ := ⟨hseq, by dsimp only; omega⟩
      rw [if_pos hfits]
      refine ⟨⟨_, writePbRaw_frame hseq (by omega), frame_single_length _⟩, ?_⟩
      exact narrowedCall_notCut (Or.inr (Or.inl (by omega)))
    · -- the length is right here, so it is the sequence number that is refused
      have hfits : ¬ Record.Fits ⟨seq, data.length, true⟩ := fun h => hseq h.1
      have hrejected : Record.Rejected ⟨seq, data.length, true⟩ :=
        Or.inl (by dsimp only; omega)
      rw [if_neg hfits]
      dsimp only
      rw [if_pos hrejected]
      refine ⟨by rw [writePbRaw, if_pos (by omega)], narrowedCall_notCut (Or.inl (by omega))⟩

/-! ## Every value -/

variable {S : Schema}

/-- What the induction says of one object. -/
def WriterAgrees (S : Schema) (t : Ty) (v : Val) : Prop :=
  ∀ seq, Agrees (records S t seq v) (wireSize S t v) (writePb S t seq v) (rawCalls S t seq v)

theorem writeElems_agrees {t : Ty} {xs : List Val} (ih : ∀ x ∈ xs, WriterAgrees S t x) :
    Agrees (recordsElems S t seq xs) (sizeElems S t xs) (writeElems S t seq xs)
      (elemCalls S t seq xs) := by
  induction xs with
  | nil => exact Agrees.pure rfl
  | cons x xs ihx =>
    obtain ⟨hx, hxs⟩ := List.forall_mem_cons.1 ih
    rw [recordsElems, sizeElems, writeElems, elemCalls]
    exact (hx seq).concat (ihx hxs)

theorem writePair_agrees {k v : Ty} {p : Val × Val} (hkey : WriterAgrees S k p.1)
    (hval : WriterAgrees S v p.2) :
    Agrees (recordsPair S k v p) (sizePair S k v p) (writePair S k v p) (pairCalls S k v p) := by
  obtain ⟨key, val⟩ := p
  rw [recordsPair, sizePair, writePair, pairCalls]
  refine (hkey 0).bind fun a ha => (hval 1).bind fun b hb => ?_
  exact Agrees.narrowed 0 (by rw [List.length_append, ha, hb])

theorem writePairs_agrees {k v : Ty} {ps : List (Val × Val)}
    (ih : ∀ p ∈ ps, WriterAgrees S k p.1 ∧ WriterAgrees S v p.2) :
    Agrees (recordsPairs S k v ps) (sizePairs S k v ps) (writePairs S k v ps)
      (pairsCalls S k v ps) := by
  induction ps with
  | nil => exact Agrees.pure rfl
  | cons p ps ihp =>
    obtain ⟨⟨hkey, hval⟩, hps⟩ := List.forall_mem_cons.1 ih
    rw [recordsPairs, sizePairs, writePairs, pairsCalls]
    exact (writePair_agrees hkey hval).concat (ihp hps)

theorem writeMembers_agrees {ms : List Member} {vs : List Val} (hlen : vs.length = ms.length)
    (ih : ∀ p ∈ ms.zip vs, WriterAgrees S p.1.ty p.2) :
    Agrees (recordsMembers S ms vs) (sizeMembers S ms vs) (writeMembers S ms vs)
      (memberCalls S ms vs) := by
  induction ms generalizing vs with
  | nil =>
    obtain rfl := List.length_eq_zero_iff.1 hlen
    exact Agrees.pure rfl
  | cons m ms ihm =>
    cases vs with
    | nil => cases hlen
    | cons v vs =>
      rw [List.zip_cons_cons, List.forall_mem_cons] at ih
      rw [recordsMembers, sizeMembers, writeMembers, memberCalls]
      exact (ih.1 _).concat (ihm (Nat.succ.inj hlen) ih.2)

/-- **The writer agrees with the records of every object.** -/
theorem writePb_agrees {t : Ty} {v : Val} (hv : S.hasType t v = true) : WriterAgrees S t v := by
  refine Schema.typed_induction ?_ ?_ ?_ ?_ ?_ ?_ hv
  · intro f b _ seq
    have hsize : f.size < 2 ^ 32 := by cases f <;> decide
    have hraw := Agrees.narrowed seq (LittleEndian.encode_length f.size b)
    rw [narrowedCall, LittleEndian.encode_length, Nat.mod_eq_of_lt hsize] at hraw
    rw [records, wireSize, writePb, rawCalls]
    exact hraw
  · intro b seq
    simp only [records, wireSize, writePb, rawCalls]
    exact Agrees.checked seq rfl
  · intro b seq
    simp only [records, wireSize, writePb, rawCalls]
    exact Agrees.checked seq rfl
  · intro t xs _ ih seq
    rw [records, wireSize, writePb, rawCalls]
    exact writeElems_agrees ih
  · intro k v ps _ ih seq
    rw [records, wireSize, writePb, rawCalls]
    exact (writePairs_agrees ih).bind fun all hall => Agrees.narrowed seq hall
  · intro n fs hlen _ ih seq
    rw [records, wireSize, writePb, rawCalls]
    exact (writeMembers_agrees hlen ih).bind fun inner hinner => Agrees.checked seq hinner

/-! ## The four writers -/

/-- `EncodeRegFrame(iIdLocal, stMessage)`. -/
def encodeRegFrame (S : Schema) (id : Nat) (n : String) (v : Val) : Except Fault (List UInt8) := do
  let body ← serialize S n v
  writePbRaw id body (body.length % 2 ^ 32)

/-- `EncodePbFrame(iId, stBody)`, with `(uint32_t)iId`. -/
def encodePbFrame (id : Nat) (body : List UInt8) : Except Fault (List UInt8) :=
  writeChecked id body

/-- A call that writes records. -/
inductive Write where
  /-- `WritePb(iSequence, value)` -/
  | pb (t : Ty) (seq : Nat) (v : Val)
  /-- `WritePbRaw(iSequence, pData, iSize)`, with the `iSize` bytes at `pData` -/
  | raw (seq : Nat) (data : List UInt8)
  /-- `EncodePbFrame` -/
  | pbFrame (id : Nat) (body : List UInt8)
  /-- `EncodeRegFrame`, with a message of class `n` -/
  | regFrame (id : Nat) (n : String) (v : Val)

namespace Write

/-- The arguments have the types of the parameters. -/
def Typed (S : Schema) : Write → Prop
  | .pb t seq v => seq < 2 ^ 32 ∧ S.hasType t v = true
  | .raw seq data => seq < 2 ^ 32 ∧ data.length < 2 ^ 32
  | .pbFrame id _ => id < 2 ^ 32
  | .regFrame id n v => id < 2 ^ 32 ∧ S.hasType (.data n) v = true

/-- What the call appends. -/
def result (S : Schema) : Write → Except Fault (List UInt8)
  | .pb t seq v => writePb S t seq v
  | .raw seq data => writePbRaw seq data data.length
  | .pbFrame id body => encodePbFrame id body
  | .regFrame id n v => encodeRegFrame S id n v

/-- The calls of `WritePbRaw` behind it. -/
def calls (S : Schema) : Write → List RawCall
  | .pb t seq v => rawCalls S t seq v
  | .raw seq data => [⟨seq, data, data.length⟩]
  | .pbFrame id body => checkedCall id body
  | .regFrame id n v =>
      memberCalls S (S.members n) v.fields ++
        andThen (serialize S n v) fun body => narrowedCall id body

/-- The records that it ought to write. -/
def records (S : Schema) : Write → List Record
  | .pb t seq v => Headers.records S t seq v
  | .raw seq data => [⟨seq, data.length, false⟩]
  | .pbFrame id body => [⟨id, body.length, true⟩]
  | .regFrame id n v =>
      recordsMembers S (S.members n) v.fields ++ [⟨id, encodedSize S n v, false⟩]

/-- How many bytes these are. -/
def size (S : Schema) : Write → Nat
  | .pb t _ v => wireSize S t v
  | .raw _ data => 8 + data.length
  | .pbFrame _ body => 8 + body.length
  | .regFrame _ n v => 8 + encodedSize S n v

/-- **No length header is truncated**: no record is cut, and the call throws `ParserException` or
appends as many bytes as there are. -/
def Whole (S : Schema) (w : Write) : Prop :=
  (∀ c ∈ w.calls S, c.NotCut) ∧
    (w.result S = .error .parser ∨ ∃ b, w.result S = .ok b ∧ b.length = w.size S)

theorem agrees {w : Write} (hw : w.Typed S) :
    Agrees (w.records S) (w.size S) (w.result S) (w.calls S) := by
  cases w with
  | pb t seq v => exact writePb_agrees hw.2 seq
  | raw seq data =>
    have hraw := Agrees.narrowed seq (rfl : data.length = data.length)
    rw [narrowedCall, Nat.mod_eq_of_lt hw.2] at hraw
    exact hraw
  | pbFrame id body => exact Agrees.checked id rfl
  | regFrame id n v =>
    cases v with
    | data fs =>
      obtain ⟨hself, hparts⟩ := Schema.everyNode_data.1 hw.2
      have hlen : fs.length = (S.members n).length := by
        simpa [Schema.layout] using hself
      exact (writeMembers_agrees hlen fun p hp => writePb_agrees (hparts p hp)).bind
        fun body hbody => Agrees.narrowed id hbody
    | _ => exact absurd hw.2 (by simp [Schema.hasType, Schema.everyNode, Schema.layout])

end Write

/-- A long record that is not rejected is cut. -/
theorem Write.not_whole {w : Write} (hw : w.Typed S) {r : Record}
    (hfirst : firstLong (w.records S) = some r) (hr : ¬ r.Rejected) : ¬ w.Whole S := by
  have hagrees := Write.agrees hw
  unfold Agrees at hagrees
  rw [hfirst] at hagrees
  dsimp only at hagrees
  rw [if_neg hr] at hagrees
  obtain ⟨c, hc, hcut⟩ := hagrees
  exact fun hwhole => hcut (hwhole.1 c hc)

/-- **The length headers are whole exactly when the first record that does not fit its header is
rejected**, or there is none. A record that is not rejected is the one of a map pair, of a whole map
or of `EncodeRegFrame`, and its length is below 2 ^ 31 once its upper bits are gone. -/
theorem headers_whole_iff {w : Write} (hw : w.Typed S) :
    w.Whole S ↔ LongRejected (w.records S) := by
  constructor
  · intro hwhole r hfirst
    by_contra hr
    exact Write.not_whole hw hfirst hr hwhole
  · intro hall
    have hagrees := Write.agrees hw
    unfold Agrees at hagrees
    cases hfirst : firstLong (w.records S) with
    | none =>
        rw [hfirst] at hagrees
        exact ⟨hagrees.2, Or.inr hagrees.1⟩
    | some r =>
        rw [hfirst] at hagrees
        dsimp only at hagrees
        rw [if_pos (hall r hfirst)] at hagrees
        exact ⟨hagrees.2, Or.inl hagrees.1⟩

/-- No classes. -/
def noClasses : Schema := ⟨[], fun _ => 0, fun _ hd => (nomatch hd)⟩

/-- A map with one pair. -/
def smallMap : Write :=
  .pb (.map (.fixed .uint8) .bytes) 3 (.map [(.fixed .uint8 7, .bytes [1, 2, 3])])

theorem headers_whole_small : smallMap.Typed noClasses ∧ smallMap.Whole noClasses :=
  have htyped : smallMap.Typed noClasses := ⟨by decide, by decide⟩
  ⟨htyped, (headers_whole_iff htyped).2 (by decide)⟩

/-- A `std::map<uint8_t, Bytes>` of two pairs of 2 ^ 31 - 1 bytes each. -/
def longMap (b : List UInt8) : Write :=
  .pb (.map (.fixed .uint8) .bytes) 0
    (.map [(.fixed .uint8 0, .bytes b), (.fixed .uint8 1, .bytes b)])

theorem records_longMap {b : List UInt8} (hb : b.length = 2 ^ 31 - 18) :
    (longMap b).records noClasses =
      [⟨0, 1, false⟩, ⟨1, 2 ^ 31 - 18, true⟩, ⟨0, 2 ^ 31 - 1, false⟩,
        ⟨0, 1, false⟩, ⟨1, 2 ^ 31 - 18, true⟩, ⟨0, 2 ^ 31 - 1, false⟩,
        ⟨0, 2 ^ 32 + 14, false⟩] := by
  simp only [longMap, Write.records, records, recordsPairs, recordsPair, sizePairs, sizePair,
    wireSize, hb, List.cons_append, List.nil_append, List.append_nil, Fixed.size]
  norm_num

/-- The record of the whole map says 14 bytes. -/
theorem long_map_cut : ¬ ∀ (S : Schema) (w : Write), w.Typed S → w.Whole S := by
  intro hall
  obtain ⟨b, hb⟩ : ∃ b : List UInt8, b.length = 2 ^ 31 - 18 :=
    ⟨List.replicate (2 ^ 31 - 18) 0, List.length_replicate⟩
  have htyped : (longMap b).Typed noClasses := by
    refine ⟨by decide, Schema.hasType_map.2 ?_⟩
    intro p hp
    simp only [List.mem_cons, List.not_mem_nil, or_false] at hp
    rcases hp with rfl | rfl
    · exact ⟨show noClasses.hasType (.fixed .uint8) (.fixed .uint8 0) = true by decide, rfl⟩
    · exact ⟨show noClasses.hasType (.fixed .uint8) (.fixed .uint8 1) = true by decide, rfl⟩
  have hfirst : firstLong ((longMap b).records noClasses) = some ⟨0, 2 ^ 32 + 14, false⟩ := by
    rw [records_longMap hb]
    rfl
  exact Write.not_whole htyped hfirst (by decide) (hall _ _ htyped)

end OpenIdea.Codec.Headers
