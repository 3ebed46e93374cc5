import OpenIdea.Codec.Totality
import Mathlib.Algebra.BigOperators.Group.List.Basic

/-!
# Writing

The `WritePb` overloads and the generated `serialize`, and the record layout they produce: a message
is a sequence of records, each a number, a length and a payload.

`Wire S t v ps` says that `ps` are the payloads of the records that stand for `v`, where the records
of every rpcdata object and of every map pair may have been put into another order that keeps the
order of records with the same number.  `writePb_wire` connects it with the writer.
-/

set_option autoImplicit false

namespace OpenIdea.Codec

open OpenIdea.Lib

/-! ## The writer -/

/-- `WritePbRaw(iSequence, pData, iSize)`: the bytes it appends.  Both numbers are `uint32_t`. -/
def writePbRaw (seq : Nat) (data : List UInt8) (size : Nat) : Except Fault (List UInt8) :=
  if 2 ^ 31 ≤ seq ∨ 2 ^ 31 ≤ size then .error .parser
  else .ok (LittleEndian.encode 4 seq ++ LittleEndian.encode 4 size ++ data.take size)

/-- The overloads that check the length before it is narrowed. -/
def writeChecked (seq : Nat) (data : List UInt8) : Except Fault (List UInt8) :=
  if 0x7FFFFFFF < data.length then .error .parser else writePbRaw seq data (data.length % 2 ^ 32)

variable (S : Schema)

mutual

/-- `WritePb(iSequence, value)`: the bytes it appends. -/
def writePb : Ty → Nat → Val → Except Fault (List UInt8)
  | .fixed f, seq, .fixed _ b => writePbRaw seq (LittleEndian.encode f.size b) f.size
  | .string, seq, .str b => writeChecked seq b
  | .bytes, seq, .bytes b => writeChecked seq b
  | .data n, seq, .data fs => do
      let inner ← writeMembers (S.members n) fs
      writeChecked seq inner
  | .vector t, seq, .vec xs => writeElems t seq xs
  | .map k v, seq, .map ps => do
      let all ← writePairs k v ps
      -- `(uint32_t)stAll.Size()` with no check before it
      writePbRaw seq all (all.length % 2 ^ 32)
  | _, _, _ => .error .illTyped

/-- The elements of a vector, each under the vector's number. -/
def writeElems (t : Ty) (seq : Nat) : List Val → Except Fault (List UInt8)
  | [] => .ok []
  | x :: xs => do
      let a ← writePb t seq x
      let b ← writeElems t seq xs
      return a ++ b

/-- `stAll`: a record for each pair. -/
def writePairs (k v : Ty) : List (Val × Val) → Except Fault (List UInt8)
  | [] => .ok []
  | p :: ps => do
      let a ← writePair k v p
      let b ← writePairs k v ps
      return a ++ b

/-- `stPair`, wrapped in its record. -/
def writePair (k v : Ty) : Val × Val → Except Fault (List UInt8)
  | (key, val) => do
      let a ← writePb k 0 key
      let b ← writePb v 1 val
      writePbRaw 0 (a ++ b) ((a ++ b).length % 2 ^ 32)

/-- The statements `os.WritePb(seq, member);` of a class, the number taken as a `uint32_t`. -/
def writeMembers : List Member → List Val → Except Fault (List UInt8)
  | m :: ms, v :: vs => do
      let a ← writePb m.ty (m.seq % 2 ^ 32) v
      let b ← writeMembers ms vs
      return a ++ b
  | [], [] => .ok []
  | _, _ => .error .illTyped

end

/-- `BytesStream& serialize(BytesStream& os) const` of class `n`: the bytes it appends. -/
def serialize (n : String) : Val → Except Fault (List UInt8)
  | .data fs => writeMembers S (S.members n) fs
  | _ => .error .illTyped

/-! ## Records -/

/-- A record: its number and its payload. -/
abbrev Rec := Nat × List UInt8

/-- The bytes of a sequence of records. -/
def frame (recs : List Rec) : List UInt8 :=
  recs.flatMap fun r =>
    LittleEndian.encode 4 r.1 ++ LittleEndian.encode 4 r.2.length ++ r.2

/-- The same records in another order; records with the same number keep theirs. -/
def Reordered (recs recs' : List Rec) : Prop :=
  recs.Perm recs' ∧ ∀ q, recs.filter (fun r => r.1 = q) = recs'.filter (fun r => r.1 = q)

theorem Reordered.refl (recs : List Rec) : Reordered recs recs := ⟨.refl _, fun _ => rfl⟩

/-- The payloads of the records with number `q`. -/
def payloadsOf (q : Nat) (recs : List Rec) : List (List UInt8) :=
  (recs.filter fun r => r.1 = q).map Prod.snd

variable {recs : List Rec} {ps : List (List UInt8)} {xs : List Val}

theorem Reordered.payloadsOf {recs' : List Rec} (h : Reordered recs recs') (q : Nat) :
    payloadsOf q recs = payloadsOf q recs' := by
  simp only [Codec.payloadsOf, h.2 q]

@[simp] theorem frame_nil : frame [] = [] := rfl

@[simp] theorem frame_cons (r : Rec) (recs : List Rec) :
    frame (r :: recs) =
      LittleEndian.encode 4 r.1 ++ LittleEndian.encode 4 r.2.length ++ r.2 ++ frame recs := by
  simp [frame]

@[simp] theorem frame_append (a b : List Rec) : frame (a ++ b) = frame a ++ frame b := by
  simp [frame]

theorem frame_length (recs : List Rec) :
    (frame recs).length = (recs.map fun r => 8 + r.2.length).sum := by
  induction recs with
  | nil => rfl
  | cons r recs ih =>
    simp only [frame_cons, List.length_append, LittleEndian.encode_length, ih, List.map_cons,
      List.sum_cons]

theorem frame_single_length (r : Rec) : (frame [r]).length = 8 + r.2.length := by
  rw [frame_length, List.map_singleton, List.sum_singleton]

theorem Reordered.frame_length {recs' : List Rec} (h : Reordered recs recs') :
    (frame recs).length = (frame recs').length := by
  rw [Codec.frame_length, Codec.frame_length]
  exact (h.1.map _).sum_eq

/-! ## What stands for an object on the wire -/

mutual

/-- `ps` are the payloads of the records that stand for the object, up to reordering. -/
def Wire : Ty → Val → List (List UInt8) → Prop
  | .fixed f, .fixed _ b, ps => ps = [LittleEndian.encode f.size b]
  | .string, .str b, ps => ps = [b]
  | .bytes, .bytes b, ps => ps = [b]
  | .vector t, .vec xs, ps => WireElems t xs ps
  | .map k v, .map prs, ps => ∃ pairs, WirePairs k v prs pairs ∧ ps = [frame (pairs.map (0, ·))]
  | .data n, .data fs, ps =>
      ∃ recs recs', WireMembers (S.members n) fs recs ∧ Reordered recs recs' ∧ ps = [frame recs']
  | _, _, _ => False

/-- One after the other, the payloads of the elements. -/
def WireElems (t : Ty) : List Val → List (List UInt8) → Prop
  | [], ps => ps = []
  | x :: xs, ps => ∃ a b, Wire t x a ∧ WireElems t xs b ∧ ps = a ++ b

/-- One payload for each pair. -/
def WirePairs (k v : Ty) : List (Val × Val) → List (List UInt8) → Prop
  | [], ps => ps = []
  | p :: prs, ps => ∃ a b, WirePair k v p a ∧ WirePairs k v prs b ∧ ps = a :: b

/-- The records of a pair: number 0 for the key and number 1 for the value. -/
def WirePair (k v : Ty) : Val × Val → List UInt8 → Prop
  | (key, val), pair =>
      ∃ a b recs, Wire k key a ∧ Wire v val b ∧
        Reordered (a.map (0, ·) ++ b.map (1, ·)) recs ∧ pair = frame recs

/-- The records of the members, each under its own number. -/
def WireMembers : List Member → List Val → List Rec → Prop
  | m :: ms, v :: vs, recs =>
      ∃ a b, Wire m.ty v a ∧ WireMembers ms vs b ∧ recs = a.map (m.seq, ·) ++ b
  | [], [], recs => recs = []
  | _, _, _ => False

end

/-- `bytes` is what `serialize` of class `n` writes for the object, up to reordering. -/
def WireMessage (n : String) (v : Val) (bytes : List UInt8) : Prop :=
  Wire S (.data n) v [bytes]

/-! ### Sizes -/

mutual

/-- How many bytes the records that stand for an object take, headers included. -/
def wireSize : Ty → Val → Nat
  | .fixed f, _ => 8 + f.size
  | .vector t, .vec xs => sizeElems t xs
  | .map k v, .map ps => 8 + sizePairs k v ps
  | .data n, .data fs => 8 + sizeMembers (S.members n) fs
  | _, .str b => 8 + b.length
  | _, .bytes b => 8 + b.length
  | _, _ => 0

def sizeElems (t : Ty) : List Val → Nat
  | [] => 0
  | x :: xs => wireSize t x + sizeElems t xs

def sizePairs (k v : Ty) : List (Val × Val) → Nat
  | [] => 0
  | p :: ps => sizePair k v p + sizePairs k v ps

def sizePair (k v : Ty) : Val × Val → Nat
  | (key, val) => 8 + (wireSize k key + wireSize v val)

def sizeMembers : List Member → List Val → Nat
  | m :: ms, v :: vs => wireSize m.ty v + sizeMembers ms vs
  | _, _ => 0

end

/-- The length of the encoding of an object of class `n`. -/
def encodedSize (n : String) (v : Val) : Nat := sizeMembers S (S.members n) v.fields

variable {S}

variable {q : Nat} {t : Ty} {v : Val}

theorem wireElems_length
    (ih : ∀ x ∈ xs, ∀ ps, Wire S t x ps → (frame (ps.map (q, ·))).length = wireSize S t x)
    (h : WireElems S t xs ps) : (frame (ps.map (q, ·))).length = sizeElems S t xs := by
  induction xs generalizing ps with
  | nil =>
    simp only [WireElems] at h
    simp [h, sizeElems]
  | cons x xs ihx =>
    obtain ⟨a, b, ha, hb, rfl⟩ := h
    have hx := ih x (by simp) a ha
    have hxs := ihx (fun y hy => ih y (by simp [hy])) hb
    simp [sizeElems, hx, hxs]

theorem wirePairs_length {k v : Ty} {prs : List (Val × Val)} (ih : ∀ p ∈ prs,
      (∀ q ps, Wire S k p.1 ps → (frame (ps.map (q, ·))).length = wireSize S k p.1) ∧
      ∀ q ps, Wire S v p.2 ps → (frame (ps.map (q, ·))).length = wireSize S v p.2)
    (h : WirePairs S k v prs ps) : (frame (ps.map (0, ·))).length = sizePairs S k v prs := by
  induction prs generalizing ps with
  | nil =>
    simp only [WirePairs] at h
    simp [h, sizePairs]
  | cons p prs ihp =>
    obtain ⟨a, b, ha, hb, rfl⟩ := h
    have htail := ihp (fun y hy => ih y (by simp [hy])) hb
    obtain ⟨hkey, hval⟩ := ih p (by simp)
    obtain ⟨key, val⟩ := p
    obtain ⟨kps, vps, recs, hk, hv, hre, rfl⟩ := ha
    have hpair : (frame recs).length = wireSize S k key + wireSize S v val := by
      rw [← hre.frame_length, frame_append, List.length_append, hkey 0 kps hk, hval 1 vps hv]
    simp only [List.map_cons, frame_cons, List.length_append, LittleEndian.encode_length, htail,
      hpair, sizePairs, sizePair]

theorem wireMembers_length {ms : List Member} {vs : List Val}
    (ih : ∀ p ∈ ms.zip vs, ∀ q ps, Wire S p.1.ty p.2 ps →
      (frame (ps.map (q, ·))).length = wireSize S p.1.ty p.2) (h : WireMembers S ms vs recs) :
    (frame recs).length = sizeMembers S ms vs := by
  induction ms generalizing vs recs with
  | nil =>
    cases vs with
    | nil =>
      simp only [WireMembers] at h
      simp [h, sizeMembers]
    | cons v vs => exact h.elim
  | cons m ms ihm =>
    cases vs with
    | nil => exact h.elim
    | cons v vs =>
      obtain ⟨a, b, ha, hb, rfl⟩ := h
      have hv := ih (m, v) (by simp) m.seq a ha
      have hvs := ihm (fun p hp => ih p (by simp [hp])) hb
      simp [sizeMembers, hv, hvs]

/-- Every encoding of an object has the same length. -/
theorem wire_length (hv : S.hasType t v = true) :
    ∀ (q : Nat) (ps : List (List UInt8)), Wire S t v ps →
      (frame (ps.map (q, ·))).length = wireSize S t v := by
  refine Schema.typed_induction ?_ ?_ ?_ ?_ ?_ ?_ hv
  · intro f b _ q ps h
    simp only [Wire] at h
    simp [h, wireSize, frame_single_length, -frame_cons]
  · intro b q ps h
    simp only [Wire] at h
    simp [h, wireSize, frame_single_length, -frame_cons]
  · intro b q ps h
    simp only [Wire] at h
    simp [h, wireSize, frame_single_length, -frame_cons]
  · intro t xs _ ih q ps h
    exact wireElems_length (fun x hx ps => ih x hx q ps) h
  · intro k v prs _ ih q ps h
    obtain ⟨pairs, hpairs, rfl⟩ := h
    have := wirePairs_length ih hpairs
    simp [wireSize, this, frame_single_length, -frame_cons]
  · intro n fs _ _ ih q ps h
    obtain ⟨recs, recs', hrecs, hre, rfl⟩ := h
    have := wireMembers_length ih hrecs
    simp [wireSize, ← this, hre.frame_length, frame_single_length, -frame_cons]

theorem wireMessage_length {n : String} {bytes : List UInt8} (hv : S.hasType (.data n) v = true)
    (h : WireMessage S n v bytes) : bytes.length = encodedSize S n v := by
  have hlen := wire_length hv 0 [bytes] h
  cases v with
  | data fs =>
    simp only [List.map_cons, List.map_nil, frame_cons, frame_nil, List.length_append,
      LittleEndian.encode_length, List.length_nil, wireSize] at hlen
    simp only [encodedSize, Val.fields]
    omega
  | _ => exact h.elim

/-! ### Which members write records -/

/-- `WritePb` appends at least one record; only a vector without elements does not. -/
def writesRecord : Ty → Val → Bool
  | .vector t, .vec xs => xs.any (writesRecord t)
  | _, _ => true

/-- The members that write a record have numbers that a header can carry. -/
def seqFits (S : Schema) : Ty → Val → Bool
  | .data n, .data fs =>
      ((S.members n).zip fs).all fun p => !writesRecord p.1.ty p.2 || p.1.seq < 2 ^ 31
  | _, _ => true

theorem wireElems_eq_nil (ih : ∀ x ∈ xs, ∀ ps, Wire S t x ps → (ps = [] ↔ writesRecord t x = false))
    (h : WireElems S t xs ps) : ps = [] ↔ xs.any (writesRecord t) = false := by
  induction xs generalizing ps with
  | nil =>
    simp only [WireElems] at h
    simp [h]
  | cons x xs ihx =>
    obtain ⟨a, b, ha, hb, rfl⟩ := h
    have hx := ih x (by simp) a ha
    have hxs := ihx (fun y hy => ih y (by simp [hy])) hb
    rw [List.append_eq_nil_iff, hx, hxs, List.any_cons, Bool.or_eq_false_iff]

theorem wire_eq_nil (hv : S.hasType t v = true) :
    ∀ ps, Wire S t v ps → (ps = [] ↔ writesRecord t v = false) := by
  refine Schema.typed_induction ?_ ?_ ?_ ?_ ?_ ?_ hv
  · intro f b _ ps h
    simp only [Wire] at h
    simp [h, writesRecord]
  · intro b ps h
    simp only [Wire] at h
    simp [h, writesRecord]
  · intro b ps h
    simp only [Wire] at h
    simp [h, writesRecord]
  · intro t xs _ ih ps h
    simp only [writesRecord]
    exact wireElems_eq_nil ih h
  · intro k v prs _ _ ps h
    obtain ⟨pairs, -, rfl⟩ := h
    simp [writesRecord]
  · intro n fs _ _ _ ps h
    obtain ⟨recs, recs', -, -, rfl⟩ := h
    simp [writesRecord]

/-! ## The writer writes the wire format -/

theorem writePbRaw_frame {p : List UInt8} (hq : q < 2 ^ 31) (hp : p.length < 2 ^ 31) :
    writePbRaw q p (p.length % 2 ^ 32) = .ok (frame [(q, p)]) := by
  have hmod : p.length % 2 ^ 32 = p.length := Nat.mod_eq_of_lt (by omega)
  have hneg : ¬ (2 ^ 31 ≤ q ∨ 2 ^ 31 ≤ p.length) := by omega
  rw [hmod, writePbRaw, if_neg hneg, List.take_length]
  simp

theorem writeChecked_frame {p : List UInt8} (hq : q < 2 ^ 31) (hp : p.length < 2 ^ 31) :
    writeChecked q p = .ok (frame [(q, p)]) := by
  have hneg : ¬ 0x7FFFFFFF < p.length := by omega
  rw [writeChecked, if_neg hneg, writePbRaw_frame hq hp]

/-- What the induction below says about one object. -/
def WritesWire (S : Schema) (t : Ty) (v : Val) : Prop :=
  ∀ q, (writesRecord t v = true → q < 2 ^ 31) → wireSize S t v < 2 ^ 31 →
    ∃ ps, Wire S t v ps ∧ writePb S t q v = .ok (frame (ps.map (q, ·)))

theorem writeElems_wire (ih : ∀ x ∈ xs, WritesWire S t x)
    (hq : xs.any (writesRecord t) = true → q < 2 ^ 31) (hsize : sizeElems S t xs < 2 ^ 31) :
    ∃ ps, WireElems S t xs ps ∧ writeElems S t q xs = .ok (frame (ps.map (q, ·))) := by
  induction xs with
  | nil => exact ⟨[], rfl, rfl⟩
  | cons x xs ihx =>
    simp only [sizeElems] at hsize
    simp only [List.any_cons, Bool.or_eq_true] at hq
    obtain ⟨a, ha, hwa⟩ := ih x (by simp) q (fun h => hq (.inl h)) (by omega)
    obtain ⟨b, hb, hwb⟩ := ihx (fun y hy => ih y (by simp [hy])) (fun h => hq (.inr h)) (by omega)
    refine ⟨a ++ b, ⟨a, b, ha, hb, rfl⟩, ?_⟩
    simp only [writeElems, hwa, hwb, List.map_append, frame_append]
    rfl

theorem writePairs_wire {k v : Ty} {prs : List (Val × Val)}
    (hty : ∀ p ∈ prs, S.hasType k p.1 = true ∧ S.hasType v p.2 = true)
    (ih : ∀ p ∈ prs, WritesWire S k p.1 ∧ WritesWire S v p.2)
    (hsize : sizePairs S k v prs < 2 ^ 31) :
    ∃ ps, WirePairs S k v prs ps ∧ writePairs S k v prs = .ok (frame (ps.map (0, ·))) := by
  induction prs with
  | nil => exact ⟨[], rfl, rfl⟩
  | cons p prs ihp =>
    obtain ⟨key, val⟩ := p
    simp only [sizePairs, sizePair] at hsize
    obtain ⟨hkey, hval⟩ := ih (key, val) (by simp)
    obtain ⟨htk, htv⟩ := hty (key, val) (by simp)
    obtain ⟨a, ha, hwa⟩ := hkey 0 (by omega) (by dsimp only; omega)
    obtain ⟨b, hb, hwb⟩ := hval 1 (by omega) (by dsimp only; omega)
    obtain ⟨rest, hrest, hwrest⟩ := ihp (fun y hy => hty y (by simp [hy]))
      (fun y hy => ih y (by simp [hy])) (by omega)
    have hla := wire_length htk 0 a ha
    have hlb := wire_length htv 1 b hb
    have hlen : (frame (a.map (0, ·)) ++ frame (b.map (1, ·))).length < 2 ^ 31 := by
      dsimp only at hla hlb
      rw [List.length_append, hla, hlb]
      omega
    refine ⟨frame (a.map (0, ·) ++ b.map (1, ·)) :: rest,
      ⟨_, rest, ⟨a, b, _, ha, hb, Reordered.refl _, rfl⟩, hrest, rfl⟩, ?_⟩
    have hraw := writePbRaw_frame (show 0 < 2 ^ 31 by omega) hlen
    simp only [writePairs, writePair, hwa, hwb, hwrest, bind, Except.bind, hraw, pure,
      Except.pure, List.map_cons]
    rw [frame_append, ← frame_append [_] (rest.map _), List.singleton_append]

theorem writeMembers_wire {ms : List Member} {vs : List Val} (hlen : vs.length = ms.length)
    (hty : ∀ p ∈ ms.zip vs, S.hasType p.1.ty p.2 = true)
    (hseq : ∀ p ∈ ms.zip vs, writesRecord p.1.ty p.2 = true → p.1.seq < 2 ^ 31)
    (ih : ∀ p ∈ ms.zip vs, WritesWire S p.1.ty p.2) (hsize : sizeMembers S ms vs < 2 ^ 31) :
    ∃ recs, WireMembers S ms vs recs ∧ writeMembers S ms vs = .ok (frame recs) := by
  induction ms generalizing vs with
  | nil =>
    cases vs with
    | nil => exact ⟨[], rfl, rfl⟩
    | cons v vs => simp at hlen
  | cons m ms ihm =>
    cases vs with
    | nil => simp at hlen
    | cons v vs =>
      simp only [sizeMembers] at hsize
      have hm := hseq (m, v) (by simp)
      have hmod : writesRecord m.ty v = true → m.seq % 2 ^ 32 = m.seq := fun h =>
        Nat.mod_eq_of_lt (by have := hm h; dsimp only at this; omega)
      obtain ⟨a, ha, hwa⟩ := ih (m, v) (by simp) (m.seq % 2 ^ 32)
        (fun h => by rw [hmod h]; exact hm h) (by dsimp only; omega)
      obtain ⟨b, hb, hwb⟩ := ihm (by simpa using hlen) (fun p hp => hty p (by simp [hp]))
        (fun p hp => hseq p (by simp [hp])) (fun p hp => ih p (by simp [hp])) (by omega)
      refine ⟨a.map (m.seq, ·) ++ b, ⟨a, b, ha, hb, rfl⟩, ?_⟩
      have hmap : a.map (m.seq % 2 ^ 32, ·) = a.map (m.seq, ·) := by
        -- a member that writes nothing may have any number
        cases hw : writesRecord m.ty v with
        | true => rw [hmod hw]
        | false =>
          rw [(wire_eq_nil (hty (m, v) (by simp)) a ha).2 hw]
          rfl
      simp only [writeMembers, hwa, hwb, bind, Except.bind, pure, Except.pure, hmap,
        frame_append]

/-- **The writer succeeds and writes the wire format**, when the encoding is shorter than 2 ^ 31 and
the members that write records have numbers below 2 ^ 31. -/
theorem writePb_wire (hv : S.hasType t v = true) (hseq : S.everyNode (seqFits S) t v = true) :
    WritesWire S t v := by
  revert hseq
  refine Schema.typed_induction ?_ ?_ ?_ ?_ ?_ ?_ hv
  · intro f b _ _ q hq _
    have hsize : f.size < 2 ^ 31 := by cases f <;> decide
    refine ⟨[LittleEndian.encode f.size b], rfl, ?_⟩
    have hraw := writePbRaw_frame (hq rfl)
      (show (LittleEndian.encode f.size b).length < 2 ^ 31 by simpa using hsize)
    rw [LittleEndian.encode_length, Nat.mod_eq_of_lt (by omega)] at hraw
    simpa [writePb] using hraw
  · intro b _ q hq hsize
    simp only [wireSize] at hsize
    exact ⟨[b], rfl, by rw [writePb, writeChecked_frame (hq rfl) (by omega)]; rfl⟩
  · intro b _ q hq hsize
    simp only [wireSize] at hsize
    exact ⟨[b], rfl, by rw [writePb, writeChecked_frame (hq rfl) (by omega)]; rfl⟩
  · intro t xs _ ih hseq q hq hsize
    have hparts := (Schema.everyNode_vector.1 hseq).2
    simp only [wireSize] at hsize
    exact writeElems_wire (fun x hx => ih x hx (hparts x hx)) hq hsize
  · intro k v prs hty ih hseq q hq hsize
    have hparts := (Schema.everyNode_map.1 hseq).2
    simp only [wireSize] at hsize
    obtain ⟨ps, hps, hw⟩ := writePairs_wire hty
      (fun p hp => ⟨(ih p hp).1 (hparts p hp).1, (ih p hp).2 (hparts p hp).2⟩) (by omega)
    refine ⟨[frame (ps.map (0, ·))], ⟨ps, hps, rfl⟩, ?_⟩
    have hlen : (frame (ps.map (0, ·))).length < 2 ^ 31 := by
      have hall := wire_length (Schema.hasType_map.2 hty) 0 [frame (ps.map (0, ·))] ⟨ps, hps, rfl⟩
      simp only [List.map_cons, List.map_nil, frame_single_length, wireSize] at hall
      omega
    simp only [writePb, hw, bind, Except.bind, writePbRaw_frame (hq rfl) hlen, List.map_cons,
      List.map_nil]
  · intro n fs hlen hty ih hseq q hq hsize
    obtain ⟨hself, hparts⟩ := Schema.everyNode_data.1 hseq
    simp only [wireSize] at hsize
    have hnums : ∀ p ∈ (S.members n).zip fs, writesRecord p.1.ty p.2 = true → p.1.seq < 2 ^ 31 := by
      intro p hp hw
      have := List.all_eq_true.1 hself p hp
      simpa [hw] using this
    obtain ⟨recs, hrecs, hw⟩ := writeMembers_wire hlen hty hnums
      (fun p hp => ih p hp (hparts p hp)) (by omega)
    have hlenr : (frame recs).length = sizeMembers S (S.members n) fs :=
      wireMembers_length (fun p hp => wire_length (hty p hp)) hrecs
    refine ⟨[frame recs], ⟨recs, recs, hrecs, Reordered.refl _, rfl⟩, ?_⟩
    simp only [writePb, hw, bind, Except.bind, writeChecked_frame (hq rfl)
      (show (frame recs).length < 2 ^ 31 by omega), List.map_cons, List.map_nil]

end OpenIdea.Codec
