import OpenIdea.Codec.Payload

/-!
# Round trip and schema evolution

An object written under one schema and read under another: `evolve` says what the reader gets.
Members are matched by number; a member the writer does not have stays as constructed, and one the
reader does not have is skipped.  The keys of a map evolve too, so keys that differ only in members
the reader dropped become one key, and the first of their pairs stays.  The main result is
`codec_round_trip`; `evolved_keys_collide` is a map whose keys become one.
-/

set_option autoImplicit false

namespace OpenIdea.Codec

open OpenIdea.Lib

/-! ## What the reader gets -/

section Evolve

variable (S S' : Schema)

mutual

/-- The object as the schema `S'` reads it. -/
def evolve : Ty → Val → Val
  | .vector t, .vec xs => .vec (evolveElems t xs)
  | .map k v, .map ps => .map ((evolvePairs k v ps).foldl Val.insert [])
  | .data n, .data fs => .data ((S'.members n).map fun m' => evolveMember m' (S.members n) fs)
  | _, v => v

def evolveElems (t : Ty) : List Val → List Val
  | [] => []
  | x :: xs => evolve t x :: evolveElems t xs

def evolvePairs (k v : Ty) : List (Val × Val) → List (Val × Val)
  | [] => []
  | p :: ps => evolvePair k v p :: evolvePairs k v ps

def evolvePair (k v : Ty) : Val × Val → Val × Val
  | (key, val) => (evolve k key, evolve v val)

/-- The member of the writer with the number of `m'`, or the value `m'` is constructed with. -/
def evolveMember (m' : Member) : List Member → List Val → Val
  | m :: ms, v :: vs => if m.seq = m'.seq then evolve m.ty v else evolveMember m' ms vs
  | _, _ => S'.fresh m'.ty

end

theorem evolveElems_eq (t : Ty) (xs : List Val) : evolveElems S S' t xs = xs.map (evolve S S' t) := by
  induction xs with
  | nil => rfl
  | cons x xs ih => rw [evolveElems, ih, List.map_cons]

theorem evolvePairs_eq (k v : Ty) (ps : List (Val × Val)) :
    evolvePairs S S' k v ps = ps.map fun p => (evolve S S' k p.1, evolve S S' v p.2) := by
  induction ps with
  | nil => rfl
  | cons p ps ih => rw [evolvePairs, ih, List.map_cons, evolvePair]

/-- An object of class `n` of `S` as class `n'` of `S'` reads it. -/
def evolveAs (n n' : String) (v : Val) : Val :=
  .data ((S'.members n').map fun m' => evolveMember S S' m' (S.members n) v.fields)

end Evolve

/-! ## Objects the wire format can carry -/

namespace Ty

def isVector : Ty → Bool
  | .vector _ => true
  | _ => false

/-- No vector directly in a vector, as a map key or as a map value. -/
def plain : Ty → Bool
  | .vector t => !t.isVector && t.plain
  | .map k v => !k.isVector && !v.isVector && k.plain && v.plain
  | _ => true

end Ty

/-- A vector in a vector has one element, and a vector that is a key or a value has at least one.
Anything else cannot be told from its records. -/
def shaped : Ty → Val → Bool
  | .vector t, .vec xs => !t.isVector || xs.all fun x => x.elems.length = 1
  | .map k v, .map ps => ps.all fun p =>
      (!k.isVector || !p.1.elems.isEmpty) && (!v.isVector || !p.2.elems.isEmpty)
  | _, _ => true

variable {S S' : Schema}

variable {t : Ty} {v : Val} {recs : List Rec} {ms : List Member} {vs : List Val} {depth : Nat}
  {n : String}

/-- An object inside a vector: it has one payload. -/
theorem wire_single (hv : S.hasType t v = true) (hshape : S.everyNode shaped t v = true)
    (hone : t.isVector = true → v.elems.length = 1) : ∀ ps, Wire S t v ps → ∃ p, ps = [p] := by
  revert hshape hone
  refine Schema.typed_induction ?_ ?_ ?_ ?_ ?_ ?_ hv
  · intro f b _ _ _ ps h
    exact ⟨_, h⟩
  · intro b _ _ ps h
    exact ⟨_, h⟩
  · intro b _ _ ps h
    exact ⟨_, h⟩
  · intro t xs _ ih hshape hone ps h
    obtain ⟨hself, hparts⟩ := Schema.everyNode_vector.1 hshape
    obtain ⟨x, rfl⟩ := List.length_eq_one_iff.1 (hone rfl)
    obtain ⟨a, b, ha, hb, rfl⟩ := h
    have hb' : b = [] := hb
    rw [hb', List.append_nil]
    refine ih x (by simp) (hparts x (by simp)) (fun ht => ?_) a ha
    simpa [shaped, ht] using hself
  · intro k v prs _ _ _ _ ps h
    obtain ⟨pairs, -, hps⟩ := h
    exact ⟨_, hps⟩
  · intro n fs _ _ _ _ _ ps h
    obtain ⟨recs, recs', -, -, hps⟩ := h
    exact ⟨_, hps⟩

/-- A key or a value of a pair: it has a payload. -/
theorem wire_ne_nil (hv : S.hasType t v = true) (hshape : S.everyNode shaped t v = true)
    (hsome : t.isVector = true → v.elems ≠ []) {ps : List (List UInt8)} (h : Wire S t v ps) :
    ps ≠ [] := by
  cases t with
  | vector t =>
    cases v with
    | vec xs =>
      obtain ⟨hself, hparts⟩ := Schema.everyNode_vector.1 hshape
      cases xs with
      | nil => exact absurd rfl (hsome rfl)
      | cons x xs =>
        obtain ⟨a, b, ha, -, rfl⟩ := h
        have hx : t.isVector = true → x.elems.length = 1 := by
          intro ht
          simp only [shaped, ht, Bool.not_true, Bool.false_or, List.all_cons,
            Bool.and_eq_true, decide_eq_true_eq] at hself
          exact hself.1
        obtain ⟨p, rfl⟩ := wire_single (Schema.hasType_vector.1 hv x (by simp))
          (hparts x (by simp)) hx a ha
        simp
    | _ => exact h.elim
  | _ =>
    obtain ⟨p, rfl⟩ := wire_single hv hshape (fun ht => by simp [Ty.isVector] at ht) ps h
    simp

/-! ## Reading what stands for an object

`Decodes` is what the induction over the object shows: its payloads, read one after the other,
give what the reader gets. -/

/-- Two schemas that agree on the types of the members they share. -/
structure Evolution (S S' : Schema) : Prop where
  distinct : ∀ c, ((S.members c).map Member.seq).Nodup
  distinct' : ∀ c, ((S'.members c).map Member.seq).Nodup
  sameType : ∀ c, ∀ m ∈ S.members c, ∀ m' ∈ S'.members c, m.seq = m'.seq → m.ty = m'.ty

/-- What the induction says about one object: its payloads, read into a fresh object, give its
image. -/
def Decodes (S S' : Schema) (t : Ty) (v : Val) : Prop :=
  ∀ (depth : Nat) (ps : List (List UInt8)), Wire S t v ps →
    (∀ p ∈ ps, p.length < depth ∧ p.length < 2 ^ 31) →
    ps.foldlM (readPayload S' (deserializeAt S' depth) t) (S'.fresh t) = .ok (evolve S S' t v)

theorem mem_frame_length {r : Rec} (h : r ∈ recs) : 8 + r.2.length ≤ (frame recs).length := by
  induction recs with
  | nil => simp at h
  | cons r' recs ih =>
    rw [← List.singleton_append, frame_append, List.length_append, frame_single_length]
    rcases List.mem_cons.1 h with rfl | h
    · omega
    · have := ih h
      omega

section Elements

variable {d : String → Val → BytesStream → Except Fault (Val × BytesStream)}

theorem readPayload_vector {acc : List Val} {p : List UInt8} {e : Val}
    (h : readPayload S d t (S.fresh t) p = .ok e) :
    readPayload S d (.vector t) (.vec acc) p = .ok (.vec (acc ++ [e])) := by
  simp only [readPayload] at h
  simp only [readPayload, readPb, Val.elems]
  cases hr : readPb S d t p.length (S.fresh t) (.ofBytes p) with
  | error e => rw [hr] at h; cases h
  | ok r =>
    rw [hr] at h
    injection h with h
    rw [← h]
    rfl

theorem foldlM_vector {xs : List Val} (hone : ∀ x ∈ xs, ∀ ps, Wire S t x ps → ∃ p, ps = [p])
    (ih : ∀ x ∈ xs, Decodes S S' t x) {ps : List (List UInt8)} (h : WireElems S t xs ps)
    (hlen : ∀ p ∈ ps, p.length < depth ∧ p.length < 2 ^ 31) (acc : List Val) :
    ps.foldlM (readPayload S' (deserializeAt S' depth) (.vector t)) (.vec acc) =
      .ok (.vec (acc ++ evolveElems S S' t xs)) := by
  induction xs generalizing ps acc with
  | nil =>
    have hps : ps = [] := h
    simp [hps, evolveElems]
    rfl
  | cons x xs ihx =>
    obtain ⟨a, b, ha, hb, rfl⟩ := h
    obtain ⟨p, rfl⟩ := hone x (by simp) a ha
    have hx := ih x (by simp) depth [p] ha (fun q hq => hlen q (by simp at hq; simp [hq]))
    have hp : readPayload S' (deserializeAt S' depth) t (S'.fresh t) p =
        .ok (evolve S S' t x) := by
      simpa using hx
    have htail := ihx (fun y hy => hone y (by simp [hy])) (fun y hy => ih y (by simp [hy])) hb
      (fun q hq => hlen q (by simp [hq])) (acc ++ [evolve S S' t x])
    rw [List.singleton_append, List.foldlM_cons, readPayload_vector hp, ok_bind, htail]
    simp [evolveElems]

end Elements

/-! ### Members -/

theorem payloadsOf_append (q : Nat) (a b : List Rec) :
    payloadsOf q (a ++ b) = payloadsOf q a ++ payloadsOf q b := by
  simp [payloadsOf]

theorem payloadsOf_map (q q' : Nat) (ps : List (List UInt8)) :
    payloadsOf q (ps.map (q', ·)) = if q' = q then ps else [] := by
  by_cases h : q' = q
  · simp [payloadsOf, h, List.filter_map, Function.comp_def]
  · simp [payloadsOf, h, List.filter_map, Function.comp_def]

/-- A number no member has. -/
theorem wireMembers_other {q : Nat} (h : WireMembers S ms vs recs) (hq : ∀ m ∈ ms, m.seq ≠ q) :
    payloadsOf q recs = [] := by
  induction ms generalizing vs recs with
  | nil =>
    cases vs with
    | nil => simp only [WireMembers] at h; simp [h, payloadsOf]
    | cons v vs => exact h.elim
  | cons m ms ih =>
    cases vs with
    | nil => exact h.elim
    | cons v vs =>
      obtain ⟨a, b, -, hb, rfl⟩ := h
      rw [payloadsOf_append, payloadsOf_map, if_neg (hq m (by simp)),
        ih hb fun m' hm' => hq m' (by simp [hm'])]
      rfl

/-- The payloads under a member's number are those of the writer's member with that number. -/
theorem wireMembers_payloads {m' : Member} (h : WireMembers S ms vs recs)
    (hnodup : (ms.map Member.seq).Nodup) :
    (∃ m v, (m, v) ∈ ms.zip vs ∧ m.seq = m'.seq ∧ Wire S m.ty v (payloadsOf m'.seq recs) ∧
        evolveMember S S' m' ms vs = evolve S S' m.ty v) ∨
      (payloadsOf m'.seq recs = [] ∧ evolveMember S S' m' ms vs = S'.fresh m'.ty) := by
  induction ms generalizing vs recs with
  | nil =>
    cases vs with
    | nil =>
      simp only [WireMembers] at h
      exact .inr ⟨by simp [h, payloadsOf], rfl⟩
    | cons v vs => exact h.elim
  | cons m ms ih =>
    cases vs with
    | nil => exact h.elim
    | cons v vs =>
      obtain ⟨a, b, ha, hb, rfl⟩ := h
      simp only [List.map_cons, List.nodup_cons] at hnodup
      by_cases hm : m.seq = m'.seq
      · have hrest : payloadsOf m'.seq b = [] :=
          wireMembers_other hb fun m₁ hm₁ he =>
            hnodup.1 (List.mem_map.2 ⟨m₁, hm₁, by rw [he, hm]⟩)
        refine .inl ⟨m, v, by simp, hm, ?_, by simp [evolveMember, hm]⟩
        rw [payloadsOf_append, payloadsOf_map, if_pos hm, hrest, List.append_nil]
        exact ha
      · have hpay : payloadsOf m'.seq (a.map (m.seq, ·) ++ b) = payloadsOf m'.seq b := by
          rw [payloadsOf_append, payloadsOf_map, if_neg hm, List.nil_append]
        have hev : evolveMember S S' m' (m :: ms) (v :: vs) = evolveMember S S' m' ms vs := by
          simp [evolveMember, hm]
        rw [hpay, hev]
        rcases ih hb hnodup.2 with ⟨m₁, v₁, hmem, h1, h2, h3⟩ | h
        · exact .inl ⟨m₁, v₁, by simp [hmem], h1, h2, h3⟩
        · exact .inr h

theorem members_decode {ms' : List Member} {recs' : List Rec} (h : WireMembers S ms vs recs)
    (hre : Reordered recs recs') (hnodup : (ms.map Member.seq).Nodup)
    (hsame : ∀ m ∈ ms, ∀ m' ∈ ms', m.seq = m'.seq → m.ty = m'.ty)
    (ih : ∀ p ∈ ms.zip vs, Decodes S S' p.1.ty p.2)
    (hlen : ∀ r ∈ recs', r.2.length < depth ∧ r.2.length < 2 ^ 31) :
    SlotsRead S' (deserializeAt S' depth) (slots ms') (ms'.map fun m => S'.fresh m.ty)
      (ms'.map fun m' => evolveMember S S' m' ms vs) recs' := by
  induction ms' with
  | nil => trivial
  | cons m' ms' ihm =>
    refine ⟨?_, ihm fun m hm m₁ hm₁ => hsame m hm m₁ (by simp [hm₁])⟩
    have hshort : ∀ p ∈ payloadsOf m'.seq recs', p.length < depth ∧ p.length < 2 ^ 31 := by
      intro p hp
      obtain ⟨r, hr, rfl⟩ := List.mem_map.1 hp
      exact hlen r (List.mem_of_mem_filter hr)
    have hpay := hre.payloadsOf m'.seq
    rcases wireMembers_payloads h hnodup with ⟨m, v, hmem, hseq, hw, hev⟩ | ⟨hnil, hev⟩
    · have hty : m.ty = m'.ty := hsame m (List.of_mem_zip hmem).1 m' (by simp) hseq
      have := ih (m, v) hmem depth _ hw (by rw [hpay]; exact hshort)
      rw [hpay] at this
      dsimp only at this ⊢
      rw [hev, ← this, hty]
    · dsimp only
      rw [← hpay, hnil, hev]
      rfl

theorem clear_fresh (ms : List Member) :
    List.zipWith clearMember ms (ms.map fun m => S.fresh m.ty) = ms.map fun m => S.fresh m.ty := by
  induction ms with
  | nil => rfl
  | cons m ms ih =>
    simp only [List.map_cons, List.zipWith_cons_cons, ih]
    congr 1
    simp only [clearMember]
    split
    · rename_i t hty
      rw [hty]
      rfl
    · rename_i k v hty
      rw [hty]
      rfl
    · rfl

/-! ### Pairs -/

section Pairs

variable (S) (d : String → Val → BytesStream → Except Fault (Val × BytesStream))

/-- A whole pair, by its payload. -/
def insertPair (k v : Ty) (ps : List (Val × Val)) (r : Rec) : Except Fault (List (Val × Val)) := do
  let (st, _) ← forRecords (readPairField (readPb S d k) (readPb S d v)) r.2.length
    ⟨S.fresh k, S.fresh v, false, false⟩ (.ofBytes r.2)
  if !st.gotKey || !st.gotVal then
    throw .parser
  return Val.insert ps (st.key, st.val)

variable {S d}

theorem readPair_local {k v : Ty} {ps : List (Val × Val)} {q size : Nat} {all : BytesStream}
    (h : all.cur + size ≤ all.size) :
    readPair (readPb S d k) (readPb S d v) (S.fresh k) (S.fresh v) q size ps all =
      (insertPair S d k v ps (q, all.rest.take size)).map fun ps => (ps, all.moved size) := by
  simp only [readPair, insertPair, BytesStream.curBytes_ok h, BytesStream.addCurPos_ok h, bind,
    Except.bind]
  cases forRecords (readPairField (readPb S d k) (readPb S d v)) (all.rest.take size).length
      ⟨S.fresh k, S.fresh v, false, false⟩ (.ofBytes (all.rest.take size)) with
  | error e => rfl
  | ok r =>
    dsimp only
    split <;> rfl

theorem insertPair_frame {k v : Ty} {ps : List (Val × Val)} {key val : Val} {q : Nat}
    (hrecs : ValidRecs recs) (hlen : (frame recs).length < 2 ^ 64)
    (hkey : (payloadsOf 0 recs).foldlM (readPayload S d k) (S.fresh k) = .ok key)
    (hval : (payloadsOf 1 recs).foldlM (readPayload S d v) (S.fresh v) = .ok val)
    (hk : payloadsOf 0 recs ≠ []) (hv : payloadsOf 1 recs ≠ []) :
    insertPair S d k v ps (q, frame recs) = .ok (Val.insert ps (key, val)) := by
  have hbody : ∀ q size st (os : BytesStream), os.InBounds → os.cur + size ≤ os.size →
      readPairField (readPb S d k) (readPb S d v) q size st os =
        (pairStep S d k v st (q, os.rest.take size)).map fun st => (st, os.moved size) :=
    fun q size st os hos hsize => readPairField_local hos hsize
  have hloop := forRecords_frame hbody hrecs (BytesStream.inBounds_ofBytes hlen) rfl
    (Nat.sub_le _ _) ⟨S.fresh k, S.fresh v, false, false⟩
  have hfold : recs.foldlM (pairStep S d k v) ⟨S.fresh k, S.fresh v, false, false⟩ =
      .ok ⟨key, val, true, true⟩ := by
    rw [foldlM_pairStep hkey hval]
    simp [hk, hv]
  rw [hfold] at hloop
  simp only [insertPair]
  rw [show (frame recs).length = (BytesStream.ofBytes (frame recs)).size from rfl, hloop]
  rfl

end Pairs

theorem wirePair_decode {k v : Ty} {key val : Val} {pair : List UInt8} {q : Nat}
    (h : WirePair S k v (key, val) pair) (hk : Decodes S S' k key) (hv : Decodes S S' v val)
    (hkey : ∀ ps, Wire S k key ps → ps ≠ []) (hval : ∀ ps, Wire S v val ps → ps ≠ [])
    (hlen : pair.length < depth ∧ pair.length < 2 ^ 31) (acc : List (Val × Val)) :
    insertPair S' (deserializeAt S' depth) k v acc (q, pair) =
      .ok (Val.insert acc (evolve S S' k key, evolve S S' v val)) := by
  obtain ⟨a, b, recs, ha, hb, hre, rfl⟩ := h
  have h0 : payloadsOf 0 recs = a := by
    rw [← hre.payloadsOf 0, payloadsOf_append, payloadsOf_map, payloadsOf_map]
    simp
  have h1 : payloadsOf 1 recs = b := by
    rw [← hre.payloadsOf 1, payloadsOf_append, payloadsOf_map, payloadsOf_map]
    simp
  have hshort : ∀ r ∈ recs, r.2.length < depth ∧ r.2.length < 2 ^ 31 := by
    intro r hr
    have := mem_frame_length hr
    omega
  have hvalid : ValidRecs recs := by
    intro r hr
    refine ⟨?_, (hshort r hr).2⟩
    have hmem := hre.1.mem_iff.2 hr
    simp only [List.mem_append, List.mem_map] at hmem
    rcases hmem with ⟨p, -, rfl⟩ | ⟨p, -, rfl⟩ <;> simp
  have hpay : ∀ i, ∀ p ∈ payloadsOf i recs, p.length < depth ∧ p.length < 2 ^ 31 := by
    intro i p hp
    obtain ⟨r, hr, rfl⟩ := List.mem_map.1 hp
    exact hshort r (List.mem_of_mem_filter hr)
  refine insertPair_frame hvalid (by omega) ?_ ?_ ?_ ?_
  · rw [h0]
    exact hk depth a ha (h0 ▸ hpay 0)
  · rw [h1]
    exact hv depth b hb (h1 ▸ hpay 1)
  · rw [h0]
    exact hkey a ha
  · rw [h1]
    exact hval b hb

theorem wirePairs_decode {k v : Ty} {prs : List (Val × Val)}
    (ih : ∀ p ∈ prs, Decodes S S' k p.1 ∧ Decodes S S' v p.2)
    (hne : ∀ p ∈ prs, (∀ ps, Wire S k p.1 ps → ps ≠ []) ∧ ∀ ps, Wire S v p.2 ps → ps ≠ [])
    {pairs : List (List UInt8)} (h : WirePairs S k v prs pairs)
    (hlen : ∀ p ∈ pairs, p.length < depth ∧ p.length < 2 ^ 31) (acc : List (Val × Val)) :
    (pairs.map (0, ·)).foldlM (insertPair S' (deserializeAt S' depth) k v) acc =
      .ok ((evolvePairs S S' k v prs).foldl Val.insert acc) := by
  induction prs generalizing pairs acc with
  | nil =>
    have hp : pairs = [] := h
    rw [hp]
    rfl
  | cons p prs ihp =>
    obtain ⟨a, b, ha, hb, rfl⟩ := h
    obtain ⟨key, val⟩ := p
    obtain ⟨hk, hv⟩ := ih (key, val) (by simp)
    obtain ⟨hkey, hval⟩ := hne (key, val) (by simp)
    rw [List.map_cons, List.foldlM_cons,
      wirePair_decode ha hk hv hkey hval (hlen a (by simp)) acc, ok_bind]
    exact ihp (fun p hp => ih p (by simp [hp])) (fun p hp => hne p (by simp [hp])) hb
      (fun p hp => hlen p (by simp [hp])) _

/-! ### Every object -/

theorem wireMembers_valid (h : WireMembers S ms vs recs)
    (hty : ∀ p ∈ ms.zip vs, S.hasType p.1.ty p.2 = true)
    (hseq : ∀ p ∈ ms.zip vs, writesRecord p.1.ty p.2 = true → p.1.seq < 2 ^ 31) :
    ∀ r ∈ recs, r.1 < 2 ^ 31 := by
  induction ms generalizing vs recs with
  | nil =>
    cases vs with
    | nil => simp only [WireMembers] at h; simp [h]
    | cons v vs => exact h.elim
  | cons m ms ih =>
    cases vs with
    | nil => exact h.elim
    | cons v vs =>
      obtain ⟨a, b, ha, hb, rfl⟩ := h
      intro r hr
      rcases List.mem_append.1 hr with hr | hr
      · obtain ⟨p, hp, rfl⟩ := List.mem_map.1 hr
        refine hseq (m, v) (by simp) ?_
        cases hw : writesRecord m.ty v with
        | true => rfl
        | false =>
          rw [(wire_eq_nil (hty (m, v) (by simp)) a ha).2 hw] at hp
          simp at hp
      · exact ih hb (fun p hp => hty p (by simp [hp])) (fun p hp => hseq p (by simp [hp])) r hr

theorem seqFits_members {fs : List Val} (h : seqFits S (.data n) (.data fs) = true) :
    ∀ p ∈ (S.members n).zip fs, writesRecord p.1.ty p.2 = true → p.1.seq < 2 ^ 31 := by
  intro p hp hw
  have := List.all_eq_true.1 h p hp
  simpa [hw] using this

/-- The records of an object of class `n`, read as class `n'` of `S'`. -/
theorem deserializeAt_wire {n' : String} {fs : List Val} {recs' : List Rec} (hev : Evolution S S')
    (hroot : ∀ m ∈ S.members n, ∀ m' ∈ S'.members n', m.seq = m'.seq → m.ty = m'.ty)
    (hty : ∀ p ∈ (S.members n).zip fs, S.hasType p.1.ty p.2 = true)
    (hseq : seqFits S (.data n) (.data fs) = true)
    (ih : ∀ p ∈ (S.members n).zip fs, Decodes S S' p.1.ty p.2)
    (hrecs : WireMembers S (S.members n) fs recs) (hre : Reordered recs recs')
    (hlen : (frame recs').length < depth + 1 ∧ (frame recs').length < 2 ^ 31) :
    deserializeAt S' (depth + 1) n' (S'.fresh (.data n')) (.ofBytes (frame recs')) =
      .ok (evolveAs S S' n n' (.data fs),
        (BytesStream.ofBytes (frame recs')).moved (frame recs').length) := by
  have hshort : ∀ r ∈ recs', r.2.length < depth ∧ r.2.length < 2 ^ 31 := by
    intro r hr
    have := mem_frame_length hr
    omega
  have hvalid : ValidRecs recs' := fun r hr =>
    ⟨wireMembers_valid hrecs hty (seqFits_members hseq) r (hre.1.mem_iff.2 hr), (hshort r hr).2⟩
  refine deserializeAt_frame hvalid (by omega) (hev.distinct' n') ?_
  rw [Schema.fresh_data, Val.fields, clear_fresh]
  exact members_decode hrecs hre (hev.distinct n) hroot ih hshort

theorem wire_decodes (hev : Evolution S S') (hv : S.hasType t v = true)
    (hseq : S.everyNode (seqFits S) t v = true) (hshape : S.everyNode shaped t v = true) :
    Decodes S S' t v := by
  revert hseq hshape
  refine Schema.typed_induction ?_ ?_ ?_ ?_ ?_ ?_ hv
  · intro f b hb _ _ depth ps h hlen
    have hps : ps = [LittleEndian.encode f.size b] := h
    have hlt : b < 256 ^ f.size := by
      simp only [Fixed.valid] at hb
      split at hb
      · rename_i hf
        simp only [decide_eq_true_eq] at hb
        rw [hf]
        simp only [Fixed.size]
        omega
      · simpa using hb
    have hbool : ¬ (f = .bool ∧ 1 < b) := by
      rintro ⟨rfl, hgt⟩
      simp [Fixed.valid] at hb
      omega
    have hin : (BytesStream.ofBytes (LittleEndian.encode f.size b)).cur + f.size ≤
        (BytesStream.ofBytes (LittleEndian.encode f.size b)).size := by simp
    have hsize : f.size < 2 ^ 64 := by cases f <;> decide
    have hrem : ¬ (BytesStream.ofBytes (LittleEndian.encode f.size b)).remainSize < f.size := by
      rw [remainSize_ofBytes (by simpa using hsize)]
      simp
    have htake : (LittleEndian.encode f.size b).take f.size = LittleEndian.encode f.size b :=
      List.take_of_length_le (by simp)
    simp only [hps, List.foldlM_cons, List.foldlM_nil, readPayload, readPb, readPbFixed,
      LittleEndian.encode_length, ne_eq, not_true_eq_false, hrem, or_self, ↓reduceIte,
      loadFixed_local hin, BytesStream.rest_ofBytes, htake, LittleEndian.decode_encode hlt, hbool]
    rfl
  · intro b _ _ depth ps h hlen
    have hps : ps = [b] := h
    have hb : b.length < 2 ^ 64 := by
      have := (hlen b (by simp [hps])).2
      omega
    have hrem : ¬ (BytesStream.ofBytes b).remainSize < b.length := by
      rw [remainSize_ofBytes hb]
      omega
    simp only [hps, List.foldlM_cons, List.foldlM_nil, readPayload, readPb, if_neg hrem,
      curBytes_ofBytes, addCurPos_ofBytes]
    rfl
  · intro b _ _ depth ps h hlen
    have hps : ps = [b] := h
    have hb : b.length < 2 ^ 64 := by
      have := (hlen b (by simp [hps])).2
      omega
    have hrem : ¬ (BytesStream.ofBytes b).remainSize < b.length := by
      rw [remainSize_ofBytes hb]
      omega
    simp only [hps, List.foldlM_cons, List.foldlM_nil, readPayload, readPb, if_neg hrem,
      curBytes_ofBytes, addCurPos_ofBytes]
    rfl
  · intro t xs hty ih hseq hshape depth ps h hlen
    obtain ⟨hself, hparts⟩ := Schema.everyNode_vector.1 hshape
    have hone : ∀ x ∈ xs, ∀ ps, Wire S t x ps → ∃ p, ps = [p] := by
      intro x hx
      refine wire_single (hty x hx) (hparts x hx) fun ht => ?_
      simp only [shaped, ht, Bool.not_true, Bool.false_or] at hself
      simpa using List.all_eq_true.1 hself x hx
    exact foldlM_vector hone
      (fun x hx => ih x hx ((Schema.everyNode_vector.1 hseq).2 x hx) (hparts x hx)) h hlen []
  · intro k v prs hty ih hseq hshape depth ps h hlen
    obtain ⟨hself, hparts⟩ := Schema.everyNode_map.1 hshape
    have hseqs := (Schema.everyNode_map.1 hseq).2
    obtain ⟨pairs, hpairs, rfl⟩ := h
    have hp := hlen _ (List.mem_singleton.2 rfl)
    have hshort : ∀ p ∈ pairs, p.length < depth ∧ p.length < 2 ^ 31 := by
      intro p hp'
      have := mem_frame_length (List.mem_map.2 ⟨p, hp', rfl⟩ : ((0, p) : Rec) ∈ pairs.map (0, ·))
      dsimp only at this
      omega
    have hne : ∀ p ∈ prs,
        (∀ ps, Wire S k p.1 ps → ps ≠ []) ∧ ∀ ps, Wire S v p.2 ps → ps ≠ [] := by
      intro p hp'
      have hsome := List.all_eq_true.1 hself p hp'
      simp only [Bool.and_eq_true, Bool.or_eq_true, Bool.not_eq_true',
        List.isEmpty_eq_false_iff] at hsome
      refine ⟨fun ps => wire_ne_nil (hty p hp').1 (hparts p hp').1 fun ht => ?_,
        fun ps => wire_ne_nil (hty p hp').2 (hparts p hp').2 fun ht => ?_⟩
      · simpa [ht] using hsome.1
      · simpa [ht] using hsome.2
    have hfold := wirePairs_decode
      (fun p hp' => ⟨(ih p hp').1 (hseqs p hp').1 (hparts p hp').1,
        (ih p hp').2 (hseqs p hp').2 (hparts p hp').2⟩) hne hpairs hshort []
    have hbody : ∀ q size ps (os : BytesStream), os.InBounds → os.cur + size ≤ os.size →
        readPair (readPb S' (deserializeAt S' depth) k) (readPb S' (deserializeAt S' depth) v)
            (S'.fresh k) (S'.fresh v) q size ps os =
          (insertPair S' (deserializeAt S' depth) k v ps (q, os.rest.take size)).map
            fun ps => (ps, os.moved size) :=
      fun q size ps os _ hsize => readPair_local hsize
    have hvalid : ValidRecs (pairs.map (0, ·)) := by
      intro r hr
      obtain ⟨p, hp', rfl⟩ := List.mem_map.1 hr
      exact ⟨by simp, (hshort p hp').2⟩
    have h64 : (frame (pairs.map (0, ·))).length < 2 ^ 64 := by omega
    have hloop := forRecords_frame hbody hvalid (BytesStream.inBounds_ofBytes h64) rfl
      (Nat.sub_le _ _) []
    rw [hfold, BytesStream.size_ofBytes] at hloop
    have hrem : ¬ (BytesStream.ofBytes (frame (pairs.map (0, ·)))).remainSize <
        (frame (pairs.map (0, ·))).length := by
      rw [remainSize_ofBytes h64]
      omega
    simp only [List.foldlM_cons, List.foldlM_nil, readPayload, readPb, if_neg hrem,
      curBytes_ofBytes, addCurPos_ofBytes, evolve, ok_bind, hloop]
    rfl
  · intro n fs hlenf hty ih hseq hshape depth ps h hlen
    obtain ⟨recs, recs', hrecs, hre, rfl⟩ := h
    obtain ⟨hself, hseqs⟩ := Schema.everyNode_data.1 hseq
    have hparts := (Schema.everyNode_data.1 hshape).2
    have hp := hlen _ (List.mem_singleton.2 rfl)
    obtain ⟨depth, rfl⟩ : ∃ k, depth = k + 1 := ⟨depth - 1, by omega⟩
    have hd := deserializeAt_wire hev (hev.sameType n) hty hself
      (fun p hp' => ih p hp' (hseqs p hp') (hparts p hp')) hrecs hre hp
    have h64 : (frame recs').length < 2 ^ 64 := by omega
    have hrem : ¬ (BytesStream.ofBytes (frame recs')).remainSize < (frame recs').length := by
      rw [remainSize_ofBytes h64]
      omega
    have hend : ((BytesStream.ofBytes (frame recs')).moved (frame recs').length).remainSize = 0 := by
      have hin := (BytesStream.inBounds_ofBytes h64).moved
        (show (BytesStream.ofBytes (frame recs')).cur + (frame recs').length ≤
          (BytesStream.ofBytes (frame recs')).size by simp)
      rw [hin.remainSize]
      simp
    simp only [List.foldlM_cons, List.foldlM_nil, readPayload, readPb, if_neg hrem,
      curBytes_ofBytes, addCurPos_ofBytes, ok_bind, hd, hend]
    rfl

/-! ## The same schema -/

theorem foldl_insert_sorted {ps acc : List (Val × Val)}
    (h : (acc ++ ps).Pairwise fun p q => p.1.compare q.1 = .lt) :
    ps.foldl Val.insert acc = acc ++ ps := by
  induction ps generalizing acc with
  | nil => simp
  | cons p ps ih =>
    have hlast : Val.insert acc p = acc ++ [p] :=
      Val.insert_last fun q hq => (List.pairwise_append.1 h).2.2 q hq p (by simp)
    rw [List.foldl_cons, hlast, ih (by simpa using h)]
    simp

theorem evolveMember_self (hnodup : (ms.map Member.seq).Nodup) (hlen : vs.length = ms.length)
    (ih : ∀ p ∈ ms.zip vs, evolve S S p.1.ty p.2 = p.2) :
    ms.map (fun m' => evolveMember S S m' ms vs) = vs := by
  induction ms generalizing vs with
  | nil => exact (List.length_eq_zero_iff.1 hlen).symm
  | cons m ms ihm =>
    cases vs with
    | nil => simp at hlen
    | cons v vs =>
      simp only [List.map_cons, List.nodup_cons] at hnodup
      have hhead : evolveMember S S m (m :: ms) (v :: vs) = v := by
        simpa [evolveMember] using ih (m, v) (by simp)
      have htail : ms.map (fun m' => evolveMember S S m' (m :: ms) (v :: vs)) =
          ms.map fun m' => evolveMember S S m' ms vs := by
        refine List.map_congr_left fun m' hm' => ?_
        have hne : m.seq ≠ m'.seq := fun he => hnodup.1 (List.mem_map.2 ⟨m', hm', he.symm⟩)
        simp [evolveMember, hne]
      rw [List.map_cons, hhead, htail, ihm hnodup.2 (by simpa using hlen)
        fun p hp => ih p (by simp [hp])]

/-- Read under its own schema, an object is what it was. -/
theorem evolve_self (hdistinct : ∀ c, ((S.members c).map Member.seq).Nodup)
    (hv : S.hasType t v = true) (hsorted : S.everyNode Schema.keysSorted t v = true) :
    evolve S S t v = v := by
  revert hsorted
  refine Schema.typed_induction ?_ ?_ ?_ ?_ ?_ ?_ hv
  · intro f b _ _
    rfl
  · intro b _
    rfl
  · intro b _
    rfl
  · intro t xs _ ih hsorted
    have hparts := (Schema.everyNode_vector.1 hsorted).2
    have hxs : xs.map (evolve S S t) = xs.map id :=
      List.map_congr_left fun x hx => ih x hx (hparts x hx)
    rw [evolve, evolveElems_eq, hxs, List.map_id]
  · intro k v prs _ ih hsorted
    obtain ⟨hself, hparts⟩ := Schema.everyNode_map.1 hsorted
    have hprs : prs.map (fun p => (evolve S S k p.1, evolve S S v p.2)) = prs.map id :=
      List.map_congr_left fun p hp => by
        rw [(ih p hp).1 (hparts p hp).1, (ih p hp).2 (hparts p hp).2]
        rfl
    rw [evolve, evolvePairs_eq, hprs, List.map_id,
      foldl_insert_sorted (by simpa [Schema.keysSorted] using hself)]
    rfl
  · intro n fs hlen _ ih hsorted
    have hparts := (Schema.everyNode_data.1 hsorted).2
    rw [evolve, evolveMember_self (hdistinct n) hlen fun p hp => ih p hp (hparts p hp)]

/-! ## Plain schemas -/

/-- The schema restrictions of the wire format: plain types, and numbers that a header can carry. -/
def Schema.Plain (S : Schema) : Prop :=
  ∀ c, ∀ m ∈ S.members c, m.ty.plain = true ∧ m.seq < 2 ^ 31

theorem Schema.Plain.seqFits (hS : S.Plain) (hv : S.hasType t v = true) :
    S.everyNode (seqFits S) t v = true := by
  refine Schema.typed_induction ?_ ?_ ?_ ?_ ?_ ?_ hv
  · intro f b _
    rfl
  · intro b
    rfl
  · intro b
    rfl
  · intro t xs _ ih
    exact Schema.everyNode_vector.2 ⟨rfl, ih⟩
  · intro k v prs _ ih
    exact Schema.everyNode_map.2 ⟨rfl, ih⟩
  · intro n fs _ _ ih
    refine Schema.everyNode_data.2 ⟨List.all_eq_true.2 fun p hp => ?_, ih⟩
    rw [decide_eq_true (hS n p.1 (List.of_mem_zip hp).1).2, Bool.or_true]

theorem Schema.Plain.shaped (hS : S.Plain) (hv : S.hasType t v = true) (ht : t.plain = true) :
    S.everyNode shaped t v = true := by
  revert ht
  refine Schema.typed_induction ?_ ?_ ?_ ?_ ?_ ?_ hv
  · intro f b _ _
    rfl
  · intro b _
    rfl
  · intro b _
    rfl
  · intro t xs _ ih ht
    simp only [Ty.plain, Bool.and_eq_true, Bool.not_eq_true'] at ht
    exact Schema.everyNode_vector.2 ⟨by simp [Codec.shaped, ht.1], fun x hx => ih x hx ht.2⟩
  · intro k v prs _ ih ht
    simp only [Ty.plain, Bool.and_eq_true, Bool.not_eq_true'] at ht
    obtain ⟨⟨⟨hk, hv'⟩, hkp⟩, hvp⟩ := ht
    exact Schema.everyNode_map.2 ⟨by simp [Codec.shaped, hk, hv'],
      fun p hp => ⟨(ih p hp).1 hkp, (ih p hp).2 hvp⟩⟩
  · intro n fs _ _ ih _
    exact Schema.everyNode_data.2 ⟨rfl, fun p hp => ih p hp
      (hS n p.1 (List.of_mem_zip hp).1).1⟩

/-! ## Round trip -/

/-- `serialize` succeeds, and what it writes stands for the object. -/
theorem serialize_wire {x : Val} (hx : S.hasType (.data n) x = true)
    (hseq : S.everyNode (seqFits S) (.data n) x = true) (hsize : encodedSize S n x < 2 ^ 31) :
    ∃ bytes, serialize S n x = .ok bytes ∧ WireMessage S n x bytes := by
  cases x with
  | data fs =>
    obtain ⟨hlen, hty⟩ := Schema.hasType_data.1 hx
    obtain ⟨hself, hparts⟩ := Schema.everyNode_data.1 hseq
    obtain ⟨recs, hrecs, hw⟩ := writeMembers_wire hlen hty (seqFits_members hself)
      (fun p hp => writePb_wire (hty p hp) (hparts p hp)) hsize
    exact ⟨frame recs, hw, recs, recs, hrecs, Reordered.refl _, rfl⟩
  | _ => simp [Schema.hasType, Schema.everyNode, Schema.layout] at hx

/-- `deserialize` of whatever stands for an object gives its image and consumes all bytes. -/
theorem deserialize_wire (hev : Evolution S S') {n' : String}
    (hroot : ∀ m ∈ S.members n, ∀ m' ∈ S'.members n', m.seq = m'.seq → m.ty = m'.ty) {x : Val}
    (hx : S.hasType (.data n) x = true) (hseq : S.everyNode (seqFits S) (.data n) x = true)
    (hshape : S.everyNode shaped (.data n) x = true) {bytes : List UInt8}
    (hbytes : WireMessage S n x bytes) (hsize : bytes.length < 2 ^ 31) :
    deserialize S' n' (S'.fresh (.data n')) (.ofBytes bytes) =
      .ok (evolveAs S S' n n' x, ⟨bytes, bytes.length, 0⟩) := by
  cases x with
  | data fs =>
    obtain ⟨-, hty⟩ := Schema.hasType_data.1 hx
    obtain ⟨hself, hparts⟩ := Schema.everyNode_data.1 hseq
    have hshapes := (Schema.everyNode_data.1 hshape).2
    obtain ⟨recs, recs', hrecs, hre, hb⟩ := hbytes
    obtain rfl : bytes = frame recs' := by simpa using hb
    have hd := deserializeAt_wire hev hroot hty hself
      (fun p hp => wire_decodes hev (hty p hp) (hparts p hp) (hshapes p hp)) hrecs hre
      ⟨Nat.lt_succ_self _, hsize⟩
    simpa [deserialize, BytesStream.moved, BytesStream.ofBytes, BytesStream.size] using hd
  | _ => exact hbytes.elim

/-- **Round trip and schema evolution.**  For schemas without a vector directly in a vector or in a
map, with distinct numbers below 2 ^ 31, that give members with the same number the same type:
`serialize` succeeds on every object whose encoding is shorter than 2 ^ 31 bytes; from its bytes,
and from every reordering of the records at any level that keeps the order of records with the same
number, `deserialize` makes the object's image under the reader's schema and consumes all bytes; and
the image under the writer's own schema is the object itself. -/
theorem codec_round_trip (hev : Evolution S S') (hS : S.Plain) {n n' : String}
    (hroot : ∀ m ∈ S.members n, ∀ m' ∈ S'.members n', m.seq = m'.seq → m.ty = m'.ty) {x : Val}
    (hx : S.hasType (.data n) x = true)
    (hsorted : S.everyNode Schema.keysSorted (.data n) x = true)
    (hsize : encodedSize S n x < 2 ^ 31) :
    (∃ bytes, serialize S n x = .ok bytes ∧ WireMessage S n x bytes) ∧
      (∀ bytes, WireMessage S n x bytes →
        deserialize S' n' (S'.fresh (.data n')) (.ofBytes bytes) =
          .ok (evolveAs S S' n n' x, ⟨bytes, bytes.length, 0⟩)) ∧
      evolveAs S S n n x = x := by
  have hseq := hS.seqFits hx
  refine ⟨serialize_wire hx hseq hsize, ?_, ?_⟩
  · intro bytes hbytes
    have hlen := wireMessage_length hx hbytes
    exact deserialize_wire hev hroot hx hseq (hS.shaped hx rfl) hbytes (by omega)
  · cases x with
    | data fs => exact evolve_self hev.distinct hx hsorted
    | _ => simp [Schema.hasType, Schema.everyNode, Schema.layout] at hx

/-! ### A key that loses a member -/

/-- `rpcdata Spot key { 0 int32_t iX; 1 int32_t iY; }` and
`rpcdata Board { 0 map<Spot, bool> mSpots; 2 std::string sName; }`. -/
def boardSchema : Schema where
  datas := [⟨"Spot", true, [⟨"iX", "iX", .fixed .int32, 0⟩, ⟨"iY", "iY", .fixed .int32, 1⟩]⟩,
    ⟨"Board", false, [⟨"mSpots", "mSpots", .map (.data "Spot") (.fixed .bool), 0⟩,
      ⟨"sName", "sName", .string, 2⟩]⟩]
  rank := fun _ => 0
  rank_lt := by simp

/-- The same file later: `Spot` without `iY`, and `Board` with a counter in place of its name. -/
def laterBoardSchema : Schema where
  datas := [⟨"Spot", true, [⟨"iX", "iX", .fixed .int32, 0⟩]⟩,
    ⟨"Board", false, [⟨"iCount", "iCount", .fixed .uint32, 3⟩,
      ⟨"mSpots", "mSpots", .map (.data "Spot") (.fixed .bool), 0⟩]⟩]
  rank := fun _ => 0
  rank_lt := by simp

/-- Two spots in one column. -/
def twoSpots : Val :=
  .data [.map [(.data [.fixed .int32 1, .fixed .int32 1], .fixed .bool 1),
    (.data [.fixed .int32 1, .fixed .int32 2], .fixed .bool 0)], .str [65]]

/-- What has to be looked at to see that two schemas agree. -/
theorem Evolution.of_datas
    (h : ∀ d ∈ S.datas, (d.members.map Member.seq).Nodup)
    (h' : ∀ d ∈ S'.datas, (d.members.map Member.seq).Nodup)
    (hsame : ∀ d ∈ S.datas, ∀ d' ∈ S'.datas, d.name = d'.name →
      ∀ m ∈ d.members, ∀ m' ∈ d'.members, m.seq = m'.seq → m.ty = m'.ty) : Evolution S S' := by
  refine ⟨fun c => ?_, fun c => ?_, fun c m hm m' hm' => ?_⟩
  · rcases S.members_cases c with hc | ⟨d, hd, -, hc⟩
    · simp [hc]
    · rw [hc]
      exact h d hd
  · rcases S'.members_cases c with hc | ⟨d, hd, -, hc⟩
    · simp [hc]
    · rw [hc]
      exact h' d hd
  · rcases S.members_cases c with hc | ⟨d, hd, hn, hc⟩
    · simp [hc] at hm
    · rcases S'.members_cases c with hc' | ⟨d', hd', hn', hc'⟩
      · simp [hc'] at hm'
      · rw [hc] at hm
        rw [hc'] at hm'
        exact hsame d hd d' hd' (hn.trans hn'.symm) m hm m' hm'

theorem Schema.Plain.of_datas
    (h : ∀ d ∈ S.datas, ∀ m ∈ d.members, m.ty.plain = true ∧ m.seq < 2 ^ 31) : S.Plain := by
  intro c m hm
  rcases S.members_cases c with hc | ⟨d, hd, -, hc⟩
  · simp [hc] at hm
  · rw [hc] at hm
    exact h d hd m hm

theorem boardEvolution : Evolution boardSchema laterBoardSchema :=
  Evolution.of_datas (by decide) (by decide) (by decide)

theorem boardPlain : boardSchema.Plain := Schema.Plain.of_datas (by decide)

/-- **A map can lose pairs to evolution**: the reader's keys are equal, and `insert` keeps the first
pair. -/
theorem evolved_keys_collide :
    ∃ bytes, serialize boardSchema "Board" twoSpots = .ok bytes ∧
      deserialize laterBoardSchema "Board" (laterBoardSchema.fresh (.data "Board"))
          (.ofBytes bytes) =
        .ok (.data [.fixed .uint32 0, .map [(.data [.fixed .int32 1], .fixed .bool 1)]],
          ⟨bytes, bytes.length, 0⟩) := by
  have hx : boardSchema.hasType (.data "Board") twoSpots = true := by decide +kernel
  have hseq := boardPlain.seqFits hx
  have hsize : encodedSize boardSchema "Board" twoSpots < 2 ^ 31 := by decide +kernel
  have himage : evolveAs boardSchema laterBoardSchema "Board" "Board" twoSpots =
      .data [.fixed .uint32 0, .map [(.data [.fixed .int32 1], .fixed .bool 1)]] := by
    simp [evolveAs, evolveMember, evolve, evolvePairs, evolvePair, twoSpots, Schema.members,
      boardSchema, laterBoardSchema, Schema.fresh, Schema.height, Schema.freshAt, Val.fields,
      Val.insert, Val.compare, Val.compareList, Fixed.compare, Fixed.number, Fixed.size]
  obtain ⟨bytes, hs, hw⟩ := serialize_wire hx hseq hsize
  have hlen := wireMessage_length hx hw
  have hd := deserialize_wire boardEvolution (boardEvolution.sameType "Board") hx hseq
    (boardPlain.shaped hx rfl) hw (by omega)
  exact ⟨bytes, hs, himage ▸ hd⟩

/-- The two boards above: the map keeps one pair, the name is skipped and the counter is zero. -/
theorem codec_round_trip_board :
    ∃ bytes, serialize boardSchema "Board" twoSpots = .ok bytes ∧
      deserialize laterBoardSchema "Board" (laterBoardSchema.fresh (.data "Board"))
          (.ofBytes bytes) =
        .ok (evolveAs boardSchema laterBoardSchema "Board" "Board" twoSpots,
          ⟨bytes, bytes.length, 0⟩) ∧
      evolveAs boardSchema boardSchema "Board" "Board" twoSpots = twoSpots := by
  have h := codec_round_trip boardEvolution boardPlain (boardEvolution.sameType "Board")
    (x := twoSpots) (by decide +kernel) (by decide +kernel) (by decide +kernel)
  obtain ⟨⟨bytes, hs, hw⟩, hd, hself⟩ := h
  exact ⟨bytes, hs, hd bytes hw, hself⟩

end OpenIdea.Codec
