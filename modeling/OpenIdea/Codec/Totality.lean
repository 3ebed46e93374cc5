import OpenIdea.Codec.Read

/-!
# Decoding is total and stays in bounds

Whatever the bytes are, every read either throws `ParserException` or moves the cursor over exactly
the bytes of its record, inside the buffer.  Nested reads cut a sub-buffer that is at least a header
shorter than the buffer around it, and every round of a loop consumes a header, so the rounds and
the nesting are bounded by the number of bytes.  `decoding_total_in_bounds` puts it together for all
reads.
-/

set_option autoImplicit false

namespace OpenIdea.Codec

open OpenIdea.Lib

/-! ## What a read may do -/

/-- A read over the next `n` bytes of `s`: it throws `ParserException`, or it returns a result with
property `Q` and the cursor moved by `n`, inside the buffer. -/
def Reads {α : Type} (s : BytesStream) (n : Nat) (Q : α → Prop)
    (r : Except Fault (α × BytesStream)) : Prop :=
  r = .error .parser ∨ ∃ a, Q a ∧ s.cur + n ≤ s.size ∧ r = .ok (a, s.moved n)

section Rules

variable {α β : Type} {s : BytesStream} {n k : Nat} {Q : α → Prop} {R : β → Prop}

theorem Reads.parser : Reads s n Q (.error .parser) := .inl rfl

theorem Reads.ok {a : α} (ha : Q a) (hn : s.cur + n ≤ s.size) : Reads s n Q (.ok (a, s.moved n)) :=
  .inr ⟨a, ha, hn, rfl⟩

theorem Reads.bind {r : Except Fault (α × BytesStream)}
    {f : α × BytesStream → Except Fault (β × BytesStream)} (h : Reads s n Q r)
    (hf : ∀ a, Q a → s.cur + n ≤ s.size → Reads (s.moved n) k R (f (a, s.moved n))) :
    Reads s (n + k) R (r >>= f) := by
  rcases h with rfl | ⟨a, ha, hn, rfl⟩
  · exact .inl rfl
  · rcases hf a ha hn with he | ⟨b, hb, hk, hok⟩
    · exact .inl he
    · refine .inr ⟨b, hb, ?_, ?_⟩
      · simpa [Nat.add_assoc] using hk
      · rw [BytesStream.moved_moved] at hok
        exact hok

end Rules

namespace BytesStream

variable {s : BytesStream}

theorem readPbHeader_eq (h : s.InBounds) :
    s.readPbHeader = match headerOf s.rest with
      | .ok seq size => .ok ((seq, size), s.moved 8)
      | _ => .error .parser := by
  rw [readPbHeader, preparePbHeader_eq h]
  generalize headerOf s.rest = hd
  cases hd with
  | ok seq size => rfl
  | needMore => rfl
  | bad => rfl

theorem readPbHeader_reads (h : s.InBounds) :
    Reads s 8 (fun p => p.1 < 2 ^ 31 ∧ p.2 < 2 ^ 31 ∧ s.cur + 8 + p.2 ≤ s.size) s.readPbHeader := by
  rw [readPbHeader_eq h]
  cases hd : headerOf s.rest with
  | ok seq size =>
    obtain ⟨hseq, hsize, hlen⟩ := headerOf_ok hd
    rw [rest_length] at hlen
    have hcur := h.1
    exact Reads.ok ⟨hseq, hsize, by omega⟩ (by omega)
  | needMore => exact Reads.parser
  | bad => exact Reads.parser

theorem skipPb_eq (h : s.InBounds) {n : Nat} (hn : s.cur + n ≤ s.size) :
    s.skipPb n = .ok (s.moved n) := by
  have hrem : ¬ s.remainSize < n := by
    rw [h.remainSize]
    omega
  simp only [skipPb, if_neg hrem, addCurPos_ok hn]

end BytesStream

variable {os : BytesStream}

/-- **The loop rule.**  A body that reads each record over exactly its payload makes a loop that
reads everything; there are no more rounds than bytes. -/
theorem forRecords_reads {σ : Type}
    {body : Nat → Nat → σ → BytesStream → Except Fault (σ × BytesStream)} {I : σ → Prop}
    {rounds : Nat} {st : σ} (hos : os.InBounds) (hI : I st) (hrounds : os.size - os.cur ≤ rounds)
    (hbody : ∀ seq size st (os' : BytesStream), os'.InBounds → os'.size = os.size → I st →
      size + 8 ≤ os.size → os'.cur + size ≤ os'.size → Reads os' size I (body seq size st os')) :
    Reads os (os.size - os.cur) I (forRecords body rounds st os) := by
  induction rounds generalizing st os with
  | zero =>
    have hend : os.size - os.cur = 0 := by omega
    simp only [forRecords, hos.remainSize, hend, ↓reduceIte]
    exact Reads.ok hI (by have := hos.1; omega)
  | succ rounds ih =>
    simp only [forRecords, hos.remainSize]
    split
    · rename_i hend
      rw [hend]
      exact Reads.ok hI (by have := hos.1; omega)
    · -- a header, the body, and the rest of the loop share the remaining bytes
      rcases BytesStream.readPbHeader_reads hos with hh | ⟨⟨seq, size⟩, ⟨-, -, hsize⟩, h8, hh⟩
      · rw [hh]
        exact Reads.parser
      · rw [hh]
        dsimp only at hsize
        have hos8 := hos.moved h8
        have hb := hbody seq size st (os.moved 8) hos8 rfl hI
          (by omega) (by simpa using hsize)
        have hsplit : os.size - os.cur = 8 + (size + (os.size - (os.cur + 8 + size))) := by omega
        rw [hsplit]
        refine Reads.bind (Q := fun p => p = (seq, size)) (Reads.ok rfl h8) ?_
        rintro _ rfl _
        refine Reads.bind hb fun st' hI' hend => ?_
        have hrest := ih (hos8.moved hend) hI'
          (by simp only [BytesStream.moved_cur, BytesStream.moved_size]; omega)
          (fun seq size st os' h1 h2 => hbody seq size st os' h1 (by simpa using h2))
        simpa [Nat.add_assoc] using hrest

/-! ## `ReadPb` and `deserialize` -/

namespace Schema

variable {S : Schema}

theorem hasType_vector {t : Ty} {xs : List Val} :
    S.hasType (.vector t) (.vec xs) = true ↔ ∀ x ∈ xs, S.hasType t x = true := by
  simp only [hasType, everyNode_vector, layout, true_and]

theorem hasType_map {k v : Ty} {ps : List (Val × Val)} :
    S.hasType (.map k v) (.map ps) = true ↔
      ∀ p ∈ ps, S.hasType k p.1 = true ∧ S.hasType v p.2 = true := by
  simp only [hasType, everyNode_map, layout, true_and]

/-- The objects of a list of members. -/
def HasTypes (S : Schema) (ms : List Member) (vs : List Val) : Prop :=
  vs.length = ms.length ∧ ∀ p ∈ ms.zip vs, S.hasType p.1.ty p.2 = true

theorem hasType_data {n : String} {fs : List Val} :
    S.hasType (.data n) (.data fs) = true ↔ S.HasTypes (S.members n) fs := by
  simp only [hasType, everyNode_data, layout, decide_eq_true_eq, HasTypes]

@[simp] theorem hasTypes_nil : S.HasTypes [] [] := by simp [HasTypes]

theorem hasTypes_cons {m : Member} {ms : List Member} {v : Val} {vs : List Val} :
    S.HasTypes (m :: ms) (v :: vs) ↔ S.hasType m.ty v = true ∧ S.HasTypes ms vs := by
  simp only [HasTypes, List.length_cons, Nat.add_right_cancel_iff, List.zip_cons_cons,
    List.forall_mem_cons]
  tauto

theorem hasTypes_map {f : Member → Val} {ms : List Member}
    (h : ∀ m ∈ ms, S.hasType m.ty (f m) = true) : S.HasTypes ms (ms.map f) := by
  induction ms with
  | nil => exact hasTypes_nil
  | cons m ms ih =>
    rw [List.map_cons, hasTypes_cons]
    exact ⟨h m (by simp), ih fun m' hm' => h m' (by simp [hm'])⟩

theorem hasType_fresh (t : Ty) : S.hasType t (S.fresh t) = true := by
  induction hk : S.height t using Nat.strong_induction_on generalizing t with
  | _ k ih =>
    cases t with
    | data n =>
      rw [fresh_data, hasType_data]
      refine hasTypes_map fun m hm => ih _ ?_ m.ty rfl
      have := height_member hm
      simp only [height] at hk
      omega
    | fixed f => cases f <;> rfl
    | _ => rfl

end Schema

variable {S : Schema} {d : String → Val → BytesStream → Except Fault (Val × BytesStream)}

/-- Nested `deserialize` calls behave on all sub-buffers of at most `B` bytes. -/
def NestedReads (S : Schema) (d : String → Val → BytesStream → Except Fault (Val × BytesStream))
    (B : Nat) : Prop :=
  ∀ (n : String) (old : Val) (b : List UInt8), b.length ≤ B → b.length < 2 ^ 64 →
    S.hasType (.data n) old = true →
    Reads (.ofBytes b) b.length (fun v => S.hasType (.data n) v = true) (d n old (.ofBytes b))

/-- What the overloads that take a whole payload have in common: the check, the copy and the move of
the cursor. -/
theorem copy_reads (hos : os.InBounds) (size : Nat) :
    os.remainSize < size ∨
      (os.cur + size ≤ os.size ∧ os.curBytes size = .ok (os.rest.take size) ∧
        os.addCurPos size = .ok (os.moved size) ∧ (os.rest.take size).length = size) := by
  rw [hos.remainSize]
  rcases Nat.lt_or_ge (os.size - os.cur) size with h | h
  · exact .inl h
  · have hle : os.cur + size ≤ os.size := by
      have := hos.1
      omega
    exact .inr ⟨hle, BytesStream.curBytes_ok hle, BytesStream.addCurPos_ok hle,
      BytesStream.take_rest_length hle⟩

/-- `ReadPb` of one type, on streams and records of at most `B` bytes. -/
def ValueReads (S : Schema) (t : Ty) (B : Nat)
    (read : Nat → Val → BytesStream → Except Fault (Val × BytesStream)) : Prop :=
  ∀ (size : Nat) (old : Val) (os : BytesStream), os.InBounds → size ≤ B →
    S.hasType t old = true → Reads os size (fun v => S.hasType t v = true) (read size old os)

section Pairs

variable {k v : Ty} {B : Nat}
  {readKey readVal : Nat → Val → BytesStream → Except Fault (Val × BytesStream)}

theorem readPairField_reads (hk : ValueReads S k B readKey) (hv : ValueReads S v B readVal)
    {seq size : Nat} {st : PairState} {pair : BytesStream} (hpair : pair.InBounds)
    (hst : S.hasType k st.key = true ∧ S.hasType v st.val = true) (hB : size ≤ B)
    (hsize : pair.cur + size ≤ pair.size) :
    Reads pair size (fun st => S.hasType k st.key = true ∧ S.hasType v st.val = true)
      (readPairField readKey readVal seq size st pair) := by
  simp only [readPairField]
  split
  · rcases hk size st.key pair hpair hB hst.1 with h | ⟨key, hkey, hn, h⟩
    · rw [h]
      exact Reads.parser
    · rw [h]
      exact Reads.ok ⟨hkey, hst.2⟩ hn
  · split
    · rcases hv size st.val pair hpair hB hst.2 with h | ⟨val, hval, hn, h⟩
      · rw [h]
        exact Reads.parser
      · rw [h]
        exact Reads.ok ⟨hst.1, hval⟩ hn
    · rw [BytesStream.skipPb_eq hpair hsize]
      exact Reads.ok hst hsize

theorem readPair_reads (hk : ValueReads S k B readKey) (hv : ValueReads S v B readVal)
    {seq size : Nat} {ps : List (Val × Val)} {all : BytesStream} (hall : all.InBounds)
    (hps : ∀ p ∈ ps, S.hasType k p.1 = true ∧ S.hasType v p.2 = true) (hB : size ≤ B)
    (hsize : all.cur + size ≤ all.size) :
    Reads all size (fun ps => ∀ p ∈ ps, S.hasType k p.1 = true ∧ S.hasType v p.2 = true)
      (readPair readKey readVal (S.fresh k) (S.fresh v) seq size ps all) := by
  have hlen := BytesStream.take_rest_length hsize
  have hpair : (BytesStream.ofBytes (all.rest.take size)).InBounds :=
    BytesStream.inBounds_ofBytes (by have := hall.2; omega)
  have hloop : Reads _ _ (fun st => S.hasType k st.key = true ∧ S.hasType v st.val = true)
      (forRecords (readPairField readKey readVal) (all.rest.take size).length
        ⟨S.fresh k, S.fresh v, false, false⟩ (.ofBytes (all.rest.take size))) :=
    forRecords_reads hpair ⟨S.hasType_fresh k, S.hasType_fresh v⟩ (by simp)
      (fun seq size' st os' h1 _ hst h8 h2 => readPairField_reads hk hv h1 hst
        (by simp only [BytesStream.size_ofBytes] at h8; omega) h2)
  simp only [readPair, BytesStream.curBytes_ok hsize, BytesStream.addCurPos_ok hsize]
  rcases hloop with h | ⟨st, hst, -, h⟩
  · simp only [bind, Except.bind, h]
    exact Reads.parser
  · simp only [bind, Except.bind, h]
    split
    · exact Reads.parser
    · refine Reads.ok (fun p hp => ?_) hsize
      rcases Val.mem_insert hp with rfl | hp
      · exact hst
      · exact hps p hp

end Pairs

/-- A payload that is copied as it is. -/
theorem copied_reads {t : Ty} {mk : List UInt8 → Val} (hmk : ∀ b, S.hasType t (mk b) = true)
    {os : BytesStream} (hos : os.InBounds) (size : Nat) :
    Reads os size (fun v => S.hasType t v = true) (do
      if os.remainSize < size then
        throw .parser
      let b ← os.curBytes size
      let os ← os.addCurPos size
      return (mk b, os)) := by
  rcases copy_reads hos size with h | ⟨hn, hb, ha, -⟩
  · rw [if_pos h]
    exact Reads.parser
  · simp only [hb, ha]
    split
    · exact Reads.parser
    · exact Reads.ok (hmk _) hn

/-- **`ReadPb` reads exactly its payload or throws**, for every type. -/
theorem readPb_reads {B : Nat} (hd : NestedReads S d B) (t : Ty) :
    ValueReads S t B (readPb S d t) := by
  induction t with
  | fixed f =>
    intro size old os hos hB hold
    simp only [readPb]
    by_cases hsize : size = f.size
    · subst hsize
      rcases readPbFixed_reads (f := f) hos f.size old.bits with h | ⟨hn, hvalid, h⟩
      · rw [h]
        exact Reads.parser
      · rw [h]
        exact Reads.ok (by simpa [Schema.hasType, Schema.everyNode, Schema.layout] using hvalid) hn
    · rw [readPbFixed, if_pos (.inl hsize)]
      exact Reads.parser
  | string =>
    intro size old os hos hB hold
    exact @copied_reads _ .string .str (fun _ => rfl) _ hos size
  | bytes =>
    intro size old os hos hB hold
    exact @copied_reads _ .bytes .bytes (fun _ => rfl) _ hos size
  | data n =>
    intro size old os hos hB hold
    rcases copy_reads hos size with h | ⟨hn, hb, ha, hlen⟩
    · simp only [readPb, if_pos h]
      exact Reads.parser
    · simp only [readPb, hb, ha]
      split
      · exact Reads.parser
      · have hsub := hd n old (os.rest.take size) (by omega) (by have := hos.2; omega) hold
        rcases hsub with h | ⟨v, hv, -, h⟩
        · simp only [bind, Except.bind, h]
          exact Reads.parser
        · simp only [bind, Except.bind, pure, Except.pure, h]
          split
          · exact Reads.parser
          · exact Reads.ok hv hn
  | vector t ih =>
    intro size old os hos hB hold
    simp only [readPb]
    rcases ih size (S.fresh t) os hos hB (S.hasType_fresh t) with h | ⟨e, he, hn, h⟩
    · rw [h]
      exact Reads.parser
    · rw [h]
      refine Reads.ok (Schema.hasType_vector.2 fun x hx => ?_) hn
      rcases List.mem_append.1 hx with hx | hx
      · cases old with
        | vec xs => exact Schema.hasType_vector.1 hold x hx
        | _ => simp [Val.elems] at hx
      · rw [List.mem_singleton.1 hx]
        exact he
  | map k v ihk ihv =>
    intro size old os hos hB hold
    rcases copy_reads hos size with h | ⟨hn, hb, ha, hlen⟩
    · simp only [readPb, if_pos h]
      exact Reads.parser
    · simp only [readPb, hb, ha]
      split
      · exact Reads.parser
      · have hall : (BytesStream.ofBytes (os.rest.take size)).InBounds :=
          BytesStream.inBounds_ofBytes (by have := hos.2; omega)
        have hloop : Reads _ _
            (fun ps => ∀ p ∈ ps, S.hasType k p.1 = true ∧ S.hasType v p.2 = true)
            (forRecords (readPair (readPb S d k) (readPb S d v) (S.fresh k) (S.fresh v))
              (os.rest.take size).length [] (.ofBytes (os.rest.take size))) :=
          forRecords_reads hall (by simp) (by simp)
            (fun seq size' ps os' h1 _ hps h8 h2 => readPair_reads ihk ihv h1 hps
              (by simp only [BytesStream.size_ofBytes] at h8; omega) h2)
        rcases hloop with h | ⟨ps, hps, -, h⟩
        · simp only [bind, Except.bind, h]
          exact Reads.parser
        · simp only [bind, Except.bind, pure, Except.pure, h]
          exact Reads.ok (Schema.hasType_map.2 hps) hn

theorem switchMember_reads {B : Nat} (hd : NestedReads S d B) {seq size : Nat} (hB : size ≤ B)
    {ms : List Member} {vs : List Val} (hos : os.InBounds) (hvs : S.HasTypes ms vs)
    (hsize : os.cur + size ≤ os.size) :
    Reads os size (S.HasTypes ms) (switchMember S d seq size ms vs os) := by
  induction ms generalizing vs with
  | nil =>
    rw [switchMember, BytesStream.skipPb_eq hos hsize]
    · exact Reads.ok hvs hsize
    · simp
  | cons m ms ih =>
    cases vs with
    | nil => simp [Schema.HasTypes] at hvs
    | cons v vs =>
      obtain ⟨hv, hvs⟩ := Schema.hasTypes_cons.1 hvs
      simp only [switchMember]
      split
      · rcases readPb_reads hd m.ty size v os hos hB hv with h | ⟨v', hv', hn, h⟩
        · rw [h]
          exact Reads.parser
        · rw [h]
          exact Reads.ok (Schema.hasTypes_cons.2 ⟨hv', hvs⟩) hn
      · rcases ih hvs with h | ⟨vs', hvs', hn, h⟩
        · rw [h]
          exact Reads.parser
        · rw [h]
          exact Reads.ok (Schema.hasTypes_cons.2 ⟨hv, hvs'⟩) hn

theorem hasTypes_clear {ms : List Member} {vs : List Val} (h : S.HasTypes ms vs) :
    S.HasTypes ms (List.zipWith clearMember ms vs) := by
  induction ms generalizing vs with
  | nil => exact Schema.hasTypes_nil
  | cons m ms ih =>
    cases vs with
    | nil => simp [Schema.HasTypes] at h
    | cons v vs =>
      obtain ⟨hv, hvs⟩ := Schema.hasTypes_cons.1 h
      rw [List.zipWith_cons_cons, Schema.hasTypes_cons]
      refine ⟨?_, ih hvs⟩
      simp only [clearMember]
      split
      · rename_i t hty
        rw [hty]
        rfl
      · rename_i k t hty
        rw [hty]
        rfl
      · exact hv

variable {old : Val}

/-- `deserialize` reads to the end of its buffer or throws: the bytes bound the nesting. -/
theorem deserializeAt_reads {depth : Nat} {n : String} (hos : os.InBounds)
    (hdepth : os.size < depth) (hold : S.hasType (.data n) old = true) :
    Reads os (os.size - os.cur) (fun v => S.hasType (.data n) v = true)
      (deserializeAt S depth n old os) := by
  induction depth generalizing n old os with
  | zero => omega
  | succ depth ih =>
    have hnested : NestedReads S (deserializeAt S depth) (os.size - 8) ∨ os.size < 8 := by
      rcases Nat.lt_or_ge os.size 8 with h | h
      · exact .inr h
      · refine .inl fun n' old' b hb hb64 hold' => ?_
        have := ih (BytesStream.inBounds_ofBytes hb64) (n := n') (by simp; omega) hold'
        simpa using this
    have hold' : S.HasTypes (S.members n) old.fields := by
      cases old with
      | data fs => exact Schema.hasType_data.1 hold
      | _ => simp [Schema.hasType, Schema.everyNode, Schema.layout] at hold
    have hloop : Reads os (os.size - os.cur) (S.HasTypes (S.members n))
        (forRecords (fun seq size vs os =>
            switchMember S (deserializeAt S depth) seq size (S.members n) vs os)
          os.size (List.zipWith clearMember (S.members n) old.fields) os) := by
      refine forRecords_reads hos (hasTypes_clear hold') (by omega) ?_
      intro seq size vs os' h1 _ hvs h8 h2
      rcases hnested with hnested | hlt
      · exact switchMember_reads hnested (by omega) h1 hvs h2
      · omega
    simp only [deserializeAt]
    rcases hloop with h | ⟨vs, hvs, hn, h⟩
    · rw [h]
      exact Reads.parser
    · rw [h]
      exact Reads.ok (Schema.hasType_data.2 hvs) hn

theorem deserialize_reads {n : String} (hos : os.InBounds) (hold : S.hasType (.data n) old = true) :
    Reads os (os.size - os.cur) (fun v => S.hasType (.data n) v = true) (deserialize S n old os) :=
  deserializeAt_reads hos (Nat.lt_succ_self _) hold

/-! ## `operator>>` -/

/-- A read whose length is in the data. -/
def ReadsSome {α : Type} (s : BytesStream) (Q : α → Prop) (r : Except Fault (α × BytesStream)) :
    Prop := ∃ n, Reads s n Q r

theorem shiftWord_reads (f : Fixed) (hos : os.InBounds) :
    Reads os f.size (fun b => f.valid b = true) (shiftWord f os) := by
  unfold shiftWord
  rcases shiftFixed_reads (f := f) hos 0 with h | ⟨hn, hvalid, h⟩
  · rw [h]
    exact Reads.parser
  · rw [h]
    exact Reads.ok hvalid hn

theorem readLenPrefix_reads (hos : os.InBounds) :
    Reads os 4 (fun size => os.cur + 4 + size ≤ os.size) (readLenPrefix os) := by
  rcases shiftWord_reads .int32 hos with h | ⟨size, -, hn, h⟩
  · rw [readLenPrefix, h]
    exact Reads.parser
  · have hrem := (hos.moved hn).remainSize
    simp only [readLenPrefix, h, bind, Except.bind, hrem]
    split
    · exact Reads.parser
    · rename_i hsize
      simp only [Fixed.size, BytesStream.moved_size, BytesStream.moved_cur] at hn hsize
      exact Reads.ok (by omega) hn

theorem forElems_reads {t : Ty} {step : Val → BytesStream → Except Fault (Val × BytesStream)}
    (hstep : ∀ x (os : BytesStream), os.InBounds → S.hasType t x = true →
      ReadsSome os (fun v => S.hasType t v = true) (step x os)) {xs : List Val} (hos : os.InBounds)
    (hxs : ∀ x ∈ xs, S.hasType t x = true) :
    ReadsSome os (fun vs => ∀ v ∈ vs, S.hasType t v = true) (forElems step xs os) := by
  induction xs generalizing os with
  | nil => exact ⟨0, Reads.ok (by simp) hos.1⟩
  | cons x xs ih =>
    obtain ⟨n, h | ⟨v, hv, hn, h⟩⟩ := hstep x os hos (hxs x (by simp))
    · rw [forElems, h]
      exact ⟨0, Reads.parser⟩
    · obtain ⟨k, h' | ⟨vs, hvs, hk, h'⟩⟩ := ih (hos.moved hn) fun y hy => hxs y (by simp [hy])
      · simp only [forElems, h, bind, Except.bind, h']
        exact ⟨0, Reads.parser⟩
      · simp only [forElems, h, bind, Except.bind, h', BytesStream.moved_moved]
        refine ⟨n + k, Reads.ok ?_ (by simpa [Nat.add_assoc] using hk)⟩
        exact List.forall_mem_cons.2 ⟨hv, hvs⟩

theorem minElem_pos (t : ShiftTy) : 0 < t.minElem := by
  cases t with
  | fixed f => cases f <;> decide
  | _ => exact Nat.one_pos

/-- A string or a byte array behind its length. -/
theorem prefixed_reads {t : Ty} {mk : List UInt8 → Val} (hmk : ∀ b, S.hasType t (mk b) = true)
    {os : BytesStream} (hos : os.InBounds) :
    ReadsSome os (fun v => S.hasType t v = true) (do
      let (size, os) ← readLenPrefix os
      let b ← os.curBytes size
      let os ← os.addCurPos size
      return (mk b, os)) := by
  rcases readLenPrefix_reads hos with h | ⟨size, hsize, hn, h⟩
  · rw [h]
    exact ⟨0, Reads.parser⟩
  · have hle : (os.moved 4).cur + size ≤ (os.moved 4).size := hsize
    simp only [h, bind, Except.bind, BytesStream.curBytes_ok hle, BytesStream.addCurPos_ok hle,
      BytesStream.moved_moved]
    exact ⟨4 + size, Reads.ok (hmk _) (by simpa [Nat.add_assoc] using hle)⟩

/-- `operator>>` stays in bounds for every type that has one, and resizes a vector to no more
elements than the remaining bytes can hold. -/
theorem shift_reads (t : ShiftTy) (hos : os.InBounds) (hold : S.hasType t.toTy old = true) :
    ReadsSome os (fun v => S.hasType t.toTy v = true) (shift S t old os) := by
  induction t generalizing old os with
  | fixed f =>
    rcases shiftFixed_reads (f := f) hos old.bits with h | ⟨hn, hvalid, h⟩
    · rw [shift, h]
      exact ⟨0, Reads.parser⟩
    · rw [shift, h]
      refine ⟨f.size, Reads.ok ?_ hn⟩
      simpa [ShiftTy.toTy, Schema.hasType, Schema.everyNode, Schema.layout] using hvalid
  | string => exact @prefixed_reads _ .string .str (fun _ => rfl) _ hos
  | bytes => exact @prefixed_reads _ .bytes .bytes (fun _ => rfl) _ hos
  | data n => exact ⟨_, deserialize_reads hos hold⟩
  | vector t ih =>
    rcases shiftWord_reads .uint32 hos with h | ⟨count, -, hn, h⟩
    · rw [shift, h]
      exact ⟨0, Reads.parser⟩
    · have hos4 := hos.moved hn
      simp only [shift, h, bind, Except.bind]
      split
      · exact ⟨0, Reads.parser⟩
      · rename_i hcount
        -- the count has passed the check, so the resize is one the bytes allow
        have hfit : count * t.minElem ≤ (os.moved Fixed.uint32.size).remainSize :=
          (Nat.le_div_iff_mul_le (minElem_pos t)).1 (Nat.not_lt.1 hcount)
        have hxs : ∀ x ∈ old.elems.take count ++
            List.replicate (count - old.elems.length) (S.fresh t.toTy),
            S.hasType t.toTy x = true := by
          intro x hx
          rcases List.mem_append.1 hx with hx | hx
          · cases old with
            | vec xs => exact Schema.hasType_vector.1 hold x (List.mem_of_mem_take hx)
            | _ => simp [Val.elems] at hx
          · rw [List.eq_of_mem_replicate hx]
            exact S.hasType_fresh _
        obtain ⟨k, h' | ⟨vs, hvs, hk, h'⟩⟩ :=
          forElems_reads (fun x os h1 h2 => ih h1 h2) hos4 hxs
        · simp only [resizeVector, if_pos hfit, h']
          exact ⟨0, Reads.parser⟩
        · simp only [resizeVector, if_pos hfit, h', BytesStream.moved_moved]
          refine ⟨_, Reads.ok (Schema.hasType_vector.2 hvs) ?_⟩
          simpa [Nat.add_assoc] using hk

/-! ## Hostile bytes -/

/-- **Decoding is total and in bounds on every byte string.**

* `deserialize` throws `ParserException` or ends with an object of its class and the cursor at the
  end of the input.  No other fault comes out of it, so no byte outside a buffer or a copied
  sub-buffer is read, no cursor passes its end, and every loop and every recursion ends.
* The same holds of every `operator>>`; in particular no vector is resized to more elements than the
  remaining bytes can hold.
* Both scalar reads throw before they touch the variable or the cursor, and store a `bool` only from
  a byte 0 or 1. -/
theorem decoding_total_in_bounds (S : Schema) :
    (∀ (n : String) (old : Val) (bytes : List UInt8), bytes.length < 2 ^ 64 →
      S.hasType (.data n) old = true →
      deserialize S n old (.ofBytes bytes) = .error .parser ∨
        ∃ v, S.hasType (.data n) v = true ∧
          deserialize S n old (.ofBytes bytes) = .ok (v, ⟨bytes, bytes.length, 0⟩)) ∧
    (∀ (t : ShiftTy) (old : Val) (os : BytesStream), os.InBounds →
      S.hasType t.toTy old = true →
      shift S t old os = .error .parser ∨
        ∃ v k, S.hasType t.toTy v = true ∧ os.cur + k ≤ os.size ∧
          shift S t old os = .ok (v, os.moved k)) ∧
    ∀ (f : Fixed) (size out : Nat) (os : BytesStream), os.InBounds →
      ScalarReads f os out (shiftFixed f os out) ∧
        ScalarReads f os out (readPbFixed f size os out) := by
  refine ⟨?_, ?_, ?_⟩
  · intro n old bytes hbytes hold
    rcases deserialize_reads (BytesStream.inBounds_ofBytes hbytes) hold with h | ⟨v, hv, -, h⟩
    · exact .inl h
    · refine .inr ⟨v, hv, ?_⟩
      rw [h]
      simp [BytesStream.ofBytes, BytesStream.moved, BytesStream.size]
  · intro t old os hos hold
    obtain ⟨k, h | ⟨v, hv, hk, h⟩⟩ := shift_reads t hos hold
    · exact .inl h
    · exact .inr ⟨v, k, hv, hk, h⟩
  · intro f size out os hos
    exact ⟨shiftFixed_reads hos out, readPbFixed_reads hos size out⟩

/-- A class that contains itself in a vector: `rpcdata Node { 0 bool bLeaf; 1 vector<Node> vKids;
}`. -/
def nodeSchema : Schema where
  datas := [⟨"Node", false,
    [⟨"bLeaf", "bLeaf", .fixed .bool, 0⟩, ⟨"vKids", "vKids", .vector (.data "Node"), 1⟩]⟩]
  rank := fun _ => 0
  rank_lt := by simp

/-- A `bool` member sent as the byte 2, and a vector that claims 2 ^ 32 - 1 strings in no bytes. -/
theorem decoding_total_of_bad_bool :
    (deserialize nodeSchema "Node" (nodeSchema.fresh (.data "Node"))
        (.ofBytes [0, 0, 0, 0, 1, 0, 0, 0, 2]) = .error .parser ∨
      ∃ v, nodeSchema.hasType (.data "Node") v = true ∧
        deserialize nodeSchema "Node" (nodeSchema.fresh (.data "Node"))
          (.ofBytes [0, 0, 0, 0, 1, 0, 0, 0, 2]) =
          .ok (v, ⟨[0, 0, 0, 0, 1, 0, 0, 0, 2], 9, 0⟩)) ∧
      (shift nodeSchema (.vector .string) (.vec []) (.ofBytes [255, 255, 255, 255]) =
          .error .parser ∨
        ∃ v k, nodeSchema.hasType (.vector .string) v = true ∧ 0 + k ≤ 4 ∧
          shift nodeSchema (.vector .string) (.vec []) (.ofBytes [255, 255, 255, 255]) =
            .ok (v, (BytesStream.ofBytes [255, 255, 255, 255]).moved k)) ∧
      ScalarReads .bool (.ofBytes [2]) 1 (shiftFixed .bool (.ofBytes [2]) 1) :=
  ⟨(decoding_total_in_bounds nodeSchema).1 "Node" _ _ (by decide)
      (nodeSchema.hasType_fresh _),
    (decoding_total_in_bounds nodeSchema).2.1 (.vector .string) _ _ (by decide) (by decide),
    ((decoding_total_in_bounds nodeSchema).2.2 .bool 1 1 _ (by decide)).1⟩

end OpenIdea.Codec
