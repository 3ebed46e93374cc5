import OpenIdea.Codec.Write

/-!
# Reading records

A record's payload is all that reading it depends on, so reading a message is a fold over its
records, and the fold comes apart into one fold for each member: over the payloads of the records
with the member's number, in their order.  This is why records with different numbers may be
reordered.  The fold is taken apart in `foldlM_readSlot`; `deserializeAt_frame` and
`foldlM_pairStep` are the cases of an object and of a pair.
-/

set_option autoImplicit false

namespace OpenIdea.Codec

open OpenIdea.Lib

variable {S : Schema} {d : String → Val → BytesStream → Except Fault (Val × BytesStream)}

/-! ## A read depends on its payload only -/

variable (S d) in
/-- `ReadPb` on a stream that is exactly the payload. -/
def readPayload (t : Ty) (old : Val) (p : List UInt8) : Except Fault Val :=
  (readPb S d t p.length old (.ofBytes p)).map Prod.fst

section Whole

variable {b : List UInt8}

theorem remainSize_ofBytes (h : b.length < 2 ^ 64) :
    (BytesStream.ofBytes b).remainSize = b.length := by
  simp [(BytesStream.inBounds_ofBytes h).remainSize]

theorem curBytes_ofBytes : (BytesStream.ofBytes b).curBytes b.length = .ok b := by
  simp [BytesStream.curBytes]

theorem addCurPos_ofBytes :
    (BytesStream.ofBytes b).addCurPos b.length = .ok ((BytesStream.ofBytes b).moved b.length) := by
  simp [BytesStream.addCurPos]

end Whole

variable {os : BytesStream} {r : Rec} {recs : List Rec} {ss : List (Nat × Ty)} {vs vs' : List Val}

theorem loadFixed_local {f : Fixed} {out : Nat} (h : os.cur + f.size ≤ os.size) :
    loadFixed f os out =
      if f = .bool ∧ 1 < LittleEndian.decode (os.rest.take f.size) then .error .parser (os, out)
      else .ok () (os.moved f.size, LittleEndian.decode (os.rest.take f.size)) := by
  simp only [loadFixed, BytesStream.curBytes_ok h, BytesStream.addCurPos_ok h]

/-- **A read depends on its payload only.** -/
theorem readPb_local {t : Ty} {old : Val} {size : Nat} (hos : os.InBounds)
    (h : os.cur + size ≤ os.size) :
    readPb S d t size old os =
      (readPayload S d t old (os.rest.take size)).map fun v => (v, os.moved size) := by
  have hlen := BytesStream.take_rest_length h
  have hlen64 : (os.rest.take size).length < 2 ^ 64 := by
    have := hos.2
    omega
  have hrem : ¬ os.remainSize < size := by
    rw [hos.remainSize]
    omega
  have hrem' : ¬ (BytesStream.ofBytes (os.rest.take size)).remainSize <
      (os.rest.take size).length := by
    rw [remainSize_ofBytes hlen64]
    omega
  induction t generalizing old with
  | fixed f =>
    simp only [readPayload, readPb]
    by_cases hsize : size = f.size
    · subst hsize
      have hin : (BytesStream.ofBytes (os.rest.take f.size)).cur + f.size ≤
          (BytesStream.ofBytes (os.rest.take f.size)).size := by
        simp [hlen]
      simp only [readPbFixed, hlen, remainSize_ofBytes hlen64, ne_eq, not_true_eq_false,
        Nat.lt_irrefl, or_self, ↓reduceIte, hrem, loadFixed_local h, loadFixed_local hin,
        BytesStream.rest_ofBytes, List.take_take, Nat.min_self]
      by_cases hbool : f = .bool ∧ 1 < LittleEndian.decode (os.rest.take f.size)
      · simp only [if_pos hbool, Except.map]
      · simp only [if_neg hbool, Except.map]
    · simp only [readPbFixed, hlen, ne_eq, hsize, not_false_eq_true, true_or, ↓reduceIte,
        Except.map]
  | string | bytes =>
    simp only [readPayload, readPb, if_neg hrem, if_neg hrem', BytesStream.curBytes_ok h,
      BytesStream.addCurPos_ok h, curBytes_ofBytes, addCurPos_ofBytes]
    rfl
  | data n =>
    simp only [readPayload, readPb, if_neg hrem, if_neg hrem', BytesStream.curBytes_ok h,
      BytesStream.addCurPos_ok h, curBytes_ofBytes, addCurPos_ofBytes, bind, Except.bind, pure,
      Except.pure]
    cases d n old (.ofBytes (os.rest.take size)) with
    | error e => rfl
    | ok r =>
      dsimp only
      split <;> rfl
  | vector t ih =>
    simp only [readPayload, readPb, ih, bind, Except.bind]
    cases hr : readPb S d t (os.rest.take size).length (S.fresh t)
        (BytesStream.ofBytes (os.rest.take size)) with
    | error e => rfl
    | ok r => rfl
  | map k v _ _ =>
    simp only [readPayload, readPb, if_neg hrem, if_neg hrem', BytesStream.curBytes_ok h,
      BytesStream.addCurPos_ok h, curBytes_ofBytes, addCurPos_ofBytes, bind, Except.bind, pure,
      Except.pure]
    cases forRecords (readPair (readPb S d k) (readPb S d v) (S.fresh k) (S.fresh v))
        (os.rest.take size).length [] (.ofBytes (os.rest.take size)) with
    | error e => rfl
    | ok r => rfl

/-! ## A loop over records is a fold -/

/-- Records a header can announce. -/
def ValidRecs (recs : List Rec) : Prop := ∀ r ∈ recs, r.1 < 2 ^ 31 ∧ r.2.length < 2 ^ 31

/-- The size field of the first record, when its eight header bytes are there. -/
theorem decode_size_frame (hr : r.2.length < 2 ^ 31) {b more : List UInt8}
    (hb : b ++ more = frame (r :: recs)) (h8 : 8 ≤ b.length) :
    LittleEndian.decode ((b.take 8).drop 4) = r.2.length := by
  have htake : b.take 8 = (frame (r :: recs)).take 8 := by
    rw [← hb, List.take_append_of_le_length h8]
  have hsize : ((frame (r :: recs)).take 8).drop 4 = LittleEndian.encode 4 r.2.length := by
    simp [List.take_append]
  rw [htake, hsize]
  exact LittleEndian.decode_encode (by omega)

/-- The header of the first record, in a buffer that may end inside the record. -/
theorem headerOf_part (hr : r.1 < 2 ^ 31 ∧ r.2.length < 2 ^ 31) {b more : List UInt8}
    (hb : b ++ more = frame (r :: recs)) :
    BytesStream.headerOf b =
      if b.length < 8 + r.2.length then .needMore else .ok r.1 r.2.length := by
  by_cases h8 : b.length < 8
  · have hlt : b.length < 8 + r.2.length := by omega
    simp only [BytesStream.headerOf, if_pos h8, if_pos hlt]
  · have hsize := decode_size_frame hr.2 hb (by omega)
    have htake : b.take 4 = (frame (r :: recs)).take 4 := by
      rw [← hb, List.take_append_of_le_length (by omega)]
    have hseq : LittleEndian.decode (b.take 4) = r.1 := by
      rw [htake, show (frame (r :: recs)).take 4 = LittleEndian.encode 4 r.1 by simp]
      exact LittleEndian.decode_encode (by omega)
    simp only [BytesStream.headerOf, hseq, hsize, if_neg h8]
    rw [if_neg (by omega)]

theorem headerOf_frame (hr : r.1 < 2 ^ 31 ∧ r.2.length < 2 ^ 31) :
    BytesStream.headerOf (frame (r :: recs)) = .ok r.1 r.2.length := by
  rw [headerOf_part hr (List.append_nil _), if_neg]
  simp only [frame_cons, List.length_append, LittleEndian.encode_length]
  omega

theorem drop_frame (r : Rec) (recs : List Rec) :
    (frame (r :: recs)).drop 8 = r.2 ++ frame recs := by
  simp [List.drop_append]

/-- **Reading a sequence of records is a fold** over their payloads, when the body reads each record
by its payload. -/
theorem forRecords_frame {σ : Type}
    {body : Nat → Nat → σ → BytesStream → Except Fault (σ × BytesStream)}
    {step : σ → Rec → Except Fault σ}
    (hbody : ∀ q size st (os : BytesStream), os.InBounds → os.cur + size ≤ os.size →
      body q size st os = (step st (q, os.rest.take size)).map fun st => (st, os.moved size))
    (hrecs : ValidRecs recs) (hos : os.InBounds) (hrest : os.rest = frame recs) {rounds : Nat}
    (hrounds : os.size - os.cur ≤ rounds) (st : σ) :
    forRecords body rounds st os =
      (recs.foldlM step st).map fun st => (st, os.moved (os.size - os.cur)) := by
  induction recs generalizing os rounds st with
  | nil =>
    have hend : os.size - os.cur = 0 := by
      rw [← BytesStream.rest_length, hrest]
      rfl
    cases rounds with
    | zero => simp only [forRecords, hos.remainSize, hend, ↓reduceIte]; rfl
    | succ rounds => simp only [forRecords, hos.remainSize, hend, ↓reduceIte]; rfl
  | cons r recs ih =>
    have hlen : os.size - os.cur = 8 + r.2.length + (frame recs).length := by
      rw [← BytesStream.rest_length, hrest]
      simp only [frame_cons, List.length_append, LittleEndian.encode_length]
    have hcur := hos.1
    obtain ⟨rounds, rfl⟩ : ∃ k, rounds = k + 1 := ⟨rounds - 1, by omega⟩
    have hr := hrecs r (by simp)
    have hpos : ¬ os.size - os.cur = 0 := by omega
    have h8 : os.cur + 8 ≤ os.size := by omega
    have hb := hbody r.1 r.2.length st (os.moved 8) (hos.moved h8)
      (by simp only [BytesStream.moved_cur, BytesStream.moved_size]; omega)
    have hpay : (os.moved 8).rest.take r.2.length = r.2 := by
      rw [BytesStream.rest_moved, hrest, drop_frame]
      simp
    rw [hpay] at hb
    simp only [forRecords, hos.remainSize, if_neg hpos, BytesStream.readPbHeader_eq hos, hrest,
      headerOf_frame hr, bind, Except.bind, hb, List.foldlM_cons]
    cases step st r with
    | error e => rfl
    | ok st' =>
      have hend : (os.moved 8).cur + r.2.length ≤ (os.moved 8).size := by
        simp only [BytesStream.moved_cur, BytesStream.moved_size]
        omega
      have hrest' : ((os.moved 8).moved r.2.length).rest = frame recs := by
        rw [BytesStream.rest_moved, BytesStream.rest_moved, hrest, drop_frame]
        simp
      have hfew : ((os.moved 8).moved r.2.length).size -
          ((os.moved 8).moved r.2.length).cur ≤ rounds := by
        simp only [BytesStream.moved_cur, BytesStream.moved_size]
        omega
      have htail := ih (fun x hx => hrecs x (by simp [hx])) ((hos.moved h8).moved hend) hrest'
        hfew st'
      have hmoved : ((os.moved 8).moved r.2.length).moved
          (((os.moved 8).moved r.2.length).size - ((os.moved 8).moved r.2.length).cur) =
          os.moved (os.size - os.cur) := by
        simp only [BytesStream.moved_moved, BytesStream.moved_cur, BytesStream.moved_size]
        congr 1
        omega
      rw [hmoved] at htail
      exact htail

/-! ## The fold, one slot at a time -/

variable (S d) in
/-- A record goes to the slot with its number, or nowhere. -/
def readSlot : List (Nat × Ty) → List Val → Rec → Except Fault (List Val)
  | s :: ss, v :: vs, r =>
      if s.1 = r.1 then do
        let v ← readPayload S d s.2 v r.2
        return v :: vs
      else do
        let vs ← readSlot ss vs r
        return v :: vs
  | _, vs, _ => .ok vs

variable (S d) in
/-- Each slot, read on its own over the payloads with its number. -/
def SlotsRead : List (Nat × Ty) → List Val → List Val → List Rec → Prop
  | s :: ss, v :: vs, v' :: vs', recs =>
      (payloadsOf s.1 recs).foldlM (readPayload S d s.2) v = .ok v' ∧ SlotsRead ss vs vs' recs
  | [], [], [], _ => True
  | _, _, _, _ => False

theorem payloadsOf_cons (q : Nat) (r : Rec) (recs : List Rec) :
    payloadsOf q (r :: recs) = if r.1 = q then r.2 :: payloadsOf q recs else payloadsOf q recs := by
  by_cases h : r.1 = q
  · simp [payloadsOf, h]
  · simp [payloadsOf, h]

theorem SlotsRead.skip (hr : ∀ s ∈ ss, s.1 ≠ r.1) (h : SlotsRead S d ss vs vs' (r :: recs)) :
    SlotsRead S d ss vs vs' recs := by
  induction ss generalizing vs vs' with
  | nil => cases vs <;> cases vs' <;> simp_all [SlotsRead]
  | cons s ss ih =>
    cases vs with
    | nil => exact h.elim
    | cons v vs =>
      cases vs' with
      | nil => exact h.elim
      | cons v' vs' =>
        obtain ⟨hv, hvs⟩ := h
        rw [payloadsOf_cons, if_neg fun he => hr s (by simp) he.symm] at hv
        exact ⟨hv, ih (fun s' hs' => hr s' (by simp [hs'])) hvs⟩

/-- One record of the fold. -/
theorem SlotsRead.step (hnodup : (ss.map Prod.fst).Nodup) (h : SlotsRead S d ss vs vs' (r :: recs))
    : ∃ vs₁, readSlot S d ss vs r = .ok vs₁ ∧ SlotsRead S d ss vs₁ vs' recs := by
  induction ss generalizing vs vs' with
  | nil => cases vs <;> cases vs' <;> simp_all [SlotsRead, readSlot]
  | cons s ss ih =>
    cases vs with
    | nil => exact h.elim
    | cons v vs =>
      cases vs' with
      | nil => exact h.elim
      | cons v' vs' =>
        obtain ⟨hv, hvs⟩ := h
        simp only [List.map_cons, List.nodup_cons] at hnodup
        rw [payloadsOf_cons] at hv
        by_cases hs : s.1 = r.1
        · rw [if_pos hs.symm, List.foldlM_cons] at hv
          cases hread : readPayload S d s.2 v r.2 with
          | error e =>
            rw [hread] at hv
            cases hv
          | ok v₁ =>
            rw [hread] at hv
            refine ⟨v₁ :: vs, ?_, hv, hvs.skip fun s' hs' he => hnodup.1 ?_⟩
            · simp only [readSlot, if_pos hs, hread]
              rfl
            · exact List.mem_map.2 ⟨s', hs', by rw [he, hs]⟩
        · rw [if_neg fun he => hs he.symm] at hv
          obtain ⟨vs₁, hvs₁, hrest⟩ := ih hnodup.2 hvs
          refine ⟨v :: vs₁, ?_, hv, hrest⟩
          simp only [readSlot, if_neg hs, hvs₁]
          rfl

theorem SlotsRead.eq_of_nil (h : SlotsRead S d ss vs vs' []) : vs = vs' := by
  induction ss generalizing vs vs' with
  | nil => cases vs <;> cases vs' <;> simp_all [SlotsRead]
  | cons s ss ih =>
    cases vs with
    | nil => exact h.elim
    | cons v vs =>
      cases vs' with
      | nil => exact h.elim
      | cons v' vs' =>
        obtain ⟨hv, hvs⟩ := h
        rw [ih hvs]
        injection hv with hv
        rw [hv]

/-- **The slots may be read one at a time.** -/
theorem foldlM_readSlot (hnodup : (ss.map Prod.fst).Nodup) (h : SlotsRead S d ss vs vs' recs) :
    recs.foldlM (readSlot S d ss) vs = .ok vs' := by
  induction recs generalizing vs with
  | nil => rw [h.eq_of_nil]; rfl
  | cons r recs ih =>
    obtain ⟨vs₁, hstep, hrest⟩ := h.step hnodup
    rw [List.foldlM_cons, hstep]
    exact ih hrest

/-! ### Objects -/

/-- The slots of a class: its members' numbers and types. -/
def slots (ms : List Member) : List (Nat × Ty) := ms.map fun m => (m.seq, m.ty)

theorem switchMember_local {ms : List Member} {q size : Nat} (hos : os.InBounds)
    (h : os.cur + size ≤ os.size) :
    switchMember S d q size ms vs os =
      (readSlot S d (slots ms) vs (q, os.rest.take size)).map fun vs => (vs, os.moved size) := by
  induction ms generalizing vs with
  | nil =>
    cases vs <;> simp only [switchMember, slots, List.map_nil, readSlot,
      BytesStream.skipPb_eq hos h] <;> rfl
  | cons m ms ih =>
    cases vs with
    | nil =>
      simp only [switchMember, slots, List.map_cons, readSlot, BytesStream.skipPb_eq hos h]
      rfl
    | cons v vs =>
      simp only [switchMember, slots, List.map_cons, readSlot, readPb_local hos h]
      by_cases hm : m.seq = q
      · simp only [if_pos hm]
        cases readPayload S d m.ty v (os.rest.take size) with
        | error e => rfl
        | ok v' => rfl
      · simp only [if_neg hm, ih]
        simp only [slots]
        cases readSlot S d (ms.map fun m => (m.seq, m.ty)) vs (q, os.rest.take size) with
        | error e => rfl
        | ok vs' => rfl

/-- **`deserialize` on a sequence of records** reads each member over the payloads with its
number. -/
theorem deserializeAt_frame {depth : Nat} {n : String} {old : Val} (hrecs : ValidRecs recs)
    (hlen : (frame recs).length < 2 ^ 64) (hnodup : ((S.members n).map Member.seq).Nodup)
    (h : SlotsRead S (deserializeAt S depth) (slots (S.members n))
      (List.zipWith clearMember (S.members n) old.fields) vs' recs) :
    deserializeAt S (depth + 1) n old (.ofBytes (frame recs)) =
      .ok (.data vs', (BytesStream.ofBytes (frame recs)).moved (frame recs).length) := by
  have hnodup' : ((slots (S.members n)).map Prod.fst).Nodup := by
    simpa [slots, Function.comp_def] using hnodup
  have hbody : ∀ q size vs (os : BytesStream), os.InBounds → os.cur + size ≤ os.size →
      switchMember S (deserializeAt S depth) q size (S.members n) vs os =
        (readSlot S (deserializeAt S depth) (slots (S.members n)) vs (q, os.rest.take size)).map
          fun vs => (vs, os.moved size) :=
    fun q size vs os hos hsize => switchMember_local hos hsize
  have hloop := forRecords_frame hbody hrecs (BytesStream.inBounds_ofBytes hlen) rfl
    (Nat.sub_le _ _) (List.zipWith clearMember (S.members n) old.fields)
  rw [foldlM_readSlot hnodup' h] at hloop
  simp only [deserializeAt]
  rw [hloop]
  rfl

/-! ### Pairs -/

/-- One field of a pair. -/
def pairStep (S : Schema) (d : String → Val → BytesStream → Except Fault (Val × BytesStream))
    (k v : Ty) (st : PairState) (r : Rec) : Except Fault PairState :=
  if r.1 = 0 then do
    let key ← readPayload S d k st.key r.2
    return { st with key := key, gotKey := true }
  else if r.1 = 1 then do
    let val ← readPayload S d v st.val r.2
    return { st with val := val, gotVal := true }
  else .ok st

theorem readPairField_local {k v : Ty} {st : PairState} {q size : Nat} {pair : BytesStream}
    (hpair : pair.InBounds) (h : pair.cur + size ≤ pair.size) :
    readPairField (readPb S d k) (readPb S d v) q size st pair =
      (pairStep S d k v st (q, pair.rest.take size)).map fun st => (st, pair.moved size) := by
  simp only [readPairField, pairStep, readPb_local hpair h, BytesStream.skipPb_eq hpair h]
  by_cases h0 : q = 0
  · simp only [if_pos h0]
    cases readPayload S d k st.key (pair.rest.take size) with
    | error e => rfl
    | ok key => rfl
  · by_cases h1 : q = 1
    · simp only [if_neg h0, if_pos h1]
      cases readPayload S d v st.val (pair.rest.take size) with
      | error e => rfl
      | ok val => rfl
    · simp only [if_neg h0, if_neg h1]
      rfl

theorem foldlM_pairStep {k v : Ty} {st : PairState} {key val : Val}
    (hkey : (payloadsOf 0 recs).foldlM (readPayload S d k) st.key = .ok key)
    (hval : (payloadsOf 1 recs).foldlM (readPayload S d v) st.val = .ok val) :
    recs.foldlM (pairStep S d k v) st =
      .ok ⟨key, val, st.gotKey || !(payloadsOf 0 recs).isEmpty,
        st.gotVal || !(payloadsOf 1 recs).isEmpty⟩ := by
  induction recs generalizing st with
  | nil =>
    injection hkey with hkey
    injection hval with hval
    simp [payloadsOf, ← hkey, ← hval]
    rfl
  | cons r recs ih =>
    rw [payloadsOf_cons] at hkey hval
    rw [List.foldlM_cons, payloadsOf_cons, payloadsOf_cons]
    by_cases h0 : r.1 = 0
    · have h1 : r.1 ≠ 1 := by omega
      rw [if_pos h0, List.foldlM_cons] at hkey
      rw [if_neg h1] at hval
      cases hread : readPayload S d k st.key r.2 with
      | error e =>
        rw [hread] at hkey
        cases hkey
      | ok key₁ =>
        rw [hread] at hkey
        have hstep : pairStep S d k v st r = .ok { st with key := key₁, gotKey := true } := by
          simp only [pairStep, if_pos h0, hread]
          rfl
        have := @ih { st with key := key₁, gotKey := true } hkey hval
        rw [hstep, ok_bind]
        simpa [h0, h1] using this
    · by_cases h1 : r.1 = 1
      · rw [if_neg h0] at hkey
        rw [if_pos h1, List.foldlM_cons] at hval
        cases hread : readPayload S d v st.val r.2 with
        | error e =>
          rw [hread] at hval
          cases hval
        | ok val₁ =>
          rw [hread] at hval
          have hstep : pairStep S d k v st r = .ok { st with val := val₁, gotVal := true } := by
            simp only [pairStep, if_neg h0, if_pos h1, hread]
            rfl
          have := @ih { st with val := val₁, gotVal := true } hkey hval
          rw [hstep, ok_bind]
          simpa [h0, h1] using this
      · rw [if_neg h0] at hkey
        rw [if_neg h1] at hval
        have hstep : pairStep S d k v st r = .ok st := by
          simp only [pairStep, if_neg h0, if_neg h1]
        rw [hstep, if_neg h0, if_neg h1]
        exact ih hkey hval

end OpenIdea.Codec
