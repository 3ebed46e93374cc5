import OpenIdea.Net.Framing

/-!
# The rounds of `OnDataIn` over any bytes (oi_rpc_session.cpp)

`Framing` follows the bytes of frames that somebody has sent. Here the bytes are arbitrary, the
handlers behind `DeliverRpc` may close the session in the middle of the loop, and the timer of an
incomplete frame may be refused. What a round of the loop does depends on the bytes from the cursor
on (`roundOf`); the loop is then a function of these bytes (`cutLoop`), which the results about
streams and about datagrams both use (`onDataInWith_eq`, `cutLoop_looped`).
-/

set_option autoImplicit false

namespace OpenIdea.Net

open OpenIdea.Lib OpenIdea.Codec

/-- What the handlers behind `DeliverRpc` do to the session: they close it, or not. -/
abbrev Handler : Type := ProtoSession → Rec → Option CloseReason

namespace ProtoSession

/-- `DeliverRpc`, and what its handlers do to the session. -/
def deliverTo (h : Handler) (s : ProtoSession) (r : Rec) : ProtoSession :=
  match h s r with
  | none => s.deliverRpc r.1 r.2
  | some reason => (s.deliverRpc r.1 r.2).passiveClose reason

/-- The loop of `OnDataIn`. -/
def frameLoopWith (h : Handler) (c : Limits) :
    Nat → BytesStream → ProtoSession → Except Fault (BytesStream × ProtoSession)
  | 0, os, s => if os.remainSize = 0 then .ok (os, s) else .error .endless
  | rounds + 1, os, s =>
      if os.remainSize = 0 then .ok (os, s)
      else do
        if 8 ≤ os.remainSize then
          let head ← os.curBytes 8
          if c.frame < LittleEndian.decode (head.drop 4) then
            return (os, if c.datagram then s else s.passiveClose .emsgsize)
        match ← os.startTransaction.preparePbHeader with
        | (.needMore, os) => return (os.rollBack, s)
        | (.bad, os) => return (os, if c.datagram then s else s.passiveClose .parserOther)
        | (.ok id size, os) =>
            let s := s.cancelIncompleteTimer
            let body ← os.curBytes size
            let os ← os.addCurPos size
            frameLoopWith h c rounds os (s.deliverTo h (id, body))

/-- `ENOBUFS`, of a timer that is refused. -/
def armOrClose (s : ProtoSession) (now : Nat) (bTimer : Bool) : ProtoSession :=
  if s.timer.isSome ∨ s.closed.isSome then s
  else if bTimer then { s with timer := some now }
  else s.passiveClose .enobufs

/-- `OnDataIn` at time `now`; `bTimer` says that `ArmIncompleteTimer` gets its timer. -/
def onDataInWith (h : Handler) (c : Limits) (now : Nat) (bTimer : Bool) (s : ProtoSession) :
    Except Fault ProtoSession := do
  let (os, s) ← frameLoopWith h c s.input.length (.ofBytes s.input) { s with input := [] }
  let s := { s with input := os.buf.drop os.cur }
  if c.datagram then
    return { s with input := [] }
  else if s.closed.isSome then
    return { s.cancelIncompleteTimer with input := [] }
  else if s.input ≠ [] then
    return s.armOrClose now bTimer
  else
    return s.cancelIncompleteTimer

/-- With handlers that never close it, this is the loop of `Framing`. -/
theorem frameLoopWith_none (c : Limits) (rounds : Nat) (os : BytesStream) (s : ProtoSession) :
    frameLoopWith (fun _ _ => none) c rounds os s = frameLoop c rounds os s := by
  induction rounds generalizing os s with
  | zero => rfl
  | succ rounds ih =>
    simp only [frameLoopWith, deliverTo, ih]
    rfl

theorem onDataInWith_none (c : Limits) (now : Nat) (s : ProtoSession) :
    onDataInWith (fun _ _ => none) c now true s = onDataIn c now s := by
  simp only [onDataInWith, onDataIn, frameLoopWith_none, armOrClose, armIncompleteTimer, if_true]

end ProtoSession

/-! ## A round -/

/-- What a round makes of the bytes from the cursor on. -/
inductive Round where
  /-- Nothing is left. -/
  | done
  /-- The header declares more than the limit. -/
  | oversized
  | needMore
  | bad
  /-- A frame is taken off, and the next round sees `rest`. -/
  | cut (r : Rec) (rest : List UInt8)

def roundOf (c : Limits) (b : List UInt8) : Round :=
  if b = [] then .done
  else if 8 ≤ b.length ∧ c.frame < LittleEndian.decode ((b.take 8).drop 4) then .oversized
  else
    match BytesStream.headerOf b with
    | .needMore => .needMore
    | .bad => .bad
    | .ok id size => .cut (id, (b.drop 8).take size) (b.drop (8 + size))

/-- The loop as a function of the bytes. -/
def cutLoop (h : Handler) (c : Limits) : Nat → List UInt8 → ProtoSession →
    List UInt8 × ProtoSession
  | 0, b, s => (b, s)
  | rounds + 1, b, s =>
      match roundOf c b with
      | .done | .needMore => (b, s)
      | .oversized => (b, if c.datagram then s else s.passiveClose .emsgsize)
      | .bad => (b, if c.datagram then s else s.passiveClose .parserOther)
      | .cut r rest => cutLoop h c rounds rest (s.cancelIncompleteTimer.deliverTo h r)

variable {b : List UInt8} {c : Limits}

/-- A frame that is taken off is at least a header long. -/
theorem roundOf_cut {rest : List UInt8} {r : Rec} (h : roundOf c b = .cut r rest) :
    BytesStream.headerOf b = .ok r.1 r.2.length ∧ r.2 = (b.drop 8).take r.2.length ∧
      rest = b.drop (8 + r.2.length) ∧ rest.length + 8 + r.2.length = b.length ∧
      r.2.length ≤ c.frame := by
  rw [roundOf] at h
  split at h
  · cases h
  · split at h
    · cases h
    · rename_i hsize
      split at h
      · cases h
      · cases h
      · rename_i id size hheader
        obtain ⟨rfl, rfl⟩ := Round.cut.inj h
        obtain ⟨-, -, hlen⟩ := BytesStream.headerOf_ok hheader
        have hbody : ((b.drop 8).take size).length = size := by
          rw [List.length_take, List.length_drop]
          omega
        refine ⟨?_, ?_, ?_, ?_, ?_⟩
        · rw [hbody]
          exact hheader
        · rw [hbody]
        · rw [hbody]
        · rw [hbody, List.length_drop]
          omega
        · -- the declared size is the length of the body
          rw [hbody]
          simp only [BytesStream.headerOf] at hheader
          split at hheader
          · cases hheader
          · split at hheader
            · cases hheader
            · split at hheader
              · cases hheader
              · injection hheader with _ hdeclared
                omega

theorem roundOf_done : roundOf c b = .done ↔ b = [] := by
  constructor
  · intro h
    rw [roundOf] at h
    split at h
    · assumption
    · split at h
      · cases h
      · split at h <;> cases h
  · rintro rfl
    rfl

/-- A round after the check of the declared size. -/
def afterSize (h : Handler) (c : Limits) (rounds : Nat) (s : ProtoSession) :
    PbHeader × BytesStream → Except Fault (BytesStream × ProtoSession)
  | (.needMore, os) => .ok (os.rollBack, s)
  | (.bad, os) => .ok (os, if c.datagram then s else s.passiveClose .parserOther)
  | (.ok id size, os) => do
      let body ← os.curBytes size
      let os ← os.addCurPos size
      (s.cancelIncompleteTimer.deliverTo h (id, body)).frameLoopWith h c rounds os

variable {h : Handler} {rounds : Nat} {s : ProtoSession}

/-- The first part of a round: the end of the loop, and the declared size. -/
theorem frameLoopWith_succ {os : BytesStream} (hos : os.InBounds) (hne : os.rest ≠ [])
    (hsize : ¬ (8 ≤ os.rest.length ∧ c.frame < LittleEndian.decode ((os.rest.take 8).drop 4))) :
    s.frameLoopWith h c (rounds + 1) os =
      os.startTransaction.preparePbHeader >>= afterSize h c rounds s := by
  have hlen := os.rest_length
  have hend : ¬ os.size - os.cur = 0 := by
    intro hzero
    exact hne (List.length_eq_zero_iff.1 (by omega))
  have hst : os.startTransaction.InBounds := hos
  have hprep := BytesStream.preparePbHeader_eq hst
  simp only [ProtoSession.frameLoopWith, hos.remainSize, if_neg hend]
  by_cases h8 : 8 ≤ os.size - os.cur
  · have hle : ¬ c.frame < LittleEndian.decode ((os.rest.take 8).drop 4) :=
      fun hlt => hsize ⟨by omega, hlt⟩
    have hhead : os.curBytes 8 = .ok (os.rest.take 8) := BytesStream.curBytes_ok (by omega)
    simp only [if_pos h8, hhead, if_neg hle, ok_bind, hprep]
    cases BytesStream.headerOf os.startTransaction.rest <;> rfl
  · simp only [if_neg h8, hprep]
    cases BytesStream.headerOf os.startTransaction.rest <;> rfl

/-- **The loop over a stream is the loop over the bytes from its cursor on.** -/
theorem frameLoopWith_eq :
    ∀ {os : BytesStream} {s : ProtoSession}, os.InBounds → os.size - os.cur ≤ rounds →
      ∃ os', s.frameLoopWith h c rounds os = .ok (os', (cutLoop h c rounds os.rest s).2) ∧
        os'.rest = (cutLoop h c rounds os.rest s).1 := by
  induction rounds with
  | zero =>
    intro os s hos hrounds
    have hend : os.size - os.cur = 0 := by omega
    exact ⟨os, by simp [ProtoSession.frameLoopWith, hos.remainSize, hend, cutLoop], rfl⟩
  | succ rounds ih =>
    intro os s hos hrounds
    have hlen := os.rest_length
    -- the rounds that end the loop come first: no bytes, and a size over the limit
    by_cases hnil : os.rest = []
    · have hend : os.size - os.cur = 0 := by
        rw [← hlen, hnil]
        rfl
      rw [cutLoop, roundOf_done.2 hnil]
      exact ⟨os, by simp [ProtoSession.frameLoopWith, hos.remainSize, hend], rfl⟩
    by_cases hover : 8 ≤ os.rest.length ∧
        c.frame < LittleEndian.decode ((os.rest.take 8).drop 4)
    · have hround : roundOf c os.rest = .oversized := by rw [roundOf, if_neg hnil, if_pos hover]
      have hend : ¬ os.size - os.cur = 0 := by omega
      have h8 : 8 ≤ os.size - os.cur := by omega
      have hhead : os.curBytes 8 = .ok (os.rest.take 8) := BytesStream.curBytes_ok (by omega)
      rw [cutLoop, hround]
      refine ⟨os, ?_, rfl⟩
      simp only [ProtoSession.frameLoopWith, hos.remainSize, if_neg hend, if_pos h8, hhead,
        ok_bind, if_pos hover.2]
      rfl
    have hst : os.startTransaction.InBounds := hos
    have hrest : os.startTransaction.rest = os.rest := rfl
    have hround : roundOf c os.rest =
        match BytesStream.headerOf os.rest with
        | .needMore => .needMore
        | .bad => .bad
        | .ok id size => .cut (id, (os.rest.drop 8).take size) (os.rest.drop (8 + size)) := by
      rw [roundOf, if_neg hnil, if_neg hover]
    rw [frameLoopWith_succ hos hnil hover, BytesStream.preparePbHeader_eq hst, ok_bind, cutLoop,
      hround, hrest]
    -- what `PreparePbHeader` makes of the bytes; only a whole frame goes round again
    cases hheader : BytesStream.headerOf os.rest with
    | needMore => exact ⟨os.startTransaction.rollBack, rfl, rfl⟩
    | bad => exact ⟨os.startTransaction, rfl, rfl⟩
    | ok id size =>
      obtain ⟨-, -, hroom⟩ := BytesStream.headerOf_ok hheader
      have hin : (os.startTransaction.moved 8).cur + size ≤ (os.startTransaction.moved 8).size := by
        show os.cur + 8 + size ≤ os.size
        omega
      have hos8 : (os.startTransaction.moved 8).InBounds := by
        refine ⟨?_, hos.2⟩
        show os.cur + 8 ≤ os.size
        omega
      have hbody : (os.startTransaction.moved 8).rest = os.rest.drop 8 := by
        rw [BytesStream.rest_moved, hrest]
      have hnext : ((os.startTransaction.moved 8).moved size).rest = os.rest.drop (8 + size) := by
        rw [BytesStream.rest_moved, hbody, List.drop_drop]
      have hfew : ((os.startTransaction.moved 8).moved size).size -
          ((os.startTransaction.moved 8).moved size).cur ≤ rounds := by
        show os.size - (os.cur + 8 + size) ≤ rounds
        omega
      obtain ⟨os', hloop, hleft⟩ := ih (hos8.moved hin)
        (s := s.cancelIncompleteTimer.deliverTo h (id, (os.rest.drop 8).take size)) hfew
      rw [hnext] at hloop hleft
      refine ⟨os', ?_, hleft⟩
      simp only [BytesStream.afterHeader, afterSize, BytesStream.curBytes_ok hin,
        BytesStream.addCurPos_ok hin, ok_bind, hbody]
      exact hloop

/-- **`OnDataIn` over any bytes** does not fail, and depends on them and on the session. -/
theorem onDataInWith_eq (h : Handler) (c : Limits) (now : Nat) (bTimer : Bool)
    (hlen : s.input.length < 2 ^ 64) :
    s.onDataInWith h c now bTimer = .ok (
      let (b, s') := cutLoop h c s.input.length s.input { s with input := [] }
      if c.datagram then { s' with input := [] }
      else if s'.closed.isSome then { s'.cancelIncompleteTimer with input := [] }
      else if b ≠ [] then { s' with input := b }.armOrClose now bTimer
      else { s' with input := b }.cancelIncompleteTimer) := by
  obtain ⟨os', hloop, hleft⟩ := frameLoopWith_eq (h := h) (c := c)
    (s := { s with input := [] }) (BytesStream.inBounds_ofBytes hlen) (Nat.sub_le _ _)
  rw [BytesStream.rest_ofBytes, BytesStream.size_ofBytes] at hloop hleft
  have hbuf : os'.buf.drop os'.cur = os'.rest := rfl
  simp only [ProtoSession.onDataInWith, hloop, ok_bind, hbuf, hleft]
  split
  · rfl
  · split
    · rfl
    · split <;> rfl

/-! ## What the loop does -/

/-- A delivery: the frame is the next one delivered. -/
theorem deliverTo_spec (h : Handler) (s : ProtoSession) (r : Rec) :
    (s.deliverTo h r).delivered = s.delivered ++ [r] ∧ (s.deliverTo h r).timer = s.timer ∧
      (s.closed.isSome → (s.deliverTo h r).closed.isSome) := by
  rw [ProtoSession.deliverTo]
  split
  · exact ⟨rfl, rfl, id⟩
  · exact ⟨rfl, rfl, fun _ => rfl⟩

/-- The bytes wait for more: none are there, or they are the beginning of a frame. -/
def Waits (c : Limits) (b : List UInt8) : Prop := roundOf c b = .done ∨ roundOf c b = .needMore

/-- **What the loop does to a stream**, from `s` with the bytes `b` to `s'` with `b'`. -/
structure Looped (c : Limits) (b : List UInt8) (s : ProtoSession) (b' : List UInt8)
    (s' : ProtoSession) : Prop where
  /-- What is left is the end of the bytes. -/
  left : ∃ taken, b = taken ++ b'
  closed : s.closed.isSome → s'.closed.isSome
  waits : s'.closed = none → Waits c b'
  /-- Nothing was taken off, or the first frame was, and the timer has been stopped. -/
  first : (b' = b ∧ s'.delivered = s.delivered ∧ s'.timer = s.timer) ∨
    ∃ r rest, roundOf c b = .cut r rest ∧ b'.length ≤ rest.length ∧ s'.timer = none ∧
      ∃ recs, s'.delivered = s.delivered ++ r :: recs

/-- A session that is open afterwards was open before. -/
theorem Looped.wasOpen {b' : List UInt8} {s' : ProtoSession} (h : Looped c b s b' s')
    (hopen : s'.closed = none) : s.closed = none := by
  cases hclosed : s.closed with
  | none => rfl
  | some r =>
    have hstill := h.closed (by rw [hclosed]; rfl)
    rw [hopen] at hstill
    cases hstill

theorem cutLoop_looped (htcp : c.datagram = false) :
    ∀ {b : List UInt8} {s : ProtoSession}, b.length ≤ rounds →
      Looped c b s (cutLoop h c rounds b s).1 (cutLoop h c rounds b s).2 := by
  induction rounds with
  | zero =>
    intro b s hlen
    have hnil : b = [] := List.length_eq_zero_iff.1 (Nat.le_zero.1 hlen)
    subst hnil
    exact ⟨⟨[], rfl⟩, id, fun _ => Or.inl rfl, Or.inl ⟨rfl, rfl, rfl⟩⟩
  | succ rounds ih =>
    intro b s hlen
    rw [cutLoop]
    cases hround : roundOf c b with
    | done => exact ⟨⟨[], rfl⟩, id, fun _ => Or.inl hround, Or.inl ⟨rfl, rfl, rfl⟩⟩
    | needMore => exact ⟨⟨[], rfl⟩, id, fun _ => Or.inr hround, Or.inl ⟨rfl, rfl, rfl⟩⟩
    | oversized | bad =>
      dsimp only
      rw [htcp, if_neg Bool.false_ne_true]
      exact ⟨⟨[], rfl⟩, fun _ => rfl, fun hopen => (nomatch hopen),
        Or.inl ⟨rfl, rfl, rfl⟩⟩
    | cut r rest =>
      dsimp only
      obtain ⟨-, -, hrest, hlength, -⟩ := roundOf_cut hround
      obtain ⟨hdelivered, htimer, hclosed⟩ := deliverTo_spec h s.cancelIncompleteTimer r
      have hnext := ih (b := rest) (s := s.cancelIncompleteTimer.deliverTo h r) (by omega)
      -- the round has used one frame, and the rest of the loop has used `taken`
      obtain ⟨taken, htaken⟩ := hnext.left
      refine ⟨⟨b.take (8 + r.2.length) ++ taken, ?_⟩, fun hs => hnext.closed (hclosed hs),
        hnext.waits, Or.inr ⟨r, rest, hround, ?_, ?_⟩⟩
      · rw [List.append_assoc, ← htaken, hrest, List.take_append_drop]
      · have hsplit := congrArg List.length htaken
        rw [List.length_append] at hsplit
        omega
      · -- whether or not another frame follows, this one has stopped the timer
        rcases hnext.first with ⟨-, hsame, htimer'⟩ | ⟨r', rest', -, -, htimer', recs, hrecs⟩
        · exact ⟨htimer'.trans htimer, [], hsame.trans hdelivered⟩
        · refine ⟨htimer', r' :: recs, ?_⟩
          rw [hrecs, hdelivered, List.append_assoc]
          rfl

/-- Bytes that wait are no whole frame: a frame that begins with them is longer. -/
theorem Waits.lt_of_cut {chunk rest : List UInt8} {r : Rec} (h : Waits c b)
    (hcut : roundOf c (b ++ chunk) = .cut r rest) : b.length < 8 + r.2.length := by
  obtain ⟨hheader, -, -, hlen, hlimit⟩ := roundOf_cut hcut
  rcases h with hdone | hmore
  · rw [roundOf_done.1 hdone, List.length_nil]
    omega
  · by_contra hge
    -- the header is in `b`, and so is the body
    have h8 : 8 ≤ b.length := by omega
    have htake : (b ++ chunk).take 8 = b.take 8 := List.take_append_of_le_length h8
    have htake4 : (b ++ chunk).take 4 = b.take 4 := List.take_append_of_le_length (by omega)
    simp only [BytesStream.headerOf, htake, htake4] at hheader
    have hsame : BytesStream.headerOf b = .ok r.1 r.2.length := by
      simp only [BytesStream.headerOf]
      split at hheader
      · cases hheader
      · split at hheader
        · cases hheader
        · split at hheader
          · cases hheader
          · injection hheader with hseq hsize
            rw [if_neg (by omega), if_neg (by assumption), if_neg (by omega), hseq, hsize]
    rw [roundOf] at hmore
    split at hmore
    · cases hmore
    · split at hmore
      · cases hmore
      · rw [hsame] at hmore
        cases hmore

end OpenIdea.Net
