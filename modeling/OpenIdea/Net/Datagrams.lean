import OpenIdea.Net.FrameRounds

/-!
# The datagrams of one peer (oi_udp_channel.cpp, oi_rpc_session.cpp)

`UDP_Channel::DataIn` copies each datagram and hands it to its peer's session. The session cuts the
frames out of it in the same loop as from a stream, but neither waits for the rest of a frame nor is
closed for a bad one (`m_bDatagram`).

What is delivered is described without the loop: the frames at the front of the bytes, up to a rest
that begins with none (`MaximalFrames`). Datagrams are independent of each other exactly where each
fits the receive limit (`datagrams_independent_iff`); one that does not closes the session
(`large_datagram_closes`).
-/

set_option autoImplicit false

namespace OpenIdea.Net.Datagrams

open OpenIdea.Lib OpenIdea.Codec

/-- `SwapInBuff` with a datagram, of a session whose buffer may have bytes. -/
def swapInBuff (c : Limits) (now : Nat) (s : ProtoSession) (packet : List UInt8) :
    Except Fault ProtoSession :=
  if s.receiveAllowance c < packet.length then .ok (s.passiveClose .enobufs)
  else { s with input := s.input ++ packet }.onDataIn c now

/-- The datagrams of a peer, each with the time at which it is received. -/
def receive (c : Limits) : ProtoSession → List (Nat × List UInt8) → Except Fault ProtoSession
  | s, [] => .ok s
  | s, (now, packet) :: packets => do
      let s ← swapInBuff c now s packet
      receive c s packets

/-! ## The frames of a datagram -/

/-- A frame within the limits. -/
def FrameOk (c : Limits) (r : Rec) : Prop := r.1 < 2 ^ 31 ∧ r.2.length ≤ c.frame

/-- **The frames at the front of the bytes**, as many as there are. -/
structure MaximalFrames (c : Limits) (b : List UInt8) (recs : List Rec) : Prop where
  ok : ∀ r ∈ recs, FrameOk c r
  split : ∃ rest, b = frame recs ++ rest ∧ ∀ r more, FrameOk c r → rest ≠ frame [r] ++ more

variable {c : Limits}

/-- A round of the loop takes a frame off where there is one. -/
theorem roundOf_frame {r : Rec} (hc : c.Accepted) (hr : FrameOk c r) (more : List UInt8) :
    roundOf c (frame [r] ++ more) = .cut r more := by
  obtain ⟨hid, hlen⟩ := hr
  have hsize : r.2.length < 2 ^ 31 := by
    have hlimit := hc.2.1
    omega
  have hframe : frame [r] =
      LittleEndian.encode 4 r.1 ++ LittleEndian.encode 4 r.2.length ++ r.2 := by
    rw [frame_cons, frame_nil, List.append_nil]
  -- the two numbers of the header, and what is behind it
  have hhead : LittleEndian.decode ((frame [r] ++ more).take 4) = r.1 := by
    rw [hframe, List.append_assoc, List.append_assoc,
      List.take_left' (LittleEndian.encode_length 4 r.1)]
    exact LittleEndian.decode_encode (by omega)
  have htake8 : ((frame [r] ++ more).take 8).drop 4 = LittleEndian.encode 4 r.2.length := by
    rw [hframe, List.append_assoc, List.take_left' (by simp),
      List.drop_left' (LittleEndian.encode_length 4 r.1)]
  have hdeclared : LittleEndian.decode (((frame [r] ++ more).take 8).drop 4) = r.2.length := by
    rw [htake8]
    exact LittleEndian.decode_encode (by omega)
  have hdrop : (frame [r] ++ more).drop 8 = r.2 ++ more := by
    rw [hframe, List.append_assoc, List.drop_left' (by simp)]
  have htotal : (frame [r] ++ more).length = 8 + r.2.length + more.length := by
    rw [List.length_append, frame_single_length]
  have hheader : BytesStream.headerOf (frame [r] ++ more) = .ok r.1 r.2.length := by
    simp only [BytesStream.headerOf, hhead, hdeclared]
    rw [if_neg (by omega), if_neg (by omega), if_neg (by omega)]
  have hne : frame [r] ++ more ≠ [] := by
    intro hnil
    rw [hnil, List.length_nil] at htotal
    omega
  rw [roundOf, if_neg hne, if_neg (by omega), hheader]
  dsimp only
  rw [← List.drop_drop, hdrop, List.take_left' rfl, List.drop_left' rfl]

/-- What a round takes off is a frame. -/
theorem frame_of_cut {b rest : List UInt8} {r : Rec} (h : roundOf c b = .cut r rest) :
    FrameOk c r ∧ b = frame [r] ++ rest := by
  obtain ⟨hheader, hbody, hrest, hlen, hlimit⟩ := roundOf_cut h
  obtain ⟨hseq, hsize⟩ : LittleEndian.decode (b.take 4) = r.1 ∧
      LittleEndian.decode ((b.take 8).drop 4) = r.2.length := by
    simp only [BytesStream.headerOf] at hheader
    split at hheader
    · cases hheader
    · split at hheader
      · cases hheader
      · split at hheader
        · cases hheader
        · injection hheader with hseq hsize
          exact ⟨hseq, hsize⟩
  have hid : r.1 < 2 ^ 31 := (BytesStream.headerOf_ok hheader).1
  refine ⟨⟨hid, hlimit⟩, ?_⟩
  -- the header is the first eight bytes, written again
  have h4 : (b.take 4).length = 4 := by
    rw [List.length_take]
    omega
  have h44 : ((b.take 8).drop 4).length = 4 := by
    rw [List.length_drop, List.length_take]
    omega
  have hfirst : LittleEndian.encode 4 r.1 = b.take 4 := by
    have hround := LittleEndian.encode_decode (b.take 4)
    rwa [h4, hseq] at hround
  have hsecond : LittleEndian.encode 4 r.2.length = (b.take 8).drop 4 := by
    have hround := LittleEndian.encode_decode ((b.take 8).drop 4)
    rwa [h44, hsize] at hround
  have hpair : b.take 4 ++ (b.take 8).drop 4 = b.take 8 := by
    have hsplit := List.take_append_drop 4 (b.take 8)
    rwa [List.take_take] at hsplit
  rw [frame_cons, frame_nil, List.append_nil, hfirst, hsecond, hpair, hrest, ← List.drop_drop,
    List.append_assoc]
  conv_lhs => rw [← List.take_append_drop 8 b, ← List.take_append_drop r.2.length (b.drop 8)]
  rw [← hbody]

/-- There is one way to cut the bytes. -/
theorem MaximalFrames.unique (hc : c.Accepted) {recs : List Rec} :
    ∀ {b : List UInt8} {recs' : List Rec}, MaximalFrames c b recs → MaximalFrames c b recs' →
      recs' = recs := by
  induction recs with
  | nil =>
    rintro b recs' ⟨-, rest, hb, hnone⟩ ⟨hok', rest', hb', -⟩
    cases recs' with
    | nil => rfl
    | cons r recs' =>
      exfalso
      refine hnone r (frame recs' ++ rest') (hok' r List.mem_cons_self) ?_
      have hsplit : frame (r :: recs') = frame [r] ++ frame recs' := frame_append [r] recs'
      rw [← List.append_assoc, ← hsplit, ← hb', hb]
      rfl
  | cons r recs ih =>
    rintro b recs' ⟨hok, rest, hb, hnone⟩ ⟨hok', rest', hb', hnone'⟩
    have hsplit : frame (r :: recs) = frame [r] ++ frame recs := frame_append [r] recs
    rw [hsplit, List.append_assoc] at hb
    cases recs' with
    | nil =>
      exfalso
      refine hnone' r (frame recs ++ rest) (hok r List.mem_cons_self) ?_
      rw [← hb, hb']
      rfl
    | cons r' recs' =>
      have hsplit' : frame (r' :: recs') = frame [r'] ++ frame recs' := frame_append [r'] recs'
      rw [hsplit', List.append_assoc] at hb'
      -- the first frames are what the first round of the loop finds
      have hcut := roundOf_frame hc (hok r List.mem_cons_self) (frame recs ++ rest)
      have hcut' := roundOf_frame hc (hok' r' List.mem_cons_self) (frame recs' ++ rest')
      rw [← hb] at hcut
      rw [← hb', hcut] at hcut'
      obtain ⟨rfl, hrest⟩ := Round.cut.inj hcut'
      have hmax : MaximalFrames c (frame recs ++ rest) recs :=
        ⟨fun x hx => hok x (List.mem_cons_of_mem _ hx), rest, rfl, hnone⟩
      have hmax' : MaximalFrames c (frame recs ++ rest) recs' :=
        ⟨fun x hx => hok' x (List.mem_cons_of_mem _ hx), rest', hrest, hnone'⟩
      rw [ih hmax hmax']

/-! ## What a session does with a datagram -/

/-- The loop over a datagram: it delivers the frames and closes nothing, wherever it ends. -/
theorem cutLoop_datagram (hc : c.Accepted) (hudp : c.datagram = true) {rounds : Nat} :
    ∀ {b : List UInt8} {s : ProtoSession}, b.length ≤ rounds →
      (cutLoop (fun _ _ => none) c rounds b s).2.closed = s.closed ∧
        ∃ recs, MaximalFrames c b recs ∧
          (cutLoop (fun _ _ => none) c rounds b s).2.delivered = s.delivered ++ recs := by
  -- bytes that a round takes nothing off begin with no frame
  have hstop : ∀ {b : List UInt8}, (∀ r rest, roundOf c b ≠ .cut r rest) →
      MaximalFrames c b [] := by
    intro b hround
    refine ⟨fun r hr => (nomatch hr), b, rfl, ?_⟩
    rintro r more hr rfl
    exact hround r more (roundOf_frame hc hr more)
  induction rounds with
  | zero =>
    intro b s hlen
    have hnil : b = [] := List.length_eq_zero_iff.1 (Nat.le_zero.1 hlen)
    subst hnil
    refine ⟨rfl, [], hstop ?_, (List.append_nil _).symm⟩
    intro r rest hround
    rw [roundOf_done.2 rfl] at hround
    cases hround
  | succ rounds ih =>
    intro b s hlen
    rw [cutLoop]
    cases hround : roundOf c b with
    | done | needMore =>
      exact ⟨rfl, [], hstop (by simp [hround]), (List.append_nil _).symm⟩
    | oversized | bad =>
      dsimp only
      rw [if_pos hudp]
      exact ⟨rfl, [], hstop (by simp [hround]), (List.append_nil _).symm⟩
    | cut r rest =>
      dsimp only
      obtain ⟨-, -, -, htotal, -⟩ := roundOf_cut hround
      obtain ⟨hr, hb⟩ := frame_of_cut hround
      obtain ⟨hclosed, recs, ⟨hok, tail, hsplit, hnone⟩, hdelivered⟩ :=
        ih (b := rest)
          (s := s.cancelIncompleteTimer.deliverTo (fun _ _ => none) r) (by omega)
      refine ⟨hclosed, r :: recs, ⟨?_, tail, ?_, hnone⟩, ?_⟩
      · intro x hx
        rcases List.mem_cons.1 hx with rfl | hx
        · exact hr
        · exact hok x hx
      · have hcons : frame (r :: recs) = frame [r] ++ frame recs := frame_append [r] recs
        rw [hcons, List.append_assoc, ← hsplit]
        exact hb
      · rw [hdelivered]
        show s.delivered ++ [r] ++ recs = s.delivered ++ r :: recs
        rw [List.append_assoc]
        rfl

/-- **A datagram has had its effect**: its frames have been delivered, whatever came before it, no
byte of it is left, and the session is open. -/
structure Processed (c : Limits) (packet : List UInt8) (s s' : ProtoSession) : Prop where
  delivered : ∃ recs, MaximalFrames c packet recs ∧
    (∀ recs', MaximalFrames c packet recs' → recs' = recs) ∧
    s'.delivered = s.delivered ++ recs
  emptied : s'.input = []
  isOpen : s'.closed = none

/-- A datagram that fits is processed. -/
theorem swapInBuff_processed (hc : c.Accepted) (hudp : c.datagram = true) (now : Nat)
    {s : ProtoSession} {packet : List UInt8} (hempty : s.input = []) (hopen : s.closed = none)
    (hfits : packet.length ≤ c.receive) :
    ∃ s', swapInBuff c now s packet = .ok s' ∧ Processed c packet s s' := by
  have hlimit : c.receive < 2 ^ 63 := hc.2.2.2
  have hroom : ¬ s.receiveAllowance c < packet.length := by
    have hpos : 0 < c.receive := by
      have hframe := hc.2.2.1
      omega
    rw [ProtoSession.receiveAllowance, hempty, List.length_nil, if_pos hpos]
    omega
  obtain ⟨hclosed, recs, hmax, hdelivered⟩ :=
    cutLoop_datagram hc hudp (Nat.le_refl packet.length) (s := { s with input := [] })
  have hdata := onDataInWith_eq (fun _ _ => none) c now true (s := { s with input := packet })
    (show packet.length < 2 ^ 64 by omega)
  rw [ProtoSession.onDataInWith_none] at hdata
  simp only [hudp, if_true] at hdata
  rw [swapInBuff, if_neg hroom, hempty, List.nil_append, hdata]
  exact ⟨_, rfl, ⟨recs, hmax, fun _ hother => hmax.unique hc hother, hdelivered⟩, rfl,
    hclosed.trans hopen⟩

/-- A datagram that does not fit closes the session. -/
theorem swapInBuff_oversized (now : Nat) {s : ProtoSession} {packet : List UInt8}
    (hempty : s.input = []) (hlong : c.receive < packet.length) :
    swapInBuff c now s packet = .ok (s.passiveClose .enobufs) := by
  have hroom : s.receiveAllowance c < packet.length := by
    rw [ProtoSession.receiveAllowance, hempty, List.length_nil]
    split <;> omega
  rw [swapInBuff, if_pos hroom]

/-- **Datagrams are independent**: every one of the sequence is processed. -/
def Independent (c : Limits) : ProtoSession → List (Nat × List UInt8) → Prop
  | _, [] => True
  | s, (now, packet) :: packets =>
      ∃ s', swapInBuff c now s packet = .ok s' ∧ Processed c packet s s' ∧
        Independent c s' packets

theorem independent_of_fits (hc : c.Accepted) (hudp : c.datagram = true)
    {packets : List (Nat × List UInt8)} :
    ∀ {s : ProtoSession}, s.input = [] → s.closed = none →
      (Independent c s packets ↔ ∀ p ∈ packets, p.2.length ≤ c.receive) := by
  induction packets with
  | nil => exact fun _ _ => ⟨fun _ p hp => (nomatch hp), fun _ => trivial⟩
  | cons p packets ih =>
    obtain ⟨now, packet⟩ := p
    intro s hempty hopen
    rw [List.forall_mem_cons]
    constructor
    · rintro ⟨s', hswap, hdone, hnext⟩
      refine ⟨?_, (ih hdone.emptied hdone.isOpen).1 hnext⟩
      by_contra hlong
      -- the session would be closed
      rw [swapInBuff_oversized now hempty (Nat.lt_of_not_le hlong)] at hswap
      injection hswap with hclosed
      have hstill := hdone.isOpen
      rw [← hclosed] at hstill
      cases hstill
    · rintro ⟨hfits, hrest⟩
      obtain ⟨s', hswap, hdone⟩ := swapInBuff_processed hc hudp now hempty hopen hfits
      exact ⟨s', hswap, hdone, (ih hdone.emptied hdone.isOpen).2 hrest⟩

/-- **The datagrams of a peer are independent when each fits into the receive limit**, and otherwise
they are not: the first one that does not closes the session. -/
theorem datagrams_independent_iff {c : Limits} (hc : c.Accepted) (hudp : c.datagram = true)
    {packets : List (Nat × List UInt8)} :
    Independent c {} packets ↔ ∀ p ∈ packets, p.2.length ≤ c.receive :=
  independent_of_fits hc hudp rfl rfl

/-- Limits of 16 bytes and of 8, which `Init` accepts. -/
def smallLimits : Limits := ⟨16, 8, true⟩

/-- A datagram of 16 bytes with one frame, and one of bytes that are no header. -/
theorem datagrams_independent_small :
    smallLimits.Accepted ∧ smallLimits.datagram = true ∧
      Independent smallLimits {} [(0, frame [(3, [1, 2, 3, 4])]), (1, List.replicate 16 255)] :=
  have hc : smallLimits.Accepted := by decide
  ⟨hc, rfl, (datagrams_independent_iff hc rfl).2 (by decide)⟩

/-- What `UDP_Channel::DataIn` hands on: a datagram is not empty and has at most 64 KiB. -/
def IsDatagram (packet : List UInt8) : Prop := 0 < packet.length ∧ packet.length ≤ 64 * 1024

/-- A datagram of 17 bytes closes the session. -/
theorem large_datagram_closes :
    ¬ ∀ (c : Limits) (packets : List (Nat × List UInt8)), c.Accepted → c.datagram = true →
      (∀ p ∈ packets, IsDatagram p.2) → Independent c {} packets := by
  intro hall
  obtain ⟨s', hswap, hdone, -⟩ := hall smallLimits [(0, List.replicate 17 0)] (by decide) rfl
    (by unfold IsDatagram; decide)
  rw [swapInBuff_oversized 0 rfl (by decide)] at hswap
  injection hswap with hclosed
  have hstill := hdone.isOpen
  rw [← hclosed] at hstill
  cases hstill

end OpenIdea.Net.Datagrams
