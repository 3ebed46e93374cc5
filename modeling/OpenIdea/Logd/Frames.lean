import OpenIdea.Lib.LittleEndian
import OpenIdea.Lib.StreamParser

/-!
# Log frames

The frames between a process and `logd` (`oi_log_frame.h`): `uint32 payload_len | uint8 level` and
`payload_len - 1` bytes of text, little-endian.  `nextFrame` is what the loop of
`LogServerSession::OnDataIn` makes of the bytes in front of it.  `logFrames` says that it inverts
`AppendLogFrame` on every stream of frames within `LOG_FRAME_MAX`.  A frame is read back whatever
follows it (`nextFrame_encode`), and a part of a frame is waited for (`nextFrame_part`).
-/

set_option autoImplicit false

namespace OpenIdea.Logd

open OpenIdea.Lib

/-! ## The format -/

/-- `LOG_FRAME_HEAD`. -/
def logFrameHead : Nat := 4

/-- `LOG_FRAME_MAX`. -/
def logFrameMax : Nat := 8 * 1024 * 1024

/-- `AppendLogFrame` to an empty buffer; the level is cut to a byte by the caller. -/
def appendLogFrame (level : UInt8) (text : List UInt8) : List UInt8 :=
  LittleEndian.encode logFrameHead (1 + text.length) ++ level :: text

/-- `ReadLogFrameLen`. -/
def readLogFrameLen (bytes : List UInt8) : Nat := LittleEndian.decode (bytes.take logFrameHead)

/-- A frame within the limit. -/
structure LogFrame where
  level : UInt8
  text : List UInt8
  fits : 1 + text.length ≤ logFrameMax
  deriving DecidableEq

namespace LogFrame

/-- `LOG_FRAME_HEAD + iPayload`. -/
def size (f : LogFrame) : Nat := logFrameHead + (1 + f.text.length)

theorem size_pos (f : LogFrame) : 0 < f.size := by
  rw [size]
  omega

/-- The bytes of a frame. -/
def encode (f : LogFrame) : List UInt8 := appendLogFrame f.level f.text

@[simp] theorem length_encode (f : LogFrame) : f.encode.length = f.size := by
  simp only [encode, appendLogFrame, size, List.length_append, LittleEndian.encode_length,
    List.length_cons]
  omega

end LogFrame

/-! ## Reading the front of the buffer -/

/-- One look of `OnDataIn` at the bytes it has not used: not a whole frame yet, a length that no
frame has, or the first frame. -/
def nextFrame (bytes : List UInt8) : Parsed UInt8 LogFrame :=
  if bytes.length < logFrameHead then .more
  else
    let iPayload := readLogFrameLen bytes
    if iPayload < 1 then .error
    else if h : logFrameMax < iPayload then .error
    else if bytes.length < logFrameHead + iPayload then .more
    else
      .message
        { level := bytes.getD logFrameHead 0
          text := (bytes.drop (logFrameHead + 1)).take (iPayload - 1)
          fits := by
            have hlen := List.length_take_le (iPayload - 1) (bytes.drop (logFrameHead + 1))
            simp only [logFrameMax] at h ⊢
            omega }
        (bytes.drop (logFrameHead + iPayload))

theorem nextFrame_nil : nextFrame [] = .more := rfl

/-- The length field of a frame reads back, whatever part of the frame follows it. -/
theorem readLogFrameLen_frame (f : LogFrame) (rest : List UInt8) :
    readLogFrameLen (LittleEndian.encode logFrameHead (1 + f.text.length) ++ rest) =
      1 + f.text.length := by
  have hfits := f.fits
  rw [readLogFrameLen, List.take_left' (LittleEndian.encode_length _ _)]
  apply LittleEndian.decode_encode
  simp only [logFrameMax, logFrameHead] at hfits ⊢
  omega

/-- **A whole frame is recognised, whatever follows it.** -/
theorem nextFrame_encode (f : LogFrame) (rest : List UInt8) :
    nextFrame (f.encode ++ rest) = .message f rest := by
  have hlen : readLogFrameLen (f.encode ++ rest) = 1 + f.text.length := by
    rw [LogFrame.encode, appendLogFrame, List.append_assoc]
    exact readLogFrameLen_frame f _
  have hsize : (f.encode ++ rest).length = f.size + rest.length := by
    rw [List.length_append, f.length_encode]
  have hfits := f.fits
  -- neither of the two checks of the size asks for more
  have h₁ : ¬ (f.encode ++ rest).length < logFrameHead := by
    rw [hsize, LogFrame.size]
    omega
  have h₂ : ¬ (f.encode ++ rest).length < logFrameHead + (1 + f.text.length) := by
    rw [hsize, LogFrame.size]
    omega
  have hlevel : (f.encode ++ rest).getD logFrameHead 0 = f.level := by
    simp [LogFrame.encode, appendLogFrame, List.getD_eq_getElem?_getD]
  have htext : ((f.encode ++ rest).drop (logFrameHead + 1)).take (1 + f.text.length - 1) =
      f.text := by
    have hdrop : (LittleEndian.encode logFrameHead (1 + f.text.length)).drop (logFrameHead + 1) =
        [] := List.drop_eq_nil_of_le (by simp)
    simp [LogFrame.encode, appendLogFrame, List.drop_append, hdrop]
  have hrest : (f.encode ++ rest).drop (logFrameHead + (1 + f.text.length)) = rest := by
    exact List.drop_left' f.length_encode
  rw [nextFrame, if_neg h₁]
  simp only [hlen]
  rw [if_neg (by omega), dif_neg (by omega), if_neg h₂]
  simp only [hlevel, htext, hrest]

/-- A part of a frame asks for more. -/
theorem nextFrame_part (f : LogFrame) (pre suf : List UInt8) (h : f.encode = pre ++ suf)
    (hsuf : suf ≠ []) : nextFrame pre = .more := by
  have hfits := f.fits
  have hlt : pre.length < f.size := by
    have hlen := congrArg List.length h
    rw [f.length_encode, List.length_append] at hlen
    have hpos := List.length_pos_iff.2 hsuf
    omega
  by_cases hhead : pre.length < logFrameHead
  · rw [nextFrame, if_pos hhead]
  · -- the whole length field is there
    have hread : readLogFrameLen pre = 1 + f.text.length := by
      have htake : pre.take logFrameHead = f.encode.take logFrameHead := by
        rw [h, List.take_append_of_le_length (by omega)]
      have hfull := readLogFrameLen_frame f (f.level :: f.text)
      rw [readLogFrameLen] at hfull ⊢
      rw [htake]
      exact hfull
    rw [nextFrame, if_neg hhead]
    simp only [hread]
    rw [LogFrame.size] at hlt
    rw [if_neg (by omega), dif_neg (by omega), if_pos hlt]

/-- **`OnDataIn` reads what `AppendLogFrame` wrote.** -/
def logFrames : StreamParser UInt8 LogFrame where
  parse := nextFrame
  encode := LogFrame.encode
  parse_nil := nextFrame_nil
  parse_encode := nextFrame_encode
  parse_part := nextFrame_part

/-- What follows a frame is what its size leaves. -/
theorem nextFrame_rest {bytes rest : List UInt8} {f : LogFrame}
    (h : nextFrame bytes = .message f rest) :
    rest = bytes.drop f.size ∧ f.size ≤ bytes.length := by
  rw [nextFrame] at h
  dsimp only at h
  split_ifs at h with h₁ h₂ h₃ h₄
  have hf := (Parsed.message.inj h).1
  have htext : f.text.length = readLogFrameLen bytes - 1 := by
    rw [← hf]
    simp only [List.length_take, List.length_drop]
    omega
  have hsize : f.size = logFrameHead + readLogFrameLen bytes := by
    rw [LogFrame.size, htext]
    omega
  rw [hsize]
  exact ⟨(Parsed.message.inj h).2.symm, by omega⟩

/-- More bytes behind a frame do not change it. -/
theorem nextFrame_append {bytes rest : List UInt8} {f : LogFrame}
    (h : nextFrame bytes = .message f rest) (more : List UInt8) :
    nextFrame (bytes ++ more) = .message f (rest ++ more) := by
  rw [nextFrame] at h
  dsimp only at h
  split_ifs at h with h₁ h₂ h₃ h₄
  have hread : readLogFrameLen (bytes ++ more) = readLogFrameLen bytes := by
    rw [readLogFrameLen, readLogFrameLen, List.take_append_of_le_length (by omega)]
  have hlen : (bytes ++ more).length = bytes.length + more.length := List.length_append
  rw [nextFrame, if_neg (by omega)]
  dsimp only
  rw [if_neg (by omega), dif_neg (by omega), if_neg (by omega)]
  obtain ⟨hf, hrest⟩ := Parsed.message.inj h
  congr 1
  · rw [← hf]
    congr 1
    · rw [List.getD_eq_getElem?_getD, List.getD_eq_getElem?_getD,
        List.getElem?_append_left (by omega)]
    · rw [hread, List.drop_append_of_le_length (by omega), List.take_append_of_le_length]
      rw [List.length_drop]
      omega
  · rw [← hrest, hread, List.drop_append_of_le_length (by omega)]

/-! ## Levels -/

/-- `LOG_LEVEL`. -/
inductive LogLevel
  | trace
  | debug
  | info
  | warning
  | error
  deriving DecidableEq, Repr

namespace LogLevel

/-- All levels, in the order of `LogFileMap`. -/
def all : List LogLevel := [.trace, .debug, .info, .warning, .error]

/-- The level of a number; there is none from `LOG_LEVEL_COUNT` on. -/
def ofNat? : Nat → Option LogLevel
  | 0 => some .trace
  | 1 => some .debug
  | 2 => some .info
  | 3 => some .warning
  | 4 => some .error
  | _ => none

theorem mem_all (l : LogLevel) : l ∈ all := by
  cases l <;> decide

end LogLevel

/-- The level a frame names, if it is one. -/
def LogFrame.logLevel (f : LogFrame) : Option LogLevel := LogLevel.ofNat? f.level.toNat

end OpenIdea.Logd
