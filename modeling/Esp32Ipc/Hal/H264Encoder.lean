import Esp32Ipc.Platform.Rtos
import Mathlib.Data.List.FinRange

/-!
# The hardware H.264 encoder

A V4L2 mem2mem device with one input slot, which holds a pointer into a capture buffer, and a few
bitstream buffers. Every ioctl may be refused; one that is refused leaves its queue as it was.
-/

namespace Esp32Ipc

variable {n m : Nat}

/-- A queued input: the capture buffer `userptr` points into, and the frame's length. -/
structure H264Input (n : Nat) where
  userptr : Fin n
  length : Nat
  deriving DecidableEq

/-- One encoded frame; `error` is `V4L2_BUF_FLAG_ERROR`. -/
structure H264Bitstream (m : Nat) where
  index : Fin m
  bytesused : Nat
  error : Bool
  deriving DecidableEq

/-- The encoder and its driver: the input slot and the bitstream buffers the driver owns. -/
structure H264 (n m : Nat) where
  input : Option (H264Input n)
  bitstreams : List (Fin m)
  noForceIdr : Bool
  deriving DecidableEq

/-- How the driver answers the ioctls of one `hal_h264_encode`. -/
structure H264Ioctls (m : Nat) where
  qbufInput : Bool
  dqbufBitstream : Option (H264Bitstream m)
  dqbufInput : Bool
  deriving DecidableEq

/-- What `hal_h264_open` leaves: the input slot free and every bitstream buffer queued. -/
def halH264Open (n m : Nat) : H264 n m := ⟨none,List.finRange m,false⟩

namespace H264

/-- `VIDIOC_QBUF` of input 0: `REQBUFS` gave one slot, so a second one is rejected. -/
def qbufInput (enc : H264 n m) (granted : Bool) (slot : H264Input n) : Bool × H264 n m :=
  if granted && enc.input.isNone then (true, { enc with input := some slot }) else (false, enc)

/-- `VIDIOC_DQBUF` of a bitstream; only a buffer that was queued can come back. -/
def dqbufBitstream (enc : H264 n m) :
    Option (H264Bitstream m) → Option (H264Bitstream m) × H264 n m
  | none => (none, enc)
  | some bits =>
    if bits.index ∈ enc.bitstreams then
      (some bits, { enc with bitstreams := enc.bitstreams.erase bits.index })
    else (none, enc)

/-- `VIDIOC_DQBUF` of the input slot. -/
def dqbufInput (enc : H264 n m) (granted : Bool) : Bool × H264 n m :=
  if granted && enc.input.isSome then (true, { enc with input := none }) else (false, enc)

end H264

/-- `hal_h264_release` whose `VIDIOC_QBUF` succeeds. -/
def halH264Release (enc : H264 n m) (out : H264Bitstream m) : H264 n m :=
  { enc with bitstreams := out.index :: enc.bitstreams }

def halH264Encode (enc : H264 n m) (yuv420 : Fin n) (len : Nat) (io : H264Ioctls m) :
    Except EspErr (H264Bitstream m) × H264 n m :=
  match enc.qbufInput io.qbufInput ⟨yuv420,len⟩ with
  | (false, enc) => (.error .fail, enc)
  | (true, enc) =>
    match enc.dqbufBitstream io.dqbufBitstream with
    -- the input slot is still queued; if it cannot be reclaimed that is only logged
    | (none, enc) => (.error .fail, (enc.dqbufInput io.dqbufInput).2)
    | (some out, enc) =>
      match enc.dqbufInput io.dqbufInput with
      | (false, enc) => (.error .fail, halH264Release enc out)
      | (true, enc) =>
        if out.error || out.bytesused == 0 then (.error .fail, halH264Release enc out)
        else (.ok out, enc)

/-- `hal_h264_force_idr`; `granted` answers the control, and the first refusal is latched. -/
def halH264ForceIdr (enc : H264 n m) (granted : Bool) : EspErr × H264 n m :=
  if enc.noForceIdr then (.notSupported, enc)
  else if granted then (.ok, enc)
  else (.fail, { enc with noForceIdr := true })

/-- The bitstream buffer an encode hands to its caller. -/
def encodedIndex : Except EspErr (H264Bitstream m) → List (Fin m)
  | .error _ => []
  | .ok out => [out.index]

variable {enc : H264 n m} {yuv420 : Fin n} {len : Nat} {io : H264Ioctls m}

@[simp] theorem halH264ForceIdr_input (enc : H264 n m) (granted : Bool) :
    (halH264ForceIdr enc granted).2.input = enc.input := by
  unfold halH264ForceIdr
  split
  · rfl
  · split <;> rfl

@[simp] theorem halH264ForceIdr_bitstreams (enc : H264 n m) (granted : Bool) :
    (halH264ForceIdr enc granted).2.bitstreams = enc.bitstreams := by
  unfold halH264ForceIdr
  split
  · rfl
  · split <;> rfl

@[simp] theorem halH264Release_input (enc : H264 n m) (out : H264Bitstream m) :
    (halH264Release enc out).input = enc.input := rfl

@[simp] theorem halH264Release_bitstreams (enc : H264 n m) (out : H264Bitstream m) :
    (halH264Release enc out).bitstreams = out.index :: enc.bitstreams := rfl

namespace H264

variable {enc' : H264 n m} {granted : Bool} {slot : H264Input n} {out : H264Bitstream m}
  {reply : Option (H264Bitstream m)}

theorem qbufInput_false (h : enc.qbufInput granted slot = (false,enc')) :
    enc' = enc ∧ (granted = false ∨ enc.input ≠ none) := by
  cases granted <;> cases hi : enc.input <;> simp_all [qbufInput]

theorem qbufInput_true (h : enc.qbufInput granted slot = (true,enc')) :
    granted = true ∧ enc' = { enc with input := some slot } := by
  cases granted <;> cases hi : enc.input <;> simp_all [qbufInput]

theorem dqbufBitstream_none (h : enc.dqbufBitstream reply = (none,enc')) : enc' = enc := by
  cases reply with
  | none => simpa [dqbufBitstream] using h.symm
  | some bits =>
    by_cases hbits : bits.index ∈ enc.bitstreams
    · simp [dqbufBitstream,hbits] at h
    · simpa [dqbufBitstream,hbits] using h.symm

theorem dqbufBitstream_some (h : enc.dqbufBitstream reply = (some out,enc')) :
    out.index ∈ enc.bitstreams ∧
      enc' = { enc with bitstreams := enc.bitstreams.erase out.index } := by
  cases reply with
  | none => simp [dqbufBitstream] at h
  | some bits =>
    by_cases hbits : bits.index ∈ enc.bitstreams
    · simp only [dqbufBitstream,if_pos hbits,Prod.mk.injEq,Option.some.injEq] at h
      obtain ⟨rfl,rfl⟩ := h
      exact ⟨hbits,rfl⟩
    · simp [dqbufBitstream,hbits] at h

theorem dqbufInput_queued (h : enc.input = some slot) :
    enc.dqbufInput granted = (granted,if granted then { enc with input := none } else enc) := by
  cases granted <;> simp [dqbufInput,h]

end H264

/-- The five ways out of `hal_h264_encode`. -/
inductive H264Exit (enc : H264 n m) (slot : H264Input n) (io : H264Ioctls m) :
    Except EspErr (H264Bitstream m) × H264 n m → Prop where
  | notQueued (h : io.qbufInput = false ∨ enc.input ≠ none) :
      H264Exit enc slot io (.error .fail,enc)
  | noBitstream (hq : io.qbufInput = true) :
      H264Exit enc slot io (.error .fail,
        { enc with input := if io.dqbufInput then none else some slot })
  | inputStuck (out : H264Bitstream m) (hq : io.qbufInput = true) (hdq : io.dqbufInput = false)
      (hout : out.index ∈ enc.bitstreams) :
      H264Exit enc slot io (.error .fail,
        { enc with input := some slot, bitstreams := out.index :: enc.bitstreams.erase out.index })
  | badFrame (out : H264Bitstream m) (hdq : io.dqbufInput = true)
      (hout : out.index ∈ enc.bitstreams) :
      H264Exit enc slot io (.error .fail,
        { enc with input := none, bitstreams := out.index :: enc.bitstreams.erase out.index })
  | encoded (out : H264Bitstream m) (hdq : io.dqbufInput = true)
      (hout : out.index ∈ enc.bitstreams) :
      H264Exit enc slot io (.ok out,
        { enc with input := none, bitstreams := enc.bitstreams.erase out.index })

theorem halH264Encode_exit (enc : H264 n m) (yuv420 : Fin n) (len : Nat) (io : H264Ioctls m) :
    H264Exit enc ⟨yuv420,len⟩ io (halH264Encode enc yuv420 len io) := by
  unfold halH264Encode
  split
  next enc₁ hq =>
    obtain ⟨rfl,h⟩ := H264.qbufInput_false hq
    exact .notQueued h
  next enc₁ hq =>
    obtain ⟨hgranted,rfl⟩ := H264.qbufInput_true hq
    split
    next enc₂ hdq =>
      obtain rfl := H264.dqbufBitstream_none hdq
      rw [H264.dqbufInput_queued rfl]
      have hexit : H264Exit enc ⟨yuv420,len⟩ io _ := .noBitstream hgranted
      cases hin : io.dqbufInput <;> simpa [hin] using hexit
    next out enc₂ hdq =>
      obtain ⟨hout,rfl⟩ := H264.dqbufBitstream_some hdq
      rw [H264.dqbufInput_queued rfl]
      cases hin : io.dqbufInput with
      | false => exact .inputStuck out hgranted hin hout
      | true =>
        dsimp only [if_true]
        split
        · exact .badFrame out hin hout
        · exact .encoded out hin hout

/-- Whatever fails, no bitstream buffer is lost or handed out twice. -/
theorem halH264Encode_bitstreams :
    (encodedIndex (halH264Encode enc yuv420 len io).1 ++
      (halH264Encode enc yuv420 len io).2.bitstreams).Perm enc.bitstreams := by
  have hexit := halH264Encode_exit enc yuv420 len io
  generalize halH264Encode enc yuv420 len io = result at hexit ⊢
  cases hexit with
  | notQueued h => exact List.Perm.refl _
  | noBitstream hq => exact List.Perm.refl _
  | inputStuck out hq hdq hout => exact (List.perm_cons_erase hout).symm
  | badFrame out hdq hout => exact (List.perm_cons_erase hout).symm
  | encoded out hdq hout => exact (List.perm_cons_erase hout).symm

theorem halH264Encode_refused (htaken : enc.input.isSome = true) :
    halH264Encode enc yuv420 len io = (.error .fail,enc) := by
  have hq : enc.qbufInput io.qbufInput ⟨yuv420,len⟩ = (false,enc) := by
    cases hinput : enc.input with
    | none => simp [hinput] at htaken
    | some slot => simp [H264.qbufInput,hinput]
  rw [halH264Encode,hq]

/-- Starting from a free slot, the frame stays queued exactly when it was queued and could not be
dequeued again; the error code does not tell. -/
theorem halH264Encode_input (hempty : enc.input = none) :
    (halH264Encode enc yuv420 len io).2.input =
      if io.qbufInput = true ∧ io.dqbufInput = false then some ⟨yuv420,len⟩ else none := by
  have hexit := halH264Encode_exit enc yuv420 len io
  generalize halH264Encode enc yuv420 len io = result at hexit ⊢
  cases hexit with
  | notQueued h =>
    rcases h with h | h
    · simp [h,hempty]
    · exact absurd hempty h
  | noBitstream hq => cases io.dqbufInput <;> simp [hq]
  | inputStuck out hq hdq hout => simp [hq,hdq]
  | badFrame out hdq hout => simp [hdq]
  | encoded out hdq hout => simp [hdq]

end Esp32Ipc
