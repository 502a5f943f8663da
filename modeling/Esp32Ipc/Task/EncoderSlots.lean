import Esp32Ipc.Task.VideoBuffers

/-!
# The encoder between two frames

`hal_h264_encode` gives every bitstream buffer back or hands it to its caller, whichever ioctl
fails. Its input slot is free again only if the frame could be dequeued from it; otherwise the frame
stays with the encoder while `video_encode_task` releases it to the camera.
-/

namespace Esp32Ipc

open Framework

variable {n m : Nat}

namespace VideoTasks

variable {s t : VideoTasks n m} {event : VideoEvent n m}

/-- `hal_h264_encode` starts with the input slot free and every bitstream buffer with the driver. -/
def SlotsRestored (s : VideoTasks n m) : Prop :=
  ∀ frame, s.encode = .encode frame →
    s.enc.input = none ∧ s.enc.bitstreams.Perm (List.finRange m)

/-- No buffer about to go to `hal_vcap_release` is queued in the encoder's input slot. -/
def NoSharedFrame (s : VideoTasks n m) : Prop :=
  ∀ b slot, s.capture.releasing = some b ∨ s.encode.releasing = some b →
    s.enc.input = some slot → slot.userptr ≠ b

/-- An input that was queued is dequeued by the same `hal_h264_encode`. -/
def InputReclaimed : VideoTasks n m × VideoEvent n m → Prop
  | (_, .encode io) => io.qbufInput = true → io.dqbufInput = true
  | _ => True

private theorem input_effect (h : VideoEffect s event t) (hother : ∀ io, event ≠ .encode io) :
    t.enc.input = s.enc.input := by
  cases h with
  | keyframe frame requested granted he => cases requested <;> simp
  | encoded frame io he => exact absurd rfl (hother io)
  | bitsReleased bits he => exact halH264Release_input s.enc bits
  | _ => rfl

private theorem input_reclaimed (h : VideoEffect s event t) (hfree : s.enc.input = none)
    (hgood : InputReclaimed (s,event)) : t.enc.input = none := by
  by_cases hencode : ∃ io, event = .encode io
  · obtain ⟨io,rfl⟩ := hencode
    cases h with
    | encoded frame io he =>
      rw [halH264Encode_input hfree,if_neg]
      intro ⟨hq,hdq⟩
      have hreclaimed : io.dqbufInput = true := hgood hq
      rw [hdq] at hreclaimed
      exact absurd hreclaimed (by decide)
  · push Not at hencode
    rw [input_effect h hencode,hfree]

private theorem input_stuck (h : VideoEffect s event t) (hfree : s.enc.input = none)
    (hbad : ¬InputReclaimed (s,event)) : ¬t.NoSharedFrame := by
  cases h with
  | encoded frame io he =>
    have hstuck : io.qbufInput = true ∧ io.dqbufInput = false := by
      simpa [InputReclaimed] using hbad
    intro hshared
    apply hshared frame.index ⟨frame.index,frame.bytesused⟩ (.inr rfl)
    · rw [halH264Encode_input hfree,if_pos hstuck]
    · rfl
  | _ => exact absurd trivial hbad

private theorem restored_of_free (hs : s.Inv) (hfree : s.enc.input = none) :
    s.SlotsRestored ∧ s.NoSharedFrame := by
  constructor
  · intro frame he
    have hbits := hs.bitstreams
    rw [he] at hbits
    exact ⟨hfree,hbits⟩
  · intro b slot _ hslot
    rw [hfree] at hslot
    exact absurd hslot (by simp)

/-- Every encode finds the input slot free and all bitstream buffers with the driver, and no frame
goes back to the camera while the encoder has it queued, exactly when every input that is queued
can also be dequeued again. -/
theorem encoderRestored_iff (width height : Nat) (events : List (VideoEvent n m))
    (s : VideoTasks n m) (hrun : runEvents videoStep (start n m width height) events = some s) :
    Along videoStep (fun s => s.SlotsRestored ∧ s.NoSharedFrame) (start n m width height) events ↔
      ∀ moment ∈ moments videoStep (start n m width height) events, InputReclaimed moment := by
  refine along_iff_moments (fun s => s.enc.input = none) Inv.step ?_ ?_ ?_
    (Inv.start width height) rfl hrun
  · intro s hs hfree
    exact restored_of_free hs hfree
  · intro s event t _ hfree hstep hgood
    exact input_reclaimed (videoStep_effect hstep) hfree hgood
  · intro s event t _ hfree hstep hbad hsafe
    exact input_stuck (videoStep_effect hstep) hfree hbad hsafe.2

/-- Buffer `b` is encoded but cannot be dequeued, goes back to the camera all the same, and buffer
`b'` comes to `hal_h264_encode`. -/
def inputStuck (b b' : Fin 3) : List (VideoEvent 3 1) :=
  [.dqbuf (some ⟨b,3110400,0⟩),.pace,.queueSend,.receive,.keyframe false false,
    .feedDetector .notItsTurn,.overlay,.encode ⟨true,some ⟨Fin.last 0,20000,false⟩,false⟩,
    .encodeRelease,.dqbuf (some ⟨b',3110400,83333⟩),.pace,.queueSend,.receive,
    .keyframe false false,.feedDetector .notItsTurn,.overlay]

/-- Frame 0 is released while the encoder still has it queued, and with the slot taken no answer of
the driver lets frame 1 through. -/
theorem encoder_wedged : ∃ s s' : VideoTasks 3 1,
    runEvents videoStep (start 3 1 1920 1080) ((inputStuck 0 1).take 8) = some s ∧
      s.encode.releasing = some 0 ∧ s.enc.input = some ⟨0,3110400⟩ ∧ ¬s.NoSharedFrame ∧
      runEvents videoStep s ((inputStuck 0 1).drop 8) = some s' ∧
      s'.encode = .encode ⟨1,3110400,83333⟩ ∧ s'.enc.input = some ⟨0,3110400⟩ ∧
      0 ∈ s'.cap.driver ∧ ¬s'.SlotsRestored ∧
      ∀ io, (halH264Encode s'.enc 1 3110400 io).1 = .error .fail := by
  refine ⟨_,_,rfl,rfl,rfl,?_,rfl,rfl,rfl,by decide,?_,?_⟩
  · intro hshared
    exact hshared 0 _ (.inr rfl) rfl rfl
  · intro hrestored
    exact absurd (hrestored _ rfl).1 (by decide)
  · intro io
    rw [halH264Encode_refused rfl]

/-- A frame that is queued, encoded and dequeued. -/
theorem encoderRestored_iff_roundTrip : ∃ s : VideoTasks 3 1,
    runEvents videoStep (start 3 1 1920 1080) roundTrip = some s ∧
      (Along videoStep (fun s => s.SlotsRestored ∧ s.NoSharedFrame) (start 3 1 1920 1080)
        roundTrip ↔
        ∀ moment ∈ moments videoStep (start 3 1 1920 1080) roundTrip, InputReclaimed moment) :=
  ⟨_,rfl,encoderRestored_iff 1920 1080 roundTrip _ rfl⟩

end VideoTasks

end Esp32Ipc
