import Esp32Ipc.Framework.Run
import Esp32Ipc.Hal.H264Encoder
import Esp32Ipc.Hal.VideoCapture
import Esp32Ipc.Task.FrameGrid

/-!
# The capture and encode tasks

`video_capture_task` and `video_encode_task` over the capture driver, `cap_queue` and the encoder,
with `n` capture buffers (`CAP_BUF_COUNT`) and `m` bitstream buffers (`ENC_OUT_BUF_COUNT`). Every
call that another task or a driver can see is one step; the answers of the drivers, the detector and
the peer come with the event.
-/

namespace Esp32Ipc

open Framework

variable {n m : Nat}

def videoQueueLen (n : Nat) : Nat := n - 2

/-- `video_capture_task` between two steps, with the frame it holds. -/
inductive CapturePoint (n : Nat) where
  | acquire
  | delay
  | pace (frame : VcapFrame n)
  | send (frame : VcapFrame n)
  | release (frame : VcapFrame n)
  deriving DecidableEq

/-- `video_encode_task` between two steps. After `hal_vcap_release` the local variable `frame` is
still there but its buffer is not the task's any more. -/
inductive EncodePoint (n m : Nat) where
  | receive
  | keyframe (frame : VcapFrame n)
  | feed (frame : VcapFrame n)
  | overlay (frame : VcapFrame n)
  | encode (frame : VcapFrame n)
  | release (frame : VcapFrame n) (encoded : Except EspErr (H264Bitstream m))
  | send (frame : VcapFrame n) (bits : H264Bitstream m)
  | releaseBits (bits : H264Bitstream m)

inductive FeedOutcome where
  | notItsTurn
  | detectorBusy
  | ppaFailed
  | submitted
  deriving DecidableEq, Repr

structure VideoStats where
  cap : UInt32
  capDrop : UInt32
  capPace : UInt32
  loop : UInt32
  enc : UInt32
  sendOk : UInt32
  sendFail : UInt32
  bytes : UInt32
  deriving DecidableEq

structure VideoTasks (n m : Nat) where
  cap : Vcap n
  enc : H264 n m
  capQueue : List (VcapFrame n)
  nextUs : Int
  stats : VideoStats
  capture : CapturePoint n
  encode : EncodePoint n m

inductive VideoEvent (n m : Nat) where
  | dqbuf (reply : Option (VcapFrame n))
  | wake
  | pace
  | queueSend
  | captureRelease
  | receive
  | keyframe (requested granted : Bool)
  | feedDetector (outcome : FeedOutcome)
  | overlay
  | encode (io : H264Ioctls m)
  | encodeRelease
  | send (sent : Int)
  | releaseBits
  | logStats

def VideoStats.zero : VideoStats := ⟨0,0,0,0,0,0,0,0⟩

def VideoTasks.start (n m width height : Nat) : VideoTasks n m where
  cap := halVcapOpen n width height
  enc := halH264Open n m
  capQueue := []
  nextUs := 0
  stats := .zero
  capture := .acquire
  encode := .receive

/-- What the encode loop does once the capture buffer is back with the driver. -/
def afterEncode (frame : VcapFrame n) : Except EspErr (H264Bitstream m) → EncodePoint n m
  | .ok bits => .send frame bits
  | .error _ => .receive

def VideoStats.countEncode (stats : VideoStats) : Except EspErr (H264Bitstream m) → VideoStats
  | .ok bits => { stats with
      enc := stats.enc + 1
      bytes := stats.bytes + UInt32.ofNat bits.bytesused }
  | .error _ => stats

def VideoStats.countSend (stats : VideoStats) (sent : Int) : VideoStats :=
  if sent > 0 then { stats with sendOk := stats.sendOk + 1 }
  else if sent < 0 then { stats with sendFail := stats.sendFail + 1 }
  else stats

def videoStep (s : VideoTasks n m) : VideoEvent n m → Option (VideoTasks n m)
  | .dqbuf reply =>
    if s.capture = .acquire ∧ s.cap.canReply reply then
      match halVcapAcquire s.cap reply with
      | (.ok frame, cap) => some { s with cap := cap, capture := .pace frame }
      | (.error _, cap) => some { s with cap := cap, capture := .delay }
    else none
  | .wake => if s.capture = .delay then some { s with capture := .acquire } else none
  | .pace =>
    match s.capture with
    | .pace frame =>
      match onFrameGrid s.nextUs frame.captured with
      | (true, nextUs) =>
        some { s with
          nextUs := nextUs
          stats := { s.stats with cap := s.stats.cap + 1 }
          capture := .send frame }
      | (false, nextUs) =>
        some { s with
          nextUs := nextUs
          stats := { s.stats with capPace := s.stats.capPace + 1 }
          capture := .release frame }
    | _ => none
  | .queueSend =>
    match s.capture with
    | .send frame =>
      if s.capQueue.length < videoQueueLen n then
        some { s with capQueue := s.capQueue ++ [frame], capture := .acquire }
      else
        some { s with
          stats := { s.stats with capDrop := s.stats.capDrop + 1 }
          capture := .release frame }
    | _ => none
  | .captureRelease =>
    match s.capture with
    | .release frame => some { s with cap := halVcapRelease s.cap frame, capture := .acquire }
    | _ => none
  | .receive =>
    match s.encode, s.capQueue with
    | .receive, frame :: rest =>
      some { s with
        capQueue := rest
        stats := { s.stats with loop := s.stats.loop + 1 }
        encode := .keyframe frame }
    | _, _ => none
  | .keyframe requested granted =>
    match s.encode with
    | .keyframe frame =>
      some { s with
        enc := if requested then (halH264ForceIdr s.enc granted).2 else s.enc
        encode := .feed frame }
    | _ => none
  | .feedDetector _ =>
    match s.encode with
    | .feed frame => some { s with encode := .overlay frame }
    | _ => none
  | .overlay =>
    match s.encode with
    | .overlay frame => some { s with encode := .encode frame }
    | _ => none
  | .encode io =>
    match s.encode with
    | .encode frame =>
      some { s with
        enc := (halH264Encode s.enc frame.index frame.bytesused io).2
        encode := .release frame (halH264Encode s.enc frame.index frame.bytesused io).1 }
    | _ => none
  | .encodeRelease =>
    match s.encode with
    | .release frame encoded =>
      some { s with
        cap := halVcapRelease s.cap frame
        stats := s.stats.countEncode encoded
        encode := afterEncode frame encoded }
    | _ => none
  | .send sent =>
    match s.encode with
    | .send _ bits => some { s with stats := s.stats.countSend sent, encode := .releaseBits bits }
    | _ => none
  | .releaseBits =>
    match s.encode with
    | .releaseBits bits => some { s with enc := halH264Release s.enc bits, encode := .receive }
    | _ => none
  | .logStats => some { s with stats := .zero }

/-- What a step can do, with the counters left open. -/
inductive VideoEffect (s : VideoTasks n m) : VideoEvent n m → VideoTasks n m → Prop where
  | acquired (frame : VcapFrame n) (hc : s.capture = .acquire) (hd : frame.index ∈ s.cap.driver) :
      VideoEffect s (.dqbuf (some frame))
        { s with
          cap := { s.cap with driver := s.cap.driver.erase frame.index }
          capture := .pace frame }
  | stalled (hc : s.capture = .acquire) : VideoEffect s (.dqbuf none) { s with capture := .delay }
  | woken (hc : s.capture = .delay) : VideoEffect s .wake { s with capture := .acquire }
  | onGrid (frame : VcapFrame n) (stats : VideoStats) (hc : s.capture = .pace frame)
      (hgrid : (onFrameGrid s.nextUs frame.captured).1 = true) :
      VideoEffect s .pace
        { s with
          nextUs := (onFrameGrid s.nextUs frame.captured).2
          stats := stats
          capture := .send frame }
  | offGrid (frame : VcapFrame n) (stats : VideoStats) (hc : s.capture = .pace frame)
      (hgrid : (onFrameGrid s.nextUs frame.captured).1 = false) :
      VideoEffect s .pace
        { s with
          nextUs := (onFrameGrid s.nextUs frame.captured).2
          stats := stats
          capture := .release frame }
  | queued (frame : VcapFrame n) (hc : s.capture = .send frame)
      (hroom : s.capQueue.length < videoQueueLen n) :
      VideoEffect s .queueSend { s with capQueue := s.capQueue ++ [frame], capture := .acquire }
  | dropped (frame : VcapFrame n) (stats : VideoStats) (hc : s.capture = .send frame)
      (hfull : videoQueueLen n ≤ s.capQueue.length) :
      VideoEffect s .queueSend { s with stats := stats, capture := .release frame }
  | captureReleased (frame : VcapFrame n) (hc : s.capture = .release frame) :
      VideoEffect s .captureRelease
        { s with cap := halVcapRelease s.cap frame, capture := .acquire }
  | received (frame : VcapFrame n) (rest : List (VcapFrame n)) (stats : VideoStats)
      (he : s.encode = .receive) (hq : s.capQueue = frame :: rest) :
      VideoEffect s .receive { s with capQueue := rest, stats := stats, encode := .keyframe frame }
  | keyframe (frame : VcapFrame n) (requested granted : Bool) (he : s.encode = .keyframe frame) :
      VideoEffect s (.keyframe requested granted)
        { s with
          enc := if requested then (halH264ForceIdr s.enc granted).2 else s.enc
          encode := .feed frame }
  | fed (frame : VcapFrame n) (outcome : FeedOutcome) (he : s.encode = .feed frame) :
      VideoEffect s (.feedDetector outcome) { s with encode := .overlay frame }
  | overlaid (frame : VcapFrame n) (he : s.encode = .overlay frame) :
      VideoEffect s .overlay { s with encode := .encode frame }
  | encoded (frame : VcapFrame n) (io : H264Ioctls m) (he : s.encode = .encode frame) :
      VideoEffect s (.encode io)
        { s with
          enc := (halH264Encode s.enc frame.index frame.bytesused io).2
          encode := .release frame (halH264Encode s.enc frame.index frame.bytesused io).1 }
  | encodeReleased (frame : VcapFrame n) (encoded : Except EspErr (H264Bitstream m))
      (stats : VideoStats) (he : s.encode = .release frame encoded) :
      VideoEffect s .encodeRelease
        { s with
          cap := halVcapRelease s.cap frame
          stats := stats
          encode := afterEncode frame encoded }
  | sent (frame : VcapFrame n) (bits : H264Bitstream m) (sent : Int) (stats : VideoStats)
      (he : s.encode = .send frame bits) :
      VideoEffect s (.send sent) { s with stats := stats, encode := .releaseBits bits }
  | bitsReleased (bits : H264Bitstream m) (he : s.encode = .releaseBits bits) :
      VideoEffect s .releaseBits
        { s with enc := halH264Release s.enc bits, encode := .receive }
  | logged (stats : VideoStats) : VideoEffect s .logStats { s with stats := stats }

section Effect

variable {s t : VideoTasks n m}

private theorem effect_dqbuf {reply : Option (VcapFrame n)}
    (h : videoStep s (.dqbuf reply) = some t) : VideoEffect s (.dqbuf reply) t := by
  simp only [videoStep,Option.ite_none_right_eq_some] at h
  obtain ⟨⟨hc,hreply⟩,h⟩ := h
  cases reply with
  | none =>
    obtain rfl := Option.some.inj h
    exact .stalled hc
  | some frame =>
    obtain rfl := Option.some.inj h
    exact .acquired frame hc hreply

private theorem effect_pace (h : videoStep s .pace = some t) : VideoEffect s .pace t := by
  cases hc : s.capture with
  | pace frame =>
    simp only [videoStep,hc] at h
    cases hgrid : onFrameGrid s.nextUs frame.captured with
    | mk accept nextUs =>
      obtain rfl : nextUs = (onFrameGrid s.nextUs frame.captured).2 := by rw [hgrid]
      rw [hgrid] at h
      cases accept with
      | true =>
        obtain rfl := Option.some.inj h
        exact .onGrid frame _ hc (by rw [hgrid])
      | false =>
        obtain rfl := Option.some.inj h
        exact .offGrid frame _ hc (by rw [hgrid])
  | _ => simp [videoStep,hc] at h

private theorem effect_queueSend (h : videoStep s .queueSend = some t) :
    VideoEffect s .queueSend t := by
  cases hc : s.capture with
  | send frame =>
    simp only [videoStep,hc] at h
    by_cases hroom : s.capQueue.length < videoQueueLen n
    · rw [if_pos hroom] at h
      obtain rfl := Option.some.inj h
      exact .queued frame hc hroom
    · rw [if_neg hroom] at h
      obtain rfl := Option.some.inj h
      exact .dropped frame _ hc (by omega)
  | _ => simp [videoStep,hc] at h

private theorem effect_captureRelease (h : videoStep s .captureRelease = some t) :
    VideoEffect s .captureRelease t := by
  cases hc : s.capture with
  | release frame =>
    simp only [videoStep,hc,Option.some.injEq] at h
    subst t
    exact .captureReleased frame hc
  | _ => simp [videoStep,hc] at h

private theorem effect_receive (h : videoStep s .receive = some t) : VideoEffect s .receive t := by
  cases he : s.encode with
  | receive =>
    cases hq : s.capQueue with
    | nil => simp [videoStep,he,hq] at h
    | cons frame rest =>
      simp only [videoStep,he,hq,Option.some.injEq] at h
      subst t
      exact .received frame rest _ he hq
  | _ => simp [videoStep,he] at h

theorem videoStep_effect {event : VideoEvent n m} (h : videoStep s event = some t) :
    VideoEffect s event t := by
  cases event with
  | dqbuf reply => exact effect_dqbuf h
  | wake =>
    simp only [videoStep,Option.ite_none_right_eq_some,Option.some.injEq] at h
    obtain ⟨hc,rfl⟩ := h
    exact .woken hc
  | pace => exact effect_pace h
  | queueSend => exact effect_queueSend h
  | captureRelease => exact effect_captureRelease h
  | receive => exact effect_receive h
  | keyframe requested granted =>
    cases he : s.encode with
    | keyframe frame =>
      simp only [videoStep,he,Option.some.injEq] at h
      subst t
      exact .keyframe frame requested granted he
    | _ => simp [videoStep,he] at h
  | feedDetector outcome =>
    cases he : s.encode with
    | feed frame =>
      simp only [videoStep,he,Option.some.injEq] at h
      subst t
      exact .fed frame outcome he
    | _ => simp [videoStep,he] at h
  | overlay =>
    cases he : s.encode with
    | overlay frame =>
      simp only [videoStep,he,Option.some.injEq] at h
      subst t
      exact .overlaid frame he
    | _ => simp [videoStep,he] at h
  | encode io =>
    cases he : s.encode with
    | encode frame =>
      simp only [videoStep,he,Option.some.injEq] at h
      subst t
      exact .encoded frame io he
    | _ => simp [videoStep,he] at h
  | encodeRelease =>
    cases he : s.encode with
    | release frame encoded =>
      simp only [videoStep,he,Option.some.injEq] at h
      subst t
      exact .encodeReleased frame encoded _ he
    | _ => simp [videoStep,he] at h
  | send sent =>
    cases he : s.encode with
    | send frame bits =>
      simp only [videoStep,he,Option.some.injEq] at h
      subst t
      exact .sent frame bits sent _ he
    | _ => simp [videoStep,he] at h
  | releaseBits =>
    cases he : s.encode with
    | releaseBits bits =>
      simp only [videoStep,he,Option.some.injEq] at h
      subst t
      exact .bitsReleased bits he
    | _ => simp [videoStep,he] at h
  | logStats =>
    obtain rfl := Option.some.inj h
    exact .logged _

end Effect

/-- The buffer the capture task holds. -/
def CapturePoint.held : CapturePoint n → List (Fin n)
  | .pace frame => [frame.index]
  | .send frame => [frame.index]
  | .release frame => [frame.index]
  | _ => []

/-- The capture buffer the encode task holds. -/
def EncodePoint.held : EncodePoint n m → List (Fin n)
  | .keyframe frame => [frame.index]
  | .feed frame => [frame.index]
  | .overlay frame => [frame.index]
  | .encode frame => [frame.index]
  | .release frame _ => [frame.index]
  | _ => []

/-- The bitstream buffer the encode task holds. -/
def EncodePoint.heldBits : EncodePoint n m → List (Fin m)
  | .release _ encoded => encodedIndex encoded
  | .send _ bits => [bits.index]
  | .releaseBits bits => [bits.index]
  | _ => []

/-- The buffer the encode task still reads or writes. -/
def EncodePoint.inUse : EncodePoint n m → List (Fin n)
  | .keyframe frame => [frame.index]
  | .feed frame => [frame.index]
  | .overlay frame => [frame.index]
  | .encode frame => [frame.index]
  | _ => []

/-- The buffer the capture task is about to hand to `hal_vcap_release`. -/
def CapturePoint.releasing : CapturePoint n → Option (Fin n)
  | .release frame => some frame.index
  | _ => none

def EncodePoint.releasing : EncodePoint n m → Option (Fin n)
  | .release frame _ => some frame.index
  | _ => none

theorem EncodePoint.held_length_le (point : EncodePoint n m) : point.held.length ≤ 1 := by
  cases point <;> simp [EncodePoint.held]

namespace VideoTasks

def queued (s : VideoTasks n m) : List (Fin n) := s.capQueue.map VcapFrame.index

/-- Everywhere a capture buffer can be. -/
def places (s : VideoTasks n m) : List (Fin n) :=
  s.cap.driver ++ (s.capture.held ++ (s.queued ++ s.encode.held))

/-- What both tasks keep: every capture buffer and every bitstream buffer in one place, and the queue
within its length. -/
structure Inv (s : VideoTasks n m) : Prop where
  places : s.places.Perm (List.finRange n)
  bitstreams : (s.encode.heldBits ++ s.enc.bitstreams).Perm (List.finRange m)
  queueLen : s.capQueue.length ≤ videoQueueLen n

end VideoTasks

end Esp32Ipc
