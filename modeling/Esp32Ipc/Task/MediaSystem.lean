import Esp32Ipc.Task.PeerMedia
import Esp32Ipc.Task.VideoTimeline

/-!
# From the sensor to the peer

The video tasks, `task_audio` and the peer task together: the answer that the encode task gets from
`webrtc_send_video` is the one its ring gives, and the ring is emptied by the passes of the peer task
into the RTP encoder. The timeline model, where the ring is a list and transmission happens at will,
follows it as long as the sensor is in time.
-/

namespace Esp32Ipc

open Framework

variable {n m : Nat}

structure MediaSystem (n m : Nat) where
  tasks : VideoTasks n m
  media : PeerMedia
  /-- `timestamp` of the video encoder. -/
  rtpTimestamp : UInt32
  /-- The frames that went out, each with its timestamp. -/
  packets : List (UInt32 × List UInt8)

inductive MediaSystemEvent (n m : Nat) where
  | task (event : VideoEvent n m)
  /-- `webrtc_send_video`, with the bytes that the encoder left in the bitstream buffer. -/
  | sendVideo (payload : List UInt8)
  | media (event : MediaEvent)

/-- `rtp_encoder_encode`: a video frame gets the timestamp, which then moves on by one increment. -/
def MediaSystem.rtpEncoderEncode (s : MediaSystem n m) : MediaStream × List UInt8 → MediaSystem n m
  | (.audio, _) => s
  | (.video, data) => { s with
    rtpTimestamp := s.rtpTimestamp + UInt32.ofNat timestampIncrement
    packets := s.packets ++ [(s.rtpTimestamp,data)] }

def mediaSystemStep (s : MediaSystem n m) : MediaSystemEvent n m → Option (MediaSystem n m)
  | .task (.send _) => none
  | .task event => (videoStep s.tasks event).map fun tasks => { s with tasks := tasks }
  | .sendVideo payload =>
    match s.tasks.encode with
    | .send _ bits =>
      if payload.length = bits.bytesused then
        (videoStep s.tasks (.send (webrtcSendVideo s.media.w payload).1)).bind fun tasks =>
          (mediaStep s.media (.sendVideo payload)).map fun media =>
            { s with tasks := tasks, media := media }
      else none
    | _ => none
  | .media (.sendVideo _) => none
  | .media event =>
    (mediaStep s.media event).map fun media =>
      (media.encoded.drop s.media.encoded.length).foldl MediaSystem.rtpEncoderEncode
        { s with media := media }

/-- The capture time and the bytes of the frame that a moment puts into the video ring. -/
def acceptedFrame (m' : MediaSystem n m × MediaSystemEvent n m) : List (Int × List UInt8) :=
  match m'.2 with
  | .sendVideo payload =>
    if 0 < (webrtcSendVideo m'.1.media.w payload).1 then m'.1.tasks.encode.captured.map (·,payload) else []
  | _ => []

namespace MediaSystem

def start (n m width height : Nat) (rtpTimestamp : UInt32) : MediaSystem n m :=
  ⟨VideoTasks.start n m width height,.start,rtpTimestamp,[]⟩

/-- When a frame was captured, for the events that dequeue one. -/
def captureTime : MediaSystemEvent n m → Option Int
  | .task (.dqbuf (some frame)) => some frame.captured
  | _ => none

/-- The frames of a run are at most one interval apart. -/
def SensorInTime (es : List (MediaSystemEvent n m)) : Prop :=
  (es.filterMap captureTime).IsChain fun last captured =>
    last ≤ captured ∧ captured ≤ last + videoFrameIntervalUs

instance (es : List (MediaSystemEvent n m)) : Decidable (SensorInTime es) :=
  inferInstanceAs (Decidable ((es.filterMap captureTime).IsChain fun last captured =>
    last ≤ captured ∧ captured ≤ last + videoFrameIntervalUs))

section Step

variable {s t : MediaSystem n m} {v : VideoTimeline n m} {es : List (MediaSystemEvent n m)}

theorem record_tasks (v : VideoTimeline n m) (event : VideoEvent n m) (tasks : VideoTasks n m) :
    (v.record event tasks).tasks = tasks := by
  cases event with
  | dqbuf reply => cases reply <;> rfl
  | queueSend =>
    rw [VideoTimeline.record]
    split <;> rfl
  | encodeRelease =>
    rw [VideoTimeline.record]
    split <;> rfl
  | send sent =>
    rw [VideoTimeline.record]
    split <;> rfl
  | _ => rfl

theorem record_lastCapture (h : v.lastCapture = (es.filterMap captureTime).getLast?)
    (event : VideoEvent n m) (tasks : VideoTasks n m) :
    (v.record event tasks).lastCapture =
      ((es ++ [MediaSystemEvent.task event]).filterMap captureTime).getLast? := by
  rw [List.filterMap_append]
  cases event with
  | dqbuf reply =>
    cases reply with
    | none => simpa [VideoTimeline.record,captureTime] using h
    | some frame => simp [VideoTimeline.record,captureTime]
  | queueSend =>
    rw [VideoTimeline.record]
    split <;> simpa [captureTime] using h
  | encodeRelease =>
    rw [VideoTimeline.record]
    split <;> simpa [captureTime] using h
  | send sent =>
    rw [VideoTimeline.record]
    split <;> simpa [captureTime] using h
  | _ => simpa [VideoTimeline.record,captureTime] using h

theorem sensorInTime_concat (h : v.lastCapture = (es.filterMap captureTime).getLast?)
    {event : VideoEvent n m} (htime : SensorInTime (es ++ [.task event])) :
    SensorInTime es ∧ v.sensorInTime event := by
  rw [SensorInTime,List.filterMap_append,List.isChain_append] at htime
  refine ⟨htime.1,?_⟩
  cases event with
  | dqbuf reply =>
    cases reply with
    | none => trivial
    | some frame =>
      intro last hlast
      rw [h] at hlast
      exact htime.2.2 last hlast frame.captured rfl
  | _ => trivial

theorem record_ring (v : VideoTimeline n m) {event : VideoEvent n m} (tasks : VideoTasks n m)
    (hevent : ∀ sent, event ≠ .send sent) :
    (v.record event tasks).ring = v.ring ∧ (v.record event tasks).sent = v.sent ∧
      (v.record event tasks).rtpTimestamp = v.rtpTimestamp := by
  cases event with
  | dqbuf reply => cases reply <;> exact ⟨rfl,rfl,rfl⟩
  | queueSend =>
    rw [VideoTimeline.record]
    split <;> exact ⟨rfl,rfl,rfl⟩
  | encodeRelease =>
    rw [VideoTimeline.record]
    split <;> exact ⟨rfl,rfl,rfl⟩
  | send sent => exact absurd rfl (hevent sent)
  | _ => exact ⟨rfl,rfl,rfl⟩

/-- What the system does in a step: the tasks alone, a send, or the peer and audio tasks alone. -/
inductive Effect (s : MediaSystem n m) : MediaSystemEvent n m → MediaSystem n m → Prop where
  | task (event : VideoEvent n m) (tasks : VideoTasks n m) (hevent : ∀ sent, event ≠ .send sent)
      (hstep : videoStep s.tasks event = some tasks) : Effect s (.task event) { s with tasks := tasks }
  | send (payload : List UInt8) (frame : VcapFrame n) (bits : H264Bitstream m) (tasks : VideoTasks n m)
      (hencode : s.tasks.encode = .send frame bits) (hlength : payload.length = bits.bytesused)
      (hstep : videoStep s.tasks (.send (webrtcSendVideo s.media.w payload).1) = some tasks) :
      Effect s (.sendVideo payload)
        { s with tasks := tasks, media := { s.media with w := (webrtcSendVideo s.media.w payload).2 } }
  | media (event : MediaEvent) (media : PeerMedia) (hevent : ∀ buf, event ≠ .sendVideo buf)
      (hstep : mediaStep s.media event = some media) :
      Effect s (.media event)
        ((media.encoded.drop s.media.encoded.length).foldl rtpEncoderEncode { s with media := media })

theorem mediaSystemStep_effect {e : MediaSystemEvent n m} (h : mediaSystemStep s e = some t) :
    Effect s e t := by
  cases e with
  | task event =>
    have htask : (∀ sent, event ≠ .send sent) ∧
        ((videoStep s.tasks event).map fun tasks => { s with tasks := tasks }) = some t := by
      cases event with
      | send sent => cases h
      | _ => exact ⟨nofun,h⟩
    obtain ⟨hevent,hstep⟩ := htask
    obtain ⟨tasks,htasks,rfl⟩ := Option.map_eq_some_iff.mp hstep
    exact .task event tasks hevent htasks
  | sendVideo payload =>
    rw [mediaSystemStep] at h
    cases hencode : s.tasks.encode with
    | send frame bits =>
      simp only [hencode] at h
      obtain ⟨hlength,hstep⟩ := Option.ite_none_right_eq_some.mp h
      obtain ⟨tasks,htasks,hmedia⟩ := Option.bind_eq_some_iff.mp hstep
      obtain rfl := Option.some.inj hmedia
      exact .send payload frame bits tasks hencode hlength htasks
    | _ => simp [hencode] at h
  | media event =>
    have hmedia : (∀ buf, event ≠ .sendVideo buf) ∧ ((mediaStep s.media event).map fun media =>
        (media.encoded.drop s.media.encoded.length).foldl rtpEncoderEncode
          { s with media := media }) = some t := by
      cases event with
      | sendVideo buf => cases h
      | _ => exact ⟨nofun,h⟩
    obtain ⟨hevent,hstep⟩ := hmedia
    obtain ⟨media,hmedia,rfl⟩ := Option.map_eq_some_iff.mp hstep
    exact .media event media hevent hmedia

end Step

section Runs

variable {s t : MediaSystem n m} {v : VideoTimeline n m} {es : List (MediaSystemEvent n m)}
  {frames : List (Int × List UInt8)} {width height : Nat} {rtpStart : UInt32}

/-- What a run of the system has done, as the history of a timeline and a run of the peer's side. The
timeline is one of its model if the sensor was in time. -/
structure Tracks (width height : Nat) (rtpStart : UInt32) (es : List (MediaSystemEvent n m))
    (s : MediaSystem n m) (frames : List (Int × List UInt8)) (v : VideoTimeline n m) : Prop where
  history : v.History
  timeline : SensorInTime es → Reachable timelineStep (VideoTimeline.start n m width height) v
  tasks : v.tasks = s.tasks
  lastCapture : v.lastCapture = (es.filterMap captureTime).getLast?
  captured : frames.map Prod.fst = v.sent.map Prod.fst ++ v.ring
  stamps : s.packets.map Prod.fst = v.sent.map fun p => rtpStart + UInt32.ofNat p.2
  next : s.rtpTimestamp = rtpStart + UInt32.ofNat v.rtpTimestamp
  transmitted : s.packets.map Prod.snd = s.media.transmitted .video
  media : ∃ mes, runEvents mediaStep .start mes = some s.media ∧
    acceptedOn .video (moments mediaStep .start mes) = frames.map Prod.snd

theorem tracks_start : Tracks width height rtpStart [] (start n m width height rtpStart) []
    (VideoTimeline.start n m width height) where
  history := .start width height
  timeline := fun _ => ⟨[],rfl⟩
  tasks := rfl
  lastCapture := rfl
  captured := rfl
  stamps := rfl
  next := (UInt32.add_zero rtpStart).symm
  transmitted := rfl
  media := ⟨[],rfl,rfl⟩

theorem reachable_step {v' : VideoTimeline n m} {event : TimelineEvent n m}
    (h : Reachable timelineStep (VideoTimeline.start n m width height) v)
    (hstep : timelineStep v event = some v') :
    Reachable timelineStep (VideoTimeline.start n m width height) v' := by
  obtain ⟨events,hrun⟩ := h
  exact ⟨events ++ [event],runEvents_concat.mpr ⟨v,hrun,hstep⟩⟩

theorem tracks_task (h : Tracks width height rtpStart es s frames v) {event : VideoEvent n m}
    {tasks : VideoTasks n m} (hevent : ∀ sent, event ≠ .send sent)
    (hstep : videoStep s.tasks event = some tasks) :
    Tracks width height rtpStart (es ++ [.task event]) { s with tasks := tasks } frames
      (v.record event tasks) := by
  obtain ⟨hring,hsent,hrtp⟩ := record_ring v tasks hevent
  have hvideo : videoStep v.tasks event = some tasks := by rw [h.tasks,hstep]
  exact {
    history := h.history.record (videoStep_effect hvideo)
    timeline := by
      intro htime
      obtain ⟨hbefore,hin⟩ := sensorInTime_concat h.lastCapture htime
      have hv : timelineStep v (.task event) = some (v.record event tasks) := by
        rw [timelineStep,if_pos hin,hvideo]
        rfl
      exact reachable_step (h.timeline hbefore) hv
    tasks := record_tasks v event tasks
    lastCapture := record_lastCapture h.lastCapture event tasks
    captured := by rw [hring,hsent]; exact h.captured
    stamps := by rw [hsent]; exact h.stamps
    next := by rw [hrtp]; exact h.next
    transmitted := h.transmitted
    media := h.media }

theorem sensorInTime_other {e : MediaSystemEvent n m} (he : captureTime e = none) :
    (es ++ [e]).filterMap captureTime = es.filterMap captureTime := by
  rw [List.filterMap_append,List.filterMap_cons_none he]
  exact List.append_nil _

theorem tracks_send (h : Tracks width height rtpStart es s frames v) {payload : List UInt8}
    {frame : VcapFrame n} {bits : H264Bitstream m} {tasks : VideoTasks n m}
    (hencode : s.tasks.encode = .send frame bits)
    (hstep : videoStep s.tasks (.send (webrtcSendVideo s.media.w payload).1) = some tasks) :
    Tracks width height rtpStart (es ++ [.sendVideo payload])
      { s with tasks := tasks, media := { s.media with w := (webrtcSendVideo s.media.w payload).2 } }
      (frames ++ acceptedFrame (s,.sendVideo payload))
      (v.record (.send (webrtcSendVideo s.media.w payload).1) tasks) := by
  have hvideo : videoStep v.tasks (.send (webrtcSendVideo s.media.w payload).1) = some tasks := by
    rw [h.tasks,hstep]
  have hframe : acceptedFrame (s,.sendVideo payload) =
      if 0 < (webrtcSendVideo s.media.w payload).1 then [(frame.captured,payload)] else [] := by
    rw [acceptedFrame,hencode]
    rfl
  have hother : (es ++ [MediaSystemEvent.sendVideo payload]).filterMap captureTime = es.filterMap captureTime :=
    sensorInTime_other rfl
  obtain ⟨mes,hmes,haccepted⟩ := h.media
  have hmedia : runEvents mediaStep .start (mes ++ [.sendVideo payload]) =
      some { s.media with w := (webrtcSendVideo s.media.w payload).2 } :=
    runEvents_concat.mpr ⟨s.media,hmes,rfl⟩
  have hlast : acceptedOn .video (moments mediaStep .start (mes ++ [.sendVideo payload])) =
      (frames ++ acceptedFrame (s,.sendVideo payload)).map Prod.snd := by
    rw [moments_concat hmes,acceptedOn_append,haccepted,sendVideo_single,List.map_append,hframe]
    split <;> rfl
  have hcaptured : v.tasks.encode.captured = [frame.captured] := by
    rw [h.tasks,hencode]
    rfl
  refine ⟨h.history.record (videoStep_effect hvideo),?_,record_tasks v _ tasks,?_,?_,?_,?_,
    h.transmitted,_,hmedia,hlast⟩
  · intro htime
    rw [SensorInTime,hother] at htime
    have hv : timelineStep v (.task (.send (webrtcSendVideo s.media.w payload).1)) =
        some (v.record (.send (webrtcSendVideo s.media.w payload).1) tasks) := by
      rw [timelineStep,if_pos (show v.sensorInTime (.send _) from trivial),hvideo]
      rfl
    exact reachable_step (h.timeline htime) hv
  · rw [hother,VideoTimeline.record]
    split <;> exact h.lastCapture
  · rw [hframe,VideoTimeline.record,List.map_append,h.captured]
    by_cases hpos : 0 < (webrtcSendVideo s.media.w payload).1
    · rw [if_pos hpos,if_pos hpos,hcaptured,List.append_assoc]
      rfl
    · rw [if_neg hpos,if_neg hpos]
      exact List.append_nil _
  · rw [VideoTimeline.record]
    split <;> exact h.stamps
  · rw [VideoTimeline.record]
    split <;> exact h.next

theorem tracks_media (h : Tracks width height rtpStart es s frames v) {event : MediaEvent}
    {media : PeerMedia} (hevent : ∀ buf, event ≠ .sendVideo buf)
    (hstep : mediaStep s.media event = some media) :
    ∃ v', Tracks width height rtpStart (es ++ [.media event])
      ((media.encoded.drop s.media.encoded.length).foldl rtpEncoderEncode { s with media := media })
      frames v' := by
  obtain ⟨mes,hmes,haccepted⟩ := h.media
  have hmedia : runEvents mediaStep .start (mes ++ [event]) = some media :=
    runEvents_concat.mpr ⟨s.media,hmes,hstep⟩
  have hlast : acceptedOn .video (moments mediaStep .start (mes ++ [event])) = frames.map Prod.snd := by
    rw [moments_concat hmes,acceptedOn_append,haccepted,acceptedVideo_single hevent,List.append_nil]
  have hother : (es ++ [MediaSystemEvent.media event]).filterMap captureTime = es.filterMap captureTime :=
    sensorInTime_other rfl
  have htimeline : SensorInTime (es ++ [.media event]) →
      Reachable timelineStep (VideoTimeline.start n m width height) v := by
    rw [SensorInTime,hother]
    exact h.timeline
  -- without a video frame the timeline stays where it is
  have hstay : ∀ {p : List (MediaStream × List UInt8)}, media.encoded = s.media.encoded ++ p →
      (∀ q ∈ p, q.1 = .audio) → Tracks width height rtpStart (es ++ [.media event])
        { s with media := media } frames v := by
    intro p hmore haudio
    refine ⟨h.history,htimeline,h.tasks,?_,h.captured,h.stamps,h.next,?_,_,hmedia,hlast⟩
    · rw [hother]
      exact h.lastCapture
    · have hnone : p.filterMap (fun q => if q.1 = MediaStream.video then some q.2 else none) = [] := by
        refine List.filterMap_eq_nil_iff.mpr ?_
        intro q hq
        rw [haudio q hq]
        rfl
      rw [PeerMedia.transmitted,hmore,List.filterMap_append,hnone,List.append_nil]
      exact h.transmitted
  rcases mediaStep_encodes hstep with hkept | ⟨stream,data,hmore⟩
  · rw [hkept,List.drop_length]
    exact ⟨v,hstay (p := []) (by rw [hkept,List.append_nil]) (by simp)⟩
  rw [hmore,List.drop_left]
  cases stream with
  | audio => exact ⟨v,hstay hmore (by simp)⟩
  | video =>
    -- the frame transmitted is one the ring held, so the timeline has one to transmit
    have hsent : media.transmitted .video = s.media.transmitted .video ++ [data] := by
      rw [PeerMedia.transmitted,hmore,List.filterMap_append]
      rfl
    obtain ⟨_,_,horder⟩ := media_inOrder hmedia
    obtain ⟨waiting,_,hqueue⟩ := horder .video
    have hframes := congrArg List.length h.captured
    have hlength := congrArg List.length (hlast.symm.trans hqueue)
    have hstamps := congrArg List.length h.stamps
    have htransmitted := congrArg List.length h.transmitted
    rw [hsent] at hlength
    simp only [List.length_append,List.length_map,List.length_singleton] at hframes hlength
    simp only [List.length_map] at hstamps htransmitted
    cases hring : v.ring with
    | nil =>
      rw [hring,List.length_nil] at hframes
      omega
    | cons captured rest =>
      refine ⟨_,h.history.transmit hring,?_,h.tasks,?_,?_,?_,?_,?_,_,hmedia,hlast⟩
      · intro htime
        have hv : timelineStep v .transmit = some { v with
            ring := rest
            sent := v.sent ++ [(captured,v.rtpTimestamp)]
            rtpTimestamp := v.rtpTimestamp + timestampIncrement } := by
          rw [timelineStep,hring]
        exact reachable_step (htimeline htime) hv
      · rw [hother]
        exact h.lastCapture
      · rw [h.captured,hring,List.map_append,List.append_assoc]
        rfl
      · change (s.packets ++ [(s.rtpTimestamp,data)]).map Prod.fst = _
        rw [List.map_append,List.map_append,h.stamps,h.next]
        rfl
      · change s.rtpTimestamp + UInt32.ofNat timestampIncrement = _
        rw [h.next,UInt32.add_assoc,← UInt32.ofNat_add]
      · change (s.packets ++ [(s.rtpTimestamp,data)]).map Prod.snd = media.transmitted .video
        rw [List.map_append,h.transmitted,hsent]
        rfl

theorem mediaSystem_tracks (h : runEvents mediaSystemStep (start n m width height rtpStart) es = some s) :
    ∃ v, Tracks width height rtpStart es s
      ((moments mediaSystemStep (start n m width height rtpStart) es).flatMap acceptedFrame) v := by
  induction es, s, h using runEvents_induction with
  | nil => exact ⟨_,tracks_start⟩
  | concat es s e t hrun hstep ih =>
    obtain ⟨v,hv⟩ := ih
    rw [moments_concat hrun,List.flatMap_append,List.flatMap_singleton]
    cases mediaSystemStep_effect hstep with
    | task event tasks hevent htasks =>
      change ∃ v',Tracks width height rtpStart _ _ (_ ++ []) v'
      rw [List.append_nil]
      exact ⟨_,tracks_task hv hevent htasks⟩
    | send payload frame bits tasks hencode _ htasks => exact ⟨_,tracks_send hv hencode htasks⟩
    | media event media hevent hmedia =>
      change ∃ v',Tracks width height rtpStart _ _ (_ ++ []) v'
      rw [List.append_nil]
      exact tracks_media hv hevent hmedia

/-- What the peer gets of the frames that `webrtc_send_video` took. -/
structure Delivers (rtpStart : UInt32) (s : MediaSystem n m) (frames : List (Int × List UInt8))
    (waiting : List (List UInt8)) : Prop where
  inOrder : frames.Pairwise fun a b => a.1 < b.1
  payloads : frames.map Prod.snd = s.packets.map Prod.snd ++ waiting
  transmitted : s.packets.map Prod.snd = s.media.transmitted .video
  holds : ∃ pc, s.media.w.pc = some pc ∧ pc.videoRb.Holds waiting
  stamped : ∀ k (hk : k < s.packets.length),
    s.packets[k].1 = rtpStart + UInt32.ofNat (timestampIncrement * k)

/-- The frames as a run of the timeline model: what went out, with its timestamps, and the ring. -/
structure OnTimeline (width height : Nat) (rtpStart : UInt32) (s : MediaSystem n m)
    (frames : List (Int × List UInt8)) (v : VideoTimeline n m) : Prop where
  timeline : Reachable timelineStep (VideoTimeline.start n m width height) v
  tasks : v.tasks = s.tasks
  captured : frames.map Prod.fst = v.sent.map Prod.fst ++ v.ring
  stamps : s.packets.map Prod.fst = v.sent.map fun p => rtpStart + UInt32.ofNat p.2

/-- A frame of four bytes from the sensor into the ring. -/
def frameIntoRing (captured : Int) (last : UInt8) : List (MediaSystemEvent 3 1) :=
  [.task (.dqbuf (some ⟨Fin.last 2,3110400,captured⟩)),.task .pace,.task .queueSend,.task .receive,
    .task (.keyframe false false),.task (.feedDetector .notItsTurn),.task .overlay,
    .task (.encode ⟨true,some ⟨Fin.last 0,4,false⟩,true⟩),.task .encodeRelease,
    .sendVideo [0,0,1,last],.task .releaseBits]

/-- Two frames wait when the peer task comes round. -/
def twoFrames : List (MediaSystemEvent 3 1) :=
  .media (.stateChange .completed) :: frameIntoRing 0 101 ++ frameIntoRing 83333 65 ++
    [.media .enter,.media .iterate,.media .iterate,.media .iterate]

/-- The third comes after a third of a second and is still in the ring. -/
def lateFrame : List (MediaSystemEvent 3 1) := twoFrames ++ frameIntoRing 416666 66

end Runs

end MediaSystem

end Esp32Ipc
