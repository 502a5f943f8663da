import Esp32Ipc.Framework.Slots
import Esp32Ipc.Task.VideoTasks

/-!
# From capture time to RTP time

The video tasks with libpeer behind them: a frame that `webrtc_send_video` accepts waits in the
ring, and the peer loop stamps it with a timestamp that advances by one fixed step for every frame
sent. The capture times of the paced frames, of those that were lost and of those that were sent
are kept as history; a frame's capture time is the clock reading that `on_frame_grid` takes for it,
the only one the tasks have.
-/

namespace Esp32Ipc

open Framework

variable {n m : Nat}

/-- `timestamp_increment` of the H.264 encoder in libpeer. -/
def timestampIncrement : Nat := 90000 / 12

structure VideoTimeline (n m : Nat) where
  tasks : VideoTasks n m
  lastCapture : Option Int
  ring : List Int
  rtpTimestamp : Nat
  onGrid : List Int
  dropped : List Int
  sent : List (Int × Nat)

inductive TimelineEvent (n m : Nat) where
  | task (event : VideoEvent n m)
  | transmit

/-- Where the encode task's frame was captured, while it can still be sent. -/
def EncodePoint.captured : EncodePoint n m → List Int
  | .keyframe frame => [frame.captured]
  | .feed frame => [frame.captured]
  | .overlay frame => [frame.captured]
  | .encode frame => [frame.captured]
  | .release frame _ => [frame.captured]
  | .send frame _ => [frame.captured]
  | _ => []

/-- The capture time of the paced frame the capture task is about to queue. -/
def CapturePoint.captured : CapturePoint n → List Int
  | .send frame => [frame.captured]
  | _ => []

namespace VideoTimeline

def start (n m width height : Nat) : VideoTimeline n m where
  tasks := VideoTasks.start n m width height
  lastCapture := none
  ring := []
  rtpTimestamp := 0
  onGrid := []
  dropped := []
  sent := []

/-- The sensor's frames are at most one interval apart. -/
def sensorInTime (s : VideoTimeline n m) : VideoEvent n m → Prop
  | .dqbuf (some frame) =>
    ∀ last ∈ s.lastCapture, last ≤ frame.captured ∧ frame.captured ≤ last + videoFrameIntervalUs
  | _ => True

instance (s : VideoTimeline n m) : (event : VideoEvent n m) → Decidable (s.sensorInTime event)
  | .dqbuf (some frame) => inferInstanceAs (Decidable (∀ last ∈ s.lastCapture,
      last ≤ frame.captured ∧ frame.captured ≤ last + videoFrameIntervalUs))
  | .dqbuf none | .wake | .pace | .queueSend | .captureRelease | .receive | .keyframe _ _
  | .feedDetector _ | .overlay | .encode _ | .encodeRelease | .send _ | .releaseBits
  | .logStats => isTrue trivial

/-- What a step of the tasks adds to the history. -/
def record (s : VideoTimeline n m) (event : VideoEvent n m) (tasks : VideoTasks n m) :
    VideoTimeline n m :=
  match event with
  | .dqbuf (some frame) => { s with tasks := tasks, lastCapture := some frame.captured }
  | .pace => { s with tasks := tasks, onGrid := s.onGrid ++ tasks.capture.captured }
  | .queueSend =>
    match tasks.capture with
    | .release frame => { s with tasks := tasks, dropped := s.dropped ++ [frame.captured] }
    | _ => { s with tasks := tasks }
  | .encodeRelease =>
    match s.tasks.encode with
    | .release frame (.error _) =>
      { s with tasks := tasks, dropped := s.dropped ++ [frame.captured] }
    | _ => { s with tasks := tasks }
  | .send sent =>
    -- `webrtc_send_video` returns a positive length exactly when the ring took the frame
    if sent > 0 then { s with tasks := tasks, ring := s.ring ++ s.tasks.encode.captured }
    else { s with tasks := tasks, dropped := s.dropped ++ s.tasks.encode.captured }
  | _ => { s with tasks := tasks }

end VideoTimeline

def timelineStep (s : VideoTimeline n m) : TimelineEvent n m → Option (VideoTimeline n m)
  | .task event =>
    if s.sensorInTime event then (videoStep s.tasks event).map (s.record event) else none
  | .transmit =>
    match s.ring with
    | [] => none
    | captured :: rest =>
      some { s with
        ring := rest
        sent := s.sent ++ [(captured,s.rtpTimestamp)]
        rtpTimestamp := s.rtpTimestamp + timestampIncrement }

namespace VideoTimeline

/-- The capture times of the frames sent and of those that still can be, oldest first. -/
def pipeline (s : VideoTimeline n m) : List Int :=
  s.sent.map Prod.fst ++ (s.ring ++ (s.tasks.encode.captured ++
    (s.tasks.capQueue.map VcapFrame.captured ++ s.tasks.capture.captured)))

/-- The grid has not been restarted since the first frame, and cannot be by the frame at hand. -/
structure Paced (s : VideoTimeline n m) : Prop where
  first : s.lastCapture = none → s.onGrid = []
  slots : InSlots videoFrameIntervalUs s.tasks.nextUs s.onGrid
  waiting : ∀ frame, s.tasks.capture = .pace frame → s.lastCapture = some frame.captured ∧
    (s.onGrid = [] ∨ frame.captured < s.tasks.nextUs + videoFrameIntervalUs)
  passed : (∀ frame, s.tasks.capture ≠ .pace frame) → ∀ last ∈ s.lastCapture, last < s.tasks.nextUs

/-- What holds of the history whatever the sensor does. -/
structure History (s : VideoTimeline n m) : Prop where
  below : ∀ a ∈ s.onGrid, a < s.tasks.nextUs
  sorted : s.pipeline.Pairwise (· < ·)
  accounted : (s.pipeline ++ s.dropped).Perm s.onGrid
  stamped : ∀ k (h : k < s.sent.length), s.sent[k].2 = timestampIncrement * k
  next : s.rtpTimestamp = timestampIncrement * s.sent.length

structure Inv (s : VideoTimeline n m) : Prop where
  paced : s.Paced
  history : s.History

/-- What one step does to the frames on their way: nothing, one more, or one less. -/
inductive Moves (s s' : VideoTimeline n m) : Prop where
  | keep (pipeline : s'.pipeline = s.pipeline) (onGrid : s'.onGrid = s.onGrid)
      (dropped : s'.dropped = s.dropped)
  | accept (t : Int) (fresh : ∀ a ∈ s.onGrid, a < t) (pipeline : s'.pipeline = s.pipeline ++ [t])
      (onGrid : s'.onGrid = s.onGrid ++ [t]) (dropped : s'.dropped = s.dropped)
  | drop (before after : List Int) (t : Int) (was : s.pipeline = before ++ t :: after)
      (pipeline : s'.pipeline = before ++ after) (onGrid : s'.onGrid = s.onGrid)
      (dropped : s'.dropped = s.dropped ++ [t])

section Step

variable {s : VideoTimeline n m} {s' : VideoTimeline n m}

theorem Moves.inv (h : Moves s s') (hsorted : s.pipeline.Pairwise (· < ·))
    (haccounted : (s.pipeline ++ s.dropped).Perm s.onGrid) :
    s'.pipeline.Pairwise (· < ·) ∧ (s'.pipeline ++ s'.dropped).Perm s'.onGrid := by
  cases h with
  | keep pipeline onGrid dropped =>
    rw [pipeline,onGrid,dropped]
    exact ⟨hsorted,haccounted⟩
  | accept t fresh pipeline onGrid dropped =>
    rw [pipeline,onGrid,dropped]
    constructor
    · rw [List.pairwise_append]
      refine ⟨hsorted,List.pairwise_singleton _ _,?_⟩
      intro a ha b hb
      rw [List.mem_singleton.mp hb]
      exact fresh a (haccounted.subset (List.mem_append_left _ ha))
    · rw [List.append_assoc]
      have hmove : (s.pipeline ++ ([t] ++ s.dropped)).Perm (s.pipeline ++ (s.dropped ++ [t])) :=
        List.perm_append_comm.append_left _
      rw [← List.append_assoc s.pipeline s.dropped] at hmove
      exact hmove.trans (haccounted.append_right _)
  | drop before after t was pipeline onGrid dropped =>
    rw [was] at hsorted haccounted
    rw [pipeline,onGrid,dropped]
    constructor
    · exact hsorted.sublist (List.Sublist.append_left (List.sublist_cons_self t after) before)
    · have hmove : ((before ++ after) ++ (s.dropped ++ [t])).Perm ((before ++ t :: after) ++ s.dropped) := by
        rw [← List.append_assoc]
        apply (List.perm_append_singleton t _).trans
        rw [List.append_assoc,List.append_assoc,List.cons_append]
        exact List.perm_middle.symm
      exact hmove.trans haccounted

private theorem record_moves (hbelow : ∀ a ∈ s.onGrid, a < s.tasks.nextUs) {event : VideoEvent n m}
    {tasks : VideoTasks n m} (h : VideoEffect s.tasks event tasks) : Moves s (s.record event tasks) := by
  cases h with
  | acquired frame hc hd =>
    exact .keep (by simp [record,pipeline,hc,CapturePoint.captured]) rfl rfl
  | stalled hc => exact .keep (by simp [record,pipeline,hc,CapturePoint.captured]) rfl rfl
  | woken hc => exact .keep (by simp [record,pipeline,hc,CapturePoint.captured]) rfl rfl
  | onGrid frame stats hc hgrid =>
    refine .accept frame.captured ?_ (by simp [record,pipeline,hc,CapturePoint.captured]) rfl rfl
    intro a ha
    have hlt := hbelow a ha
    have hle := (onFrameGrid_accepted hgrid).1
    omega
  | offGrid frame stats hc hgrid =>
    exact .keep (by simp [record,pipeline,hc,CapturePoint.captured]) (List.append_nil _) rfl
  | queued frame hc hroom =>
    exact .keep (by simp [record,pipeline,hc,CapturePoint.captured]) rfl rfl
  | dropped frame stats hc hfull =>
    refine .drop (s.sent.map Prod.fst ++ (s.ring ++ (s.tasks.encode.captured ++
      s.tasks.capQueue.map VcapFrame.captured))) [] frame.captured ?_ ?_ rfl rfl
    · simp [pipeline,hc,CapturePoint.captured]
    · simp [record,pipeline,CapturePoint.captured]
  | captureReleased frame hc =>
    exact .keep (by simp [record,pipeline,hc,CapturePoint.captured]) rfl rfl
  | received frame rest stats he hq =>
    exact .keep (by simp [record,pipeline,he,hq,EncodePoint.captured]) rfl rfl
  | keyframe frame requested granted he =>
    exact .keep (by simp [record,pipeline,he,EncodePoint.captured]) rfl rfl
  | fed frame outcome he => exact .keep (by simp [record,pipeline,he,EncodePoint.captured]) rfl rfl
  | overlaid frame he => exact .keep (by simp [record,pipeline,he,EncodePoint.captured]) rfl rfl
  | encoded frame io he => exact .keep (by simp [record,pipeline,he,EncodePoint.captured]) rfl rfl
  | encodeReleased frame encoded stats he =>
    cases encoded with
    | ok bits =>
      refine .keep ?_ ?_ ?_ <;> simp [record,pipeline,he,EncodePoint.captured,afterEncode]
    | error err =>
      refine .drop (s.sent.map Prod.fst ++ s.ring)
        (s.tasks.capQueue.map VcapFrame.captured ++ s.tasks.capture.captured) frame.captured ?_ ?_ ?_ ?_
      all_goals simp [record,pipeline,he,EncodePoint.captured,afterEncode]
  | sent frame bits sent stats he =>
    by_cases hsent : sent > 0
    · refine .keep ?_ ?_ ?_ <;> simp [record,pipeline,he,hsent,EncodePoint.captured]
    · refine .drop (s.sent.map Prod.fst ++ s.ring)
        (s.tasks.capQueue.map VcapFrame.captured ++ s.tasks.capture.captured) frame.captured ?_ ?_ ?_ ?_
      all_goals simp [record,pipeline,he,hsent,EncodePoint.captured]
  | bitsReleased bits he => exact .keep (by simp [record,pipeline,he,EncodePoint.captured]) rfl rfl
  | logged stats => exact .keep (by simp [record,pipeline]) rfl rfl

private theorem Paced.unmoved (h : s.Paced) (hlast : s'.lastCapture = s.lastCapture)
    (hgrid : s'.onGrid = s.onGrid) (hnext : s'.tasks.nextUs = s.tasks.nextUs)
    (hcapture : s'.tasks.capture = s.tasks.capture) : s'.Paced where
  first := by rw [hlast,hgrid]; exact h.first
  slots := by rw [hnext,hgrid]; exact h.slots
  waiting := by rw [hlast,hgrid,hnext,hcapture]; exact h.waiting
  passed := by rw [hlast,hnext,hcapture]; exact h.passed

private theorem Paced.between (h : s.Paced) (hlast : s'.lastCapture = s.lastCapture)
    (hgrid : s'.onGrid = s.onGrid) (hnext : s'.tasks.nextUs = s.tasks.nextUs)
    (hwas : ∀ frame, s.tasks.capture ≠ .pace frame)
    (his : ∀ frame, s'.tasks.capture ≠ .pace frame) : s'.Paced where
  first := by rw [hlast,hgrid]; exact h.first
  slots := by rw [hnext,hgrid]; exact h.slots
  waiting := fun frame hframe => absurd hframe (his frame)
  passed := by rw [hlast,hnext]; exact fun _ => h.passed hwas

private theorem Paced.dqbuf (h : s.Paced) {frame : VcapFrame n}
    (hin : s.sensorInTime (.dqbuf (some frame))) (hc : s.tasks.capture = .acquire)
    (hlast : s'.lastCapture = some frame.captured) (hgrid : s'.onGrid = s.onGrid)
    (hnext : s'.tasks.nextUs = s.tasks.nextUs) (hcapture : s'.tasks.capture = .pace frame) :
    s'.Paced where
  first := by rw [hlast]; simp
  slots := by rw [hnext,hgrid]; exact h.slots
  waiting := by
    intro frame' hframe
    rw [hcapture] at hframe
    obtain rfl := CapturePoint.pace.inj hframe
    refine ⟨hlast,?_⟩
    rw [hgrid,hnext]
    cases hprev : s.lastCapture with
    | none => exact .inl (h.first hprev)
    | some last =>
      right
      have hpassed := h.passed (by simp [hc]) last hprev
      have hgap := (hin last hprev).2
      omega
  passed := fun hnot => absurd hcapture (hnot frame)

private theorem Paced.accept (h : s.Paced) {frame : VcapFrame n}
    (hc : s.tasks.capture = .pace frame)
    (haccept : (onFrameGrid s.tasks.nextUs frame.captured).1 = true)
    (hlast : s'.lastCapture = s.lastCapture) (hgrid : s'.onGrid = s.onGrid ++ [frame.captured])
    (hnext : s'.tasks.nextUs = (onFrameGrid s.tasks.nextUs frame.captured).2)
    (hcapture : s'.tasks.capture = .send frame) : s'.Paced where
  first := by
    rw [hlast,(h.waiting frame hc).1]
    simp
  slots := by
    obtain ⟨hle,⟨hlt,hmove⟩ | ⟨hlate,hrestart⟩⟩ := onFrameGrid_accepted haccept
    · rw [hgrid,hnext,hmove]
      exact h.slots.concat hle hlt
    · -- only the first frame can restart the grid
      have hempty : s.onGrid = [] := (h.waiting frame hc).2.resolve_right (by omega)
      rw [hgrid,hnext,hrestart,hempty]
      exact InSlots.nil.concat (le_refl _) (by simp)
  waiting := by
    rw [hcapture]
    simp
  passed := by
    intro _ last hmem
    rw [hlast,(h.waiting frame hc).1] at hmem
    obtain rfl := Option.some.inj hmem
    have hpos := videoFrameIntervalUs_eq
    obtain ⟨hle,⟨hlt,hmove⟩ | ⟨hlate,hrestart⟩⟩ := onFrameGrid_accepted haccept
    · rw [hnext,hmove]
      exact hlt
    · rw [hnext,hrestart]
      omega

private theorem Paced.reject (h : s.Paced) {frame : VcapFrame n}
    (hc : s.tasks.capture = .pace frame)
    (hreject : (onFrameGrid s.tasks.nextUs frame.captured).1 = false)
    (hlast : s'.lastCapture = s.lastCapture) (hgrid : s'.onGrid = s.onGrid)
    (hnext : s'.tasks.nextUs = (onFrameGrid s.tasks.nextUs frame.captured).2)
    (hcapture : s'.tasks.capture = .release frame) : s'.Paced where
  first := by rw [hlast,hgrid]; exact h.first
  slots := by rw [hnext,hgrid,(onFrameGrid_rejected hreject).2]; exact h.slots
  waiting := by
    rw [hcapture]
    simp
  passed := by
    intro _ last hmem
    rw [hlast,(h.waiting frame hc).1] at hmem
    obtain rfl := Option.some.inj hmem
    rw [hnext,(onFrameGrid_rejected hreject).2]
    exact (onFrameGrid_rejected hreject).1

private theorem record_paced (h : s.Paced) {event : VideoEvent n m} {tasks : VideoTasks n m}
    (hin : s.sensorInTime event) (heffect : VideoEffect s.tasks event tasks) :
    (s.record event tasks).Paced := by
  cases heffect with
  | acquired frame hc hd => exact h.dqbuf hin hc rfl rfl rfl rfl
  | stalled hc => exact h.between rfl rfl rfl (by simp [hc]) (by simp [record])
  | woken hc => exact h.between rfl rfl rfl (by simp [hc]) (by simp [record])
  | onGrid frame stats hc hgrid => exact h.accept hc hgrid rfl rfl rfl rfl
  | offGrid frame stats hc hgrid => exact h.reject hc hgrid rfl (List.append_nil _) rfl rfl
  | queued frame hc hroom => exact h.between rfl rfl rfl (by simp [hc]) (by simp [record])
  | dropped frame stats hc hfull => exact h.between rfl rfl rfl (by simp [hc]) (by simp [record])
  | captureReleased frame hc => exact h.between rfl rfl rfl (by simp [hc]) (by simp [record])
  | received frame rest stats he hq => exact h.unmoved rfl rfl rfl rfl
  | keyframe frame requested granted he => exact h.unmoved rfl rfl rfl rfl
  | fed frame outcome he => exact h.unmoved rfl rfl rfl rfl
  | overlaid frame he => exact h.unmoved rfl rfl rfl rfl
  | encoded frame io he => exact h.unmoved rfl rfl rfl rfl
  | encodeReleased frame encoded stats he =>
    cases encoded with
    | ok bits => apply h.unmoved <;> simp [record,he]
    | error err => apply h.unmoved <;> simp [record,he]
  | sent frame bits sent stats he =>
    by_cases hsent : sent > 0
    · apply h.unmoved <;> simp [record,hsent]
    · apply h.unmoved <;> simp [record,hsent]
  | bitsReleased bits he => exact h.unmoved rfl rfl rfl rfl
  | logged stats => exact h.unmoved rfl rfl rfl rfl

private theorem record_sent (event : VideoEvent n m) (tasks : VideoTasks n m) :
    (s.record event tasks).sent = s.sent ∧
      (s.record event tasks).rtpTimestamp = s.rtpTimestamp := by
  unfold record
  split
  · exact ⟨rfl,rfl⟩
  · exact ⟨rfl,rfl⟩
  · split <;> exact ⟨rfl,rfl⟩
  · split <;> exact ⟨rfl,rfl⟩
  · split <;> exact ⟨rfl,rfl⟩
  · exact ⟨rfl,rfl⟩

private theorem record_below (h : ∀ a ∈ s.onGrid, a < s.tasks.nextUs) {event : VideoEvent n m}
    {tasks : VideoTasks n m} (heffect : VideoEffect s.tasks event tasks) :
    ∀ a ∈ (s.record event tasks).onGrid, a < (s.record event tasks).tasks.nextUs := by
  cases heffect with
  | onGrid frame stats hc hgrid =>
    intro a ha
    have hstep := videoFrameIntervalUs_eq
    obtain ⟨hle,hmoved⟩ := onFrameGrid_accepted hgrid
    rcases List.mem_append.mp ha with hold | hnew
    · have hlt := h a hold
      change a < (onFrameGrid s.tasks.nextUs frame.captured).2
      omega
    · obtain rfl := List.mem_singleton.mp hnew
      change frame.captured < (onFrameGrid s.tasks.nextUs frame.captured).2
      omega
  | offGrid frame stats hc hgrid =>
    intro a ha
    change a < (onFrameGrid s.tasks.nextUs frame.captured).2
    rw [(onFrameGrid_rejected hgrid).2]
    exact h a (by simpa [record,CapturePoint.captured] using ha)
  | encodeReleased frame encoded stats he =>
    cases encoded with
    | ok bits => simpa [record,he] using h
    | error err => simpa [record,he] using h
  | sent frame bits sent stats he =>
    by_cases hsent : sent > 0
    · simpa [record,hsent] using h
    · simpa [record,hsent] using h
  | _ => exact h

theorem History.record (hs : s.History) {event : VideoEvent n m} {tasks : VideoTasks n m}
    (heffect : VideoEffect s.tasks event tasks) : (s.record event tasks).History := by
  obtain ⟨hsorted,haccounted⟩ := (record_moves hs.below heffect).inv hs.sorted hs.accounted
  obtain ⟨hsent,hrtp⟩ := record_sent (s := s) event tasks
  refine ⟨record_below hs.below heffect,hsorted,haccounted,?_,?_⟩
  · rw [hsent]
    exact hs.stamped
  · rw [hsent,hrtp]
    exact hs.next

theorem History.transmit (hs : s.History) {captured : Int} {rest : List Int}
    (hring : s.ring = captured :: rest) : History { s with
      ring := rest
      sent := s.sent ++ [(captured,s.rtpTimestamp)]
      rtpTimestamp := s.rtpTimestamp + timestampIncrement } := by
  have hmoves : Moves s { s with
      ring := rest
      sent := s.sent ++ [(captured,s.rtpTimestamp)]
      rtpTimestamp := s.rtpTimestamp + timestampIncrement } :=
    .keep (by simp [pipeline,hring]) rfl rfl
  obtain ⟨hsorted,haccounted⟩ := hmoves.inv hs.sorted hs.accounted
  refine ⟨hs.below,hsorted,haccounted,?_,?_⟩
  · intro k hk
    rw [List.length_append,List.length_singleton] at hk
    rcases Nat.lt_or_ge k s.sent.length with hold | hnew
    · rw [List.getElem_append_left hold]
      exact hs.stamped k hold
    · obtain rfl : k = s.sent.length := by omega
      simpa using hs.next
  · rw [List.length_append,List.length_singleton,hs.next]
    ring

theorem History.start (width height : Nat) : (VideoTimeline.start n m width height).History where
  below := by simp [VideoTimeline.start]
  sorted := by simp [VideoTimeline.start,VideoTasks.start,pipeline,EncodePoint.captured,CapturePoint.captured]
  accounted := by simp [VideoTimeline.start,VideoTasks.start,pipeline,EncodePoint.captured,CapturePoint.captured]
  stamped := by simp [VideoTimeline.start]
  next := rfl

theorem Inv.step (s : VideoTimeline n m) (event : TimelineEvent n m) (s' : VideoTimeline n m)
    (hs : s.Inv) (hstep : timelineStep s event = some s') : s'.Inv := by
  cases event with
  | task event =>
    simp only [timelineStep,Option.ite_none_right_eq_some,Option.map_eq_some_iff] at hstep
    obtain ⟨hin,tasks,htasks,rfl⟩ := hstep
    have heffect := videoStep_effect htasks
    exact ⟨record_paced hs.paced hin heffect,hs.history.record heffect⟩
  | transmit =>
    cases hring : s.ring with
    | nil => simp [timelineStep,hring] at hstep
    | cons captured rest =>
      simp only [timelineStep,hring,Option.some.injEq] at hstep
      subst s'
      exact ⟨hs.paced.unmoved rfl rfl rfl rfl,hs.history.transmit hring⟩

theorem Inv.start (width height : Nat) : (VideoTimeline.start n m width height).Inv where
  paced := ⟨fun _ => rfl,InSlots.nil,by simp [VideoTimeline.start,VideoTasks.start],
    by simp [VideoTimeline.start]⟩
  history := .start width height

/-- The position of a frame on its way among all paced frames counts the lost ones before it. -/
private theorem onGrid_position (hs : s.Inv) {k : Nat} (hk : k < s.pipeline.length) :
    ∃ h : k + s.dropped.countP (· < s.pipeline[k]) < s.onGrid.length,
      s.onGrid[k + s.dropped.countP (· < s.pipeline[k])] = s.pipeline[k] := by
  have hmem : s.pipeline[k] ∈ s.onGrid :=
    hs.history.accounted.subset (List.mem_append_left _ (List.getElem_mem hk))
  obtain ⟨a,ha,heq⟩ := List.getElem_of_mem hmem
  have hcount := hs.history.accounted.countP_eq (· < s.pipeline[k])
  rw [List.countP_append,countP_lt_getElem hs.history.sorted hk] at hcount
  have hrank := countP_lt_getElem (hs.paced.slots.sorted (by simp)) ha
  rw [heq,← hcount] at hrank
  subst a
  exact ⟨ha,heq⟩

/-- A hundred times the RTP time between two frames less that of their capture times, in ticks of
90 kHz. -/
def rtpError (s : VideoTimeline n m) (i j : Fin s.sent.length) : Int :=
  100 * ((s.sent[j].2 : Int) - s.sent[i].2) - 9 * (s.sent[j].1 - s.sent[i].1)

/-- The paced frames captured from frame `i` on and before frame `j` that were never sent. -/
def lostBetween (s : VideoTimeline n m) (i j : Fin s.sent.length) : Nat :=
  s.dropped.countP fun t => s.sent[i].1 ≤ t ∧ t < s.sent[j].1

/-- Between two frames sent, RTP time follows capture time, as `on_frame_grid` reads it, up to two
frame steps, one more for each paced frame lost in between, and the hundredths of a tick by which the
interval in microseconds falls short of a frame step. More exactly, each lost frame sets it back by
one interval. -/
theorem rtp_follows_capture (width height : Nat) (events : List (TimelineEvent n m))
    (s : VideoTimeline n m) (hrun : runEvents timelineStep (start n m width height) events = some s)
    (i j : Fin s.sent.length) (hij : i < j) :
    |s.rtpError i j| ≤ 2 * (100 * timestampIncrement) + 100 * timestampIncrement * s.lostBetween i j +
        3 * ((j : Int) - i) ∧
      |s.rtpError i j + 9 * videoFrameIntervalUs * s.lostBetween i j - 3 * ((j : Int) - i)| <
        100 * timestampIncrement := by
  have hs : s.Inv := runEvents_invariant Inv.step (Inv.start width height) hrun
  have hsent : ∀ k : Fin s.sent.length, ∃ h : (k : Nat) < s.pipeline.length,
      s.pipeline[(k : Nat)] = s.sent[k].1 := by
    intro k
    have hk : (k : Nat) < (s.sent.map Prod.fst).length := by simp
    refine ⟨by simp [pipeline]; omega,?_⟩
    simp only [pipeline]
    rw [List.getElem_append_left hk]
    simp
  obtain ⟨hi,hiTime⟩ := hsent i
  obtain ⟨hj,hjTime⟩ := hsent j
  obtain ⟨hiGrid,hiEq⟩ := onGrid_position hs hi
  obtain ⟨hjGrid,hjEq⟩ := onGrid_position hs hj
  have hbefore : s.sent[i].1 < s.sent[j].1 := by
    rw [← hiTime,← hjTime]
    exact List.pairwise_iff_getElem.mp hs.history.sorted _ _ hi hj hij
  have hgap := hs.paced.slots.gap hiGrid hjGrid
  rw [hiEq,hjEq,hiTime,hjTime,countP_lt_add hbefore.le] at hgap
  have hiStamp := hs.history.stamped i i.isLt
  have hjStamp := hs.history.stamped j j.isLt
  have hlost : s.dropped.countP (fun t => s.sent[i].1 ≤ t ∧ t < s.sent[j].1) =
    s.lostBetween i j := rfl
  have herror : s.rtpError i j = 100 * (7500 * (j : Int) - 7500 * i) -
      9 * (s.sent[j].1 - s.sent[i].1) := by
    simp only [rtpError,Fin.getElem_fin,hiStamp,hjStamp,timestampIncrement]
    push_cast
    norm_num
  rw [hlost] at hgap
  simp only [videoFrameIntervalUs_eq] at hgap
  push_cast at hgap
  rw [herror,videoFrameIntervalUs_eq,abs_le,abs_lt,show (timestampIncrement : Int) = 7500 from rfl]
  generalize s.sent[i].1 = x at *
  generalize s.sent[j].1 = y at *
  generalize s.lostBetween i j = lost at *
  omega

def encodeFrame (b : Fin 3) (captured : Int) (io : H264Ioctls 1) : List (TimelineEvent 3 1) :=
  [.task (.dqbuf (some ⟨b,3110400,captured⟩)),.task .pace,.task .queueSend,.task .receive,
    .task (.keyframe false false),.task (.feedDetector .notItsTurn),.task .overlay,.task (.encode io),
    .task .encodeRelease]

def deliverFrame (b : Fin 3) (captured : Int) : List (TimelineEvent 3 1) :=
  encodeFrame b captured ⟨true,some ⟨Fin.last 0,20000,false⟩,true⟩ ++
    [.task (.send 20000),.task .releaseBits,.transmit]

def loseFrame (b : Fin 3) (captured : Int) : List (TimelineEvent 3 1) :=
  encodeFrame b captured ⟨false,none,false⟩

/-- Three paced frames in a row are lost between two that are sent, and the RTP time between these
is one step for a third of a second. -/
theorem rtp_left_behind : ∃ s : VideoTimeline 3 1,
    runEvents timelineStep (start 3 1 1920 1080)
      (deliverFrame 0 0 ++ loseFrame 1 83333 ++ loseFrame 2 166666 ++ loseFrame 0 249999 ++
        deliverFrame 1 333332) = some s ∧
      s.sent = [(0,0),(333332,7500)] ∧
      ∃ i j : Fin s.sent.length, i < j ∧ 2 * (100 * timestampIncrement) < |s.rtpError i j| := by
  refine ⟨_,rfl,rfl,⟨0,by decide⟩,⟨1,by decide⟩,by decide,?_⟩
  decide

/-- One frame is lost between two that are sent. -/
theorem rtp_follows_capture_oneLost : ∃ s : VideoTimeline 3 1,
    runEvents timelineStep (start 3 1 1920 1080)
      (deliverFrame 0 0 ++ loseFrame 1 83333 ++ deliverFrame 2 166666) = some s ∧
      ∃ i j : Fin s.sent.length, i < j ∧ s.lostBetween i j = 1 ∧
        |s.rtpError i j| ≤ 2 * (100 * timestampIncrement) +
            100 * timestampIncrement * s.lostBetween i j + 3 * ((j : Int) - i) ∧
          |s.rtpError i j + 9 * videoFrameIntervalUs * s.lostBetween i j - 3 * ((j : Int) - i)| <
            100 * timestampIncrement :=
  ⟨_,rfl,⟨0,by decide⟩,⟨1,by decide⟩,by decide,by decide,
    rtp_follows_capture 1920 1080 (deliverFrame 0 0 ++ loseFrame 1 83333 ++ deliverFrame 2 166666) _ rfl
      _ _ (by decide)⟩

end Step

end VideoTimeline

end Esp32Ipc
