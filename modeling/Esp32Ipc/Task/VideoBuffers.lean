import Esp32Ipc.Task.VideoTasks

/-!
# Capture buffers between the driver and the two tasks

Every step moves at most one buffer, so each is always in one place. The driver is left without a
buffer exactly when it hands one out while `cap_queue` is full and the encode task holds a frame.
-/

namespace Esp32Ipc

open Framework

variable {n m : Nat}

namespace VideoTasks

variable {s t : VideoTasks n m} {event : VideoEvent n m}

section Places

theorem places_effect (h : VideoEffect s event t) : t.places.Perm s.places := by
  cases h with
  | acquired frame hc hd =>
    have hperm := (List.perm_cons_erase hd).append_right (s.queued ++ s.encode.held)
    simp only [places,queued,hc,CapturePoint.held,List.nil_append] at hperm ⊢
    refine List.Perm.trans ?_ hperm.symm
    exact List.perm_middle
  | stalled hc => simp [places,queued,hc,CapturePoint.held]
  | woken hc => simp [places,queued,hc,CapturePoint.held]
  | onGrid frame stats hc hgrid => simp [places,queued,hc,CapturePoint.held]
  | offGrid frame stats hc hgrid => simp [places,queued,hc,CapturePoint.held]
  | queued frame hc hroom =>
    simp only [places,VideoTasks.queued,hc,CapturePoint.held,List.map_append,List.map_cons,List.map_nil,
      List.nil_append,List.append_assoc]
    exact List.perm_middle.append_left _
  | dropped frame stats hc hfull => simp [places,queued,hc,CapturePoint.held]
  | captureReleased frame hc =>
    simp only [places,queued,hc,CapturePoint.held,halVcapRelease_driver,List.nil_append]
    simpa using List.perm_middle.symm
  | received frame rest stats he hq =>
    simp only [places,queued,he,hq,EncodePoint.held,List.map_cons]
    refine List.Perm.append_left _ (List.Perm.append_left _ ?_)
    simp
  | keyframe frame requested granted he => simp [places,queued,he,EncodePoint.held]
  | fed frame outcome he => simp [places,queued,he,EncodePoint.held]
  | overlaid frame he => simp [places,queued,he,EncodePoint.held]
  | encoded frame io he => simp [places,queued,he,EncodePoint.held]
  | encodeReleased frame encoded stats he =>
    have hheld : (afterEncode frame encoded).held = [] := by cases encoded <;> rfl
    simp only [places,queued,hheld,halVcapRelease_driver,List.append_nil]
    rw [he,EncodePoint.held,← List.append_assoc s.capture.held,← List.append_assoc s.cap.driver]
    exact (List.perm_append_singleton frame.index _).symm
  | sent frame bits sent stats he => simp [places,queued,he,EncodePoint.held]
  | bitsReleased bits he => simp [places,queued,he,EncodePoint.held]
  | logged stats => simp [places,queued]

theorem bitstreams_effect (h : VideoEffect s event t) :
    (t.encode.heldBits ++ t.enc.bitstreams).Perm (s.encode.heldBits ++ s.enc.bitstreams) := by
  cases h with
  | received frame rest stats he hq => simp [he,EncodePoint.heldBits]
  | keyframe frame requested granted he => cases requested <;> simp [he,EncodePoint.heldBits]
  | fed frame outcome he => simp [he,EncodePoint.heldBits]
  | overlaid frame he => simp [he,EncodePoint.heldBits]
  | encoded frame io he =>
    simpa [he,EncodePoint.heldBits] using halH264Encode_bitstreams
  | encodeReleased frame encoded stats he =>
    cases encoded <;> simp [he,EncodePoint.heldBits,afterEncode,encodedIndex]
  | sent frame bits sent stats he => simp [he,EncodePoint.heldBits]
  | bitsReleased bits he => simp [he,EncodePoint.heldBits]
  | _ => exact List.Perm.refl _

theorem Inv.start (width height : Nat) : (VideoTasks.start n m width height).Inv where
  places := by simp [VideoTasks.places,VideoTasks.start,VideoTasks.queued,CapturePoint.held,EncodePoint.held]
  bitstreams := by simp [VideoTasks.start,EncodePoint.heldBits,halH264Open]
  queueLen := Nat.zero_le _

theorem Inv.step (s : VideoTasks n m) (event : VideoEvent n m) (t : VideoTasks n m) (hs : s.Inv)
    (h : videoStep s event = some t) : t.Inv := by
  have heffect := videoStep_effect h
  refine ⟨(places_effect heffect).trans hs.places,(bitstreams_effect heffect).trans hs.bitstreams,?_⟩
  have hqueue := hs.queueLen
  cases heffect with
  | queued frame hc hroom => simpa using hroom
  | received frame rest stats he hq =>
    rw [hq,List.length_cons] at hqueue
    exact Nat.le_of_succ_le hqueue
  | _ => exact hqueue

theorem Inv.length (hs : s.Inv) :
    s.cap.driver.length + s.capture.held.length + s.capQueue.length + s.encode.held.length = n := by
  have hlen := hs.places.length_eq
  simp only [VideoTasks.places,queued,List.length_append,List.length_map,List.length_finRange] at hlen
  omega

theorem Inv.count (hs : s.Inv) (b : Fin n) :
    s.cap.driver.count b + s.capture.held.count b + s.queued.count b + s.encode.held.count b = 1 := by
  have hcount := hs.places.count_eq b
  rw [List.count_eq_one_of_mem (List.nodup_finRange n) (List.mem_finRange b)] at hcount
  simp only [VideoTasks.places,List.count_append] at hcount
  omega

end Places

section Starvation

/-- The driver has a buffer to DMA into: the application holds at most `CAP_BUF_COUNT - 1`. -/
def DriverKeepsOne (s : VideoTasks n m) : Prop :=
  1 ≤ s.cap.driver.length ∧
    s.capture.held.length + s.capQueue.length + s.encode.held.length ≤ n - 1

/-- `VIDIOC_DQBUF` does not hand out a buffer while the queue is full and the encode task holds
one. -/
def DequeueSafe : VideoTasks n m × VideoEvent n m → Prop
  | (s, .dqbuf (some _)) => ¬(s.capQueue.length = videoQueueLen n ∧ s.encode.held ≠ [])
  | _ => True

private theorem driver_step (h : VideoEffect s event t) (hkeeps : 1 ≤ s.cap.driver.length)
    (hother : ∀ frame, event ≠ .dqbuf (some frame)) : 1 ≤ t.cap.driver.length := by
  cases h with
  | acquired frame hc hd => exact absurd rfl (hother frame)
  | captureReleased frame hc => simp
  | encodeReleased frame encoded stats he => simp
  | _ => exact hkeeps

private theorem driver_dqbuf (hn : 3 ≤ n) (hs : s.Inv) (ht : t.Inv) (frame : VcapFrame n)
    (h : VideoEffect s (.dqbuf (some frame)) t) :
    1 ≤ t.cap.driver.length ↔ DequeueSafe (s,.dqbuf (some frame)) := by
  have hlen := ht.length
  have hqueue := hs.queueLen
  have hheld := s.encode.held_length_le
  cases h with
  | acquired frame hc hd =>
    simp only [CapturePoint.held,List.length_singleton] at hlen
    have hnil : s.encode.held ≠ [] ↔ s.encode.held.length = 1 := by
      rw [← List.length_pos_iff]
      omega
    simp only [DequeueSafe,hnil,videoQueueLen] at hqueue ⊢
    omega

/-- The application never holds every capture buffer exactly when the driver never answers a
`VIDIOC_DQBUF` while `cap_queue` is full and the encode task is busy with a frame. -/
theorem driverKeepsOne_iff (hn : 3 ≤ n) (width height : Nat) (events : List (VideoEvent n m))
    (s : VideoTasks n m) (hrun : runEvents videoStep (start n m width height) events = some s) :
    Along videoStep DriverKeepsOne (start n m width height) events ↔
      ∀ moment ∈ moments videoStep (start n m width height) events, DequeueSafe moment := by
  refine along_iff_moments (fun s => 1 ≤ s.cap.driver.length) Inv.step ?_ ?_ ?_
    (Inv.start width height) ?_ hrun
  · intro s hs hkeeps
    have hlen := hs.length
    exact ⟨hkeeps,by omega⟩
  · intro s event t hs hkeeps hstep hsafe
    have heffect := videoStep_effect hstep
    by_cases hdq : ∃ frame, event = .dqbuf (some frame)
    · obtain ⟨frame,rfl⟩ := hdq
      exact (driver_dqbuf hn hs (Inv.step s _ t hs hstep) frame heffect).mpr hsafe
    · push Not at hdq
      exact driver_step heffect hkeeps hdq
  · intro s event t hs hkeeps hstep hunsafe hkept
    have heffect := videoStep_effect hstep
    cases heffect with
    | acquired frame hc hd =>
      exact hunsafe ((driver_dqbuf hn hs (Inv.step s _ _ hs hstep) frame (.acquired frame hc hd)).mp
        hkept.1)
    | _ => exact hunsafe trivial
  · simp only [VideoTasks.start,halVcapOpen_driver,List.length_finRange]
    omega

/-- `CAP_BUF_COUNT = 3` and two frames in flight: the third `VIDIOC_DQBUF` empties the driver. -/
theorem driver_emptied : ∃ s : VideoTasks 3 1,
    runEvents videoStep (start 3 1 1920 1080)
      [.dqbuf (some ⟨0,3110400,0⟩),.pace,.queueSend,.receive,
        .dqbuf (some ⟨1,3110400,83333⟩),.pace,.queueSend,
        .dqbuf (some ⟨2,3110400,116666⟩)] = some s ∧
      s.cap.driver = [] ∧
      s.capture.held.length + s.capQueue.length + s.encode.held.length = 3 ∧ ¬s.DriverKeepsOne := by
  refine ⟨_,rfl,rfl,rfl,?_⟩
  rintro ⟨h,_⟩
  exact absurd h (by decide)

/-- Two frames in flight, and the driver still has one buffer. -/
def twoInFlight : List (VideoEvent 3 1) :=
  [.dqbuf (some ⟨0,3110400,0⟩),.pace,.queueSend,.receive,.dqbuf (some ⟨1,3110400,83333⟩),.pace]

theorem driverKeepsOne_iff_twoInFlight : ∃ s : VideoTasks 3 1,
    runEvents videoStep (start 3 1 1920 1080) twoInFlight = some s ∧
      (Along videoStep DriverKeepsOne (start 3 1 1920 1080) twoInFlight ↔
        ∀ moment ∈ moments videoStep (start 3 1 1920 1080) twoInFlight, DequeueSafe moment) :=
  ⟨_,rfl,driverKeepsOne_iff (by decide) 1920 1080 twoInFlight _ rfl⟩

end Starvation

section Conservation

/-- The buffer a step takes from the driver. -/
def acquired : VideoTasks n m × VideoEvent n m → Option (Fin n)
  | (_, .dqbuf (some frame)) => some frame.index
  | _ => none

/-- The buffer a step hands to `hal_vcap_release`. -/
def released : VideoTasks n m × VideoEvent n m → Option (Fin n)
  | (s, .captureRelease) => s.capture.releasing
  | (s, .encodeRelease) => s.encode.releasing
  | _ => none

variable {b : Fin n}

theorem Inv.apart_of_capture (hs : s.Inv) (hb : b ∈ s.capture.held) :
    b ∉ s.cap.driver ∧ b ∉ s.queued ∧ b ∉ s.encode.held := by
  have hcount := hs.count b
  have hpos := List.count_pos_iff.mpr hb
  simp only [← List.count_eq_zero]
  omega

theorem Inv.apart_of_encode (hs : s.Inv) (hb : b ∈ s.encode.held) :
    b ∉ s.cap.driver ∧ b ∉ s.queued ∧ b ∉ s.capture.held := by
  have hcount := hs.count b
  have hpos := List.count_pos_iff.mpr hb
  simp only [← List.count_eq_zero]
  omega

private theorem Inv.driver_nodup (hs : s.Inv) : s.cap.driver.Nodup := by
  have hnodup : s.places.Nodup := hs.places.nodup_iff.mpr (List.nodup_finRange n)
  exact (List.nodup_append.mp hnodup).1

private theorem released_apart (hs : s.Inv) (hr : released (s,event) = some b) :
    b ∉ s.cap.driver ∧ b ∉ s.queued ∧ b ∉ s.encode.inUse := by
  cases event with
  | captureRelease =>
    cases hc : s.capture with
    | release frame =>
      simp only [released,hc,CapturePoint.releasing,Option.some.injEq] at hr
      subst b
      obtain ⟨hd,hq,he⟩ := hs.apart_of_capture (b := frame.index) (by simp [hc,CapturePoint.held])
      refine ⟨hd,hq,fun hmem => he ?_⟩
      cases hp : s.encode <;> simp_all [EncodePoint.inUse,EncodePoint.held]
    | _ => simp [released,hc,CapturePoint.releasing] at hr
  | encodeRelease =>
    cases he : s.encode with
    | release frame encoded =>
      simp only [released,he,EncodePoint.releasing,Option.some.injEq] at hr
      subst b
      obtain ⟨hd,hq,_⟩ := hs.apart_of_encode (b := frame.index) (by simp [he,EncodePoint.held])
      exact ⟨hd,hq,by simp [EncodePoint.inUse]⟩
    | _ => simp [released,he,EncodePoint.releasing] at hr
  | _ => simp [released] at hr

private theorem driver_acquired (hs : s.Inv) (h : VideoEffect s event t)
    (ha : acquired (s,event) = some b) : b ∈ s.cap.driver ∧ b ∉ t.cap.driver := by
  cases h with
  | acquired frame hc hd =>
    obtain rfl : frame.index = b := Option.some.inj ha
    exact ⟨hd,hs.driver_nodup.not_mem_erase⟩
  | _ => simp [acquired] at ha

private theorem driver_released (h : VideoEffect s event t)
    (hr : released (s,event) = some b) : b ∈ t.cap.driver := by
  cases h with
  | captureReleased frame hc =>
    simp only [released,hc,CapturePoint.releasing,Option.some.injEq] at hr
    simp [hr]
  | encodeReleased frame encoded stats he =>
    simp only [released,he,EncodePoint.releasing,Option.some.injEq] at hr
    simp [hr]
  | _ => simp [released] at hr

private theorem driver_otherwise (h : VideoEffect s event t)
    (ha : acquired (s,event) ≠ some b) (hr : released (s,event) ≠ some b) :
    b ∈ t.cap.driver ↔ b ∈ s.cap.driver := by
  cases h with
  | acquired frame hc hd =>
    have hne : b ≠ frame.index := by
      intro heq
      subst heq
      exact ha rfl
    simp [List.mem_erase_of_ne hne]
  | captureReleased frame hc =>
    have hne : b ≠ frame.index := by
      intro heq
      subst heq
      exact hr (by simp [released,hc,CapturePoint.releasing])
    simp [hne]
  | encodeReleased frame encoded stats he =>
    have hne : b ≠ frame.index := by
      intro heq
      subst heq
      exact hr (by simp [released,he,EncodePoint.releasing])
    simp [hne]
  | _ => exact Iff.rfl

/-- Each capture buffer is always in exactly one place and is released exactly once between two
acquisitions, never while it is queued or in use, and a capture task that waits for a frame finds
the driver with a buffer to fill. -/
theorem captureBuffers_conserved (hn : 3 ≤ n) (width height : Nat)
    (events : List (VideoEvent n m)) (s : VideoTasks n m)
    (hrun : runEvents videoStep (start n m width height) events = some s) :
    (∀ b, s.cap.driver.count b + s.capture.held.count b + s.queued.count b +
      s.encode.held.count b = 1) ∧
    (∀ before between after a c b,
      moments videoStep (start n m width height) events = before ++ a :: between ++ c :: after →
      acquired a = some b → acquired c = some b → (∀ moment ∈ between, acquired moment ≠ some b) →
      between.countP (fun moment => released moment = some b) = 1) ∧
    (∀ moment ∈ moments videoStep (start n m width height) events, ∀ b, released moment = some b →
      b ∉ moment.1.cap.driver ∧ b ∉ moment.1.queued ∧ b ∉ moment.1.encode.inUse) ∧
    (s.capture = .acquire → s.cap.driver ≠ []) := by
  have hs : s.Inv := runEvents_invariant Inv.step (Inv.start width height) hrun
  refine ⟨hs.count,?_,?_,?_⟩
  · intro before between after a c b hsplit ha hc hnone
    refine put_once_between_takes (fun s => b ∉ s.cap.driver) Inv.step ?_ ?_ ?_
      (Inv.start width height) hrun hsplit ha hc hnone
    · intro s event t hs hstep ha
      obtain ⟨hmem,hnot⟩ := driver_acquired hs (videoStep_effect hstep) ha
      exact ⟨not_not.mpr hmem,hnot⟩
    · intro s event t hs hstep hr
      exact ⟨(released_apart hs hr).1,not_not.mpr (driver_released (videoStep_effect hstep) hr)⟩
    · intro s event t hs hstep ha hr
      exact not_congr (driver_otherwise (videoStep_effect hstep) ha hr)
  · intro moment hmem b hr
    have hmoment : moment.1.Inv :=
      (mem_moments_reachable hmem).invariant Inv.step (Inv.start width height)
    exact released_apart hmoment hr
  · intro hwait hnil
    have hlen := hs.length
    have hqueue := hs.queueLen
    have hheld := s.encode.held_length_le
    rw [hwait,hnil] at hlen
    simp only [CapturePoint.held,List.length_nil,videoQueueLen] at hlen hqueue
    omega

/-- Buffer 0 goes to the encode task and back, and is dequeued a second time. -/
def roundTrip : List (VideoEvent 3 1) :=
  [.dqbuf (some ⟨0,3110400,0⟩),.pace,.queueSend,.receive,.keyframe false false,
    .feedDetector .submitted,.overlay,.encode ⟨true,some ⟨Fin.last 0,20000,false⟩,true⟩,
    .encodeRelease,.dqbuf (some ⟨0,3110400,83333⟩)]

theorem captureBuffers_conserved_roundTrip : ∃ s : VideoTasks 3 1,
    runEvents videoStep (start 3 1 1920 1080) roundTrip = some s ∧
      ∀ b, s.cap.driver.count b + s.capture.held.count b + s.queued.count b +
        s.encode.held.count b = 1 :=
  ⟨_,rfl,(captureBuffers_conserved (by decide) 1920 1080 roundTrip _ rfl).1⟩

end Conservation

end VideoTasks

end Esp32Ipc
