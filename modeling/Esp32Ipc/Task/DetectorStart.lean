import Esp32Ipc.Core.FramePoolLedger
import Esp32Ipc.Core.Osd
import Esp32Ipc.Task.DetectorFeed

/-!
# Starting the detector

`ped_start` acquires the feed pool, the box mutex, the model and the task, one after the other, and
returns at the first that is refused. `video_encode_task` goes on calling the detector either way.
-/

namespace Esp32Ipc

open Framework

variable {n : Nat}

/-- The statics of the detector; mutex and model are named by their blocks. `boxes` are the first
`s_box_count` entries of `s_boxes`. -/
structure PedDetect (n : Nat) where
  boxMutex : Option Nat
  boxes : List DetBox
  detect : Option Nat
  feed : Option (FramePool n)

/-- Before `ped_start`. -/
def pedStatics : PedDetect n := ⟨none,[],none,none⟩

/-- `ped_start`. Each creation is one request: the mutex, the model object and the task. -/
def pedStart (cfg : FramePoolCfg) (s : PedDetect cfg.elemNum.toNat) (heap : Heap) :
    EspErr × PedDetect cfg.elemNum.toNat × Heap :=
  match framePoolNew cfg heap with
  | (.ok, feed, heap) =>
    let s := { s with feed := feed }
    match heap.alloc with
    | (none, heap) => (.noMem, { s with boxMutex := none }, heap)
    | (some mutex, heap) =>
      let s := { s with boxMutex := some mutex }
      match heap.alloc with
      | (none, heap) => (.noMem, { s with detect := none }, heap)
      | (some detect, heap) =>
        let s := { s with detect := some detect }
        match heap.alloc with
        | (none, heap) => (.fail, s, heap)
        | (some _, heap) => (.ok, s, heap)
  -- `s_feed` is not written
  | (_, _, heap) => (.noMem, s, heap)

/-- `ped_acquire_input`: `in->token`, or `none` for false. -/
def pedAcquireInput (s : PedDetect n) : Option (Fin n) × PedDetect n :=
  ((framePoolAcquire s.feed).1, { s with feed := (framePoolAcquire s.feed).2 })

def pedSubmit (s : PedDetect n) (token : Fin n) : PedDetect n :=
  { s with feed := (framePoolSubmit s.feed (some token)).2 }

/-- `ped_discard`; the element behind the token knows its index. -/
def pedDiscard (s : PedDetect n) (token : Fin n) : PedDetect n :=
  match s.feed with
  | none => s
  | some pool => { s with feed := (framePoolRelease s.feed (pool.element token).index).2 }

/-- `ped_get_boxes`: the boxes copied out. -/
def pedGetBoxes (s : PedDetect n) (max : Nat) : List DetBox :=
  match s.boxMutex with
  | none => []
  | some _ => s.boxes.take max

/-- `video_encode_task` as the detector sees it. `conversions` counts the calls of
`hal_ppa_yuv420_to_rgb565`. -/
structure DetectorClient (n : Nat) where
  ped : PedDetect n
  frameNo : UInt32
  conversions : Nat

def DetectorClient.start (ped : PedDetect n) : DetectorClient n := ⟨ped,0,0⟩

/-- `feed_detector`, run to its end; `converted` is the outcome of the conversion. -/
def feedDetector (s : DetectorClient n) (converted : Bool) : DetectorClient n :=
  let skip := s.frameNo % UInt32.ofNat detFeedEveryN ≠ 0
  let s := { s with frameNo := s.frameNo + 1 }
  if skip then s
  else
    match pedAcquireInput s.ped with
    | (none, ped) => { s with ped := ped }
    | (some token, ped) =>
      let s := { s with conversions := s.conversions + 1 }
      if converted then { s with ped := pedSubmit ped token }
      else { s with ped := pedDiscard ped token }

/-- What the encode loop calls; `overlay_boxes` only reads. -/
inductive DetectorCall where
  | feedDetector (converted : Bool)
  | getBoxes (max : Nat)
  deriving DecidableEq, Repr

def detectorCallStep (s : DetectorClient n) : DetectorCall → Option (DetectorClient n)
  | .feedDetector converted => some (feedDetector s converted)
  | .getBoxes _ => some s

/-- Nothing is left of a start that failed, and no later call finds anything. -/
structure NothingStarted (heap heap' : Heap) (s : PedDetect n) : Prop where
  live : heap'.live = heap.live
  faults : heap'.faults = heap.faults
  feed : s.feed = none
  boxMutex : s.boxMutex = none
  detect : s.detect = none
  calls : ∀ calls t, runEvents detectorCallStep (DetectorClient.start s) calls = some t →
    (pedAcquireInput t.ped).1 = none ∧ (∀ max, pedGetBoxes t.ped max = []) ∧ t.conversions = 0

section Calls

/-- The detector has no pool and no mutex, and nothing was converted. -/
private def Idle (s : DetectorClient n) : Prop :=
  s.ped.feed = none ∧ s.ped.boxMutex = none ∧ s.conversions = 0

private theorem idle_step (s : DetectorClient n) (call : DetectorCall) (t : DetectorClient n)
    (h : Idle s) (hstep : detectorCallStep s call = some t) : Idle t := by
  obtain ⟨hfeed,hmutex,hconversions⟩ := h
  cases call with
  | getBoxes max =>
    obtain rfl := Option.some.inj hstep
    exact ⟨hfeed,hmutex,hconversions⟩
  | feedDetector converted =>
    obtain rfl := Option.some.inj hstep
    have hacquire : pedAcquireInput s.ped = (none,s.ped) := by
      have hped : s.ped = { s.ped with feed := none } := by rw [← hfeed]
      rw [hped]
      rfl
    simp only [feedDetector,hacquire]
    split
    · exact ⟨hfeed,hmutex,hconversions⟩
    · exact ⟨hfeed,hmutex,hconversions⟩

private theorem idle_calls {s : PedDetect n} (hfeed : s.feed = none) (hmutex : s.boxMutex = none)
    {calls : List DetectorCall} {t : DetectorClient n}
    (hrun : runEvents detectorCallStep (DetectorClient.start s) calls = some t) :
    (pedAcquireInput t.ped).1 = none ∧ (∀ max, pedGetBoxes t.ped max = []) ∧
      t.conversions = 0 := by
  obtain ⟨htfeed,htmutex,hconversions⟩ := runEvents_invariant idle_step ⟨hfeed,hmutex,rfl⟩ hrun
  refine ⟨?_,?_,hconversions⟩
  · rw [pedAcquireInput,htfeed]
    rfl
  · intro max
    rw [pedGetBoxes,htmutex]

end Calls

section Start

variable {cfg : FramePoolCfg} {heap : Heap}

private theorem pedStart_refused (hpos : 0 < cfg.elemNum)
    (hrefuse : ∃ k < 3 + cfg.elemNum.toNat, heap.grants (heap.requests + k) = false) :
    ∃ heap', pedStart cfg pedStatics heap = (.noMem,pedStatics,heap') ∧
      heap'.live = heap.live ∧ heap'.faults = heap.faults := by
  obtain ⟨asked,heap',hnew,htook⟩ := framePoolNew_refused hpos hrefuse
  refine ⟨heap',?_,htook.live_eq,htook.faults⟩
  rw [pedStart,hnew]

private theorem pedStart_granted (hpos : 0 < cfg.elemNum)
    (hgrants : ∀ k < 3 + cfg.elemNum.toNat, heap.grants (heap.requests + k) = true) :
    ∃ pool ret s heap', pedStart cfg pedStatics heap = (ret,s,heap') ∧ s.feed = some pool ∧
      (ret = .ok ↔ ∀ k < 3, heap.grants (heap.requests + (3 + cfg.elemNum.toNat + k)) = true) := by
  obtain ⟨pool,heap₁,hnew,hbuilt,_⟩ := framePoolNew_granted hpos hgrants
  have hthree : (∀ k < 3, heap.grants (heap.requests + (3 + cfg.elemNum.toNat + k)) = true) ↔
      heap.grants (heap.requests + (3 + cfg.elemNum.toNat)) = true ∧
        heap.grants (heap.requests + (3 + cfg.elemNum.toNat + 1)) = true ∧
        heap.grants (heap.requests + (3 + cfg.elemNum.toNat + 1 + 1)) = true := by
    constructor
    · intro h
      exact ⟨h 0 (by decide),h 1 (by decide),h 2 (by decide)⟩
    · rintro ⟨h₀,h₁,h₂⟩ k hk
      match k with
      | 0 => exact h₀
      | 1 => exact h₁
      | 2 => exact h₂
  rw [hthree]
  cases hmutex : heap.grants (heap.requests + (3 + cfg.elemNum.toNat)) with
  | false =>
    obtain ⟨heap₂,halloc₂,_⟩ := hbuilt.took.alloc_refused hmutex
    have hcall : pedStart cfg pedStatics heap = (.noMem,⟨none,[],none,some pool⟩,heap₂) := by
      simp only [pedStart,hnew,halloc₂]
      rfl
    exact ⟨pool,_,_,_,hcall,rfl,by simp⟩
  | true =>
    obtain ⟨mutex,heap₂,halloc₂,htook₂⟩ := hbuilt.took.alloc_granted hmutex
    cases hdetect : heap.grants (heap.requests + (3 + cfg.elemNum.toNat + 1)) with
    | false =>
      obtain ⟨heap₃,halloc₃,_⟩ := htook₂.alloc_refused hdetect
      have hcall : pedStart cfg pedStatics heap = (.noMem,⟨some mutex,[],none,some pool⟩,heap₃) := by
        simp only [pedStart,hnew,halloc₂,halloc₃]
        rfl
      exact ⟨pool,_,_,_,hcall,rfl,by simp⟩
    | true =>
      obtain ⟨detect,heap₃,halloc₃,htook₃⟩ := htook₂.alloc_granted hdetect
      cases htask : heap.grants (heap.requests + (3 + cfg.elemNum.toNat + 1 + 1)) with
      | false =>
        obtain ⟨heap₄,halloc₄,_⟩ := htook₃.alloc_refused htask
        have hcall : pedStart cfg pedStatics heap =
            (.fail,⟨some mutex,[],some detect,some pool⟩,heap₄) := by
          simp only [pedStart,hnew,halloc₂,halloc₃,halloc₄]
          rfl
        exact ⟨pool,_,_,_,hcall,rfl,by simp⟩
      | true =>
        obtain ⟨task,heap₄,halloc₄,_⟩ := htook₃.alloc_granted htask
        have hcall : pedStart cfg pedStatics heap =
            (.ok,⟨some mutex,[],some detect,some pool⟩,heap₄) := by
          simp only [pedStart,hnew,halloc₂,halloc₃,halloc₄]
          rfl
        exact ⟨pool,_,_,_,hcall,rfl,by simp⟩

end Start

/-- A start that fails leaves nothing behind, and the detector quiet for ever, exactly when it fails
inside `frame_pool_new` or does not fail at all: what was acquired before a later failure stays. -/
theorem pedStart_allOrNothing_iff (cfg : FramePoolCfg) (hpos : 0 < cfg.elemNum) (heap : Heap) :
    ∃ ret s heap', pedStart cfg pedStatics heap = (ret,s,heap') ∧
      ((ret ≠ .ok → NothingStarted heap heap' s) ↔
        (∃ k < 3 + cfg.elemNum.toNat, heap.grants (heap.requests + k) = false) ∨
          ∀ k < 3, heap.grants (heap.requests + (3 + cfg.elemNum.toNat + k)) = true) := by
  by_cases hrefuse : ∃ k < 3 + cfg.elemNum.toNat, heap.grants (heap.requests + k) = false
  · obtain ⟨heap',hstart,hlive,hfaults⟩ := pedStart_refused hpos hrefuse
    refine ⟨_,_,heap',hstart,iff_of_true (fun _ => ?_) (.inl hrefuse)⟩
    exact ⟨hlive,hfaults,rfl,rfl,rfl,fun calls t hrun => idle_calls rfl rfl hrun⟩
  · have hgrants : ∀ k < 3 + cfg.elemNum.toNat, heap.grants (heap.requests + k) = true := by
      intro k hk
      by_contra hgrant
      exact hrefuse ⟨k,hk,by simpa using hgrant⟩
    obtain ⟨pool,ret,s,heap',hstart,hfeed,hret⟩ := pedStart_granted hpos hgrants
    refine ⟨ret,s,heap',hstart,?_⟩
    rw [or_iff_right hrefuse,← hret]
    constructor
    · intro h
      by_contra hfailed
      rw [(h hfailed).feed] at hfeed
      exact absurd hfeed (by simp)
    · intro hok hfailed
      exact absurd hok hfailed

/-- The second buffer of the pool is refused. -/
theorem pedStart_allOrNothing_iff_secondBuffer : ∃ ret s heap',
    pedStart feedPoolCfg pedStatics ⟨∅,0,fun k => k ≠ 4,0,by simp⟩ = (ret,s,heap') ∧
      ((ret ≠ .ok → NothingStarted ⟨∅,0,fun k => k ≠ 4,0,by simp⟩ heap' s) ↔
        (∃ k < 3 + 2, (fun k => decide (k ≠ 4)) (0 + k) = false) ∨
          ∀ k < 3, (fun k => decide (k ≠ 4)) (0 + (3 + 2 + k)) = true) :=
  pedStart_allOrNothing_iff feedPoolCfg (by decide) ⟨∅,0,fun k => k ≠ 4,0,by simp⟩

/-- The mutex is refused: the pool stays, and two of the frames that follow are converted into its
buffers although there is no task to take them. -/
theorem pedStart_halfBuilt : ∃ s heap',
    pedStart feedPoolCfg pedStatics ⟨∅,0,fun k => k ≠ 5,0,by simp⟩ = (.noMem,s,heap') ∧
      heap'.live = {0,1,2,3,4} ∧ s.feed.isSome = true ∧
      ∃ t, runEvents detectorCallStep (DetectorClient.start s) [.feedDetector true,
          .feedDetector true,.feedDetector true,.feedDetector true,.getBoxes 5] = some t ∧
        t.conversions = 2 ∧ ¬NothingStarted ⟨∅,0,fun k => k ≠ 5,0,by simp⟩ heap' s := by
  refine ⟨_,_,rfl,by decide,rfl,_,rfl,by decide,?_⟩
  intro h
  exact absurd h.feed (by decide)

end Esp32Ipc
