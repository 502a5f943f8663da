import Esp32Ipc.Framework.Pacing

/-!
# Pacing the capture task

`on_frame_grid` thins the sensor's frames out to `H264_TARGET_FPS`.
-/

namespace Esp32Ipc

open Framework

def h264TargetFps : Int := 12

def videoFrameIntervalUs : Int := 1000000 / h264TargetFps

/-- `on_frame_grid` at time `now`, with its static `next_us`. -/
def onFrameGrid (nextUs now : Int) : Bool × Int :=
  if now < nextUs then (false, nextUs)
  else if nextUs + videoFrameIntervalUs ≤ now then
    -- more than a whole interval late: restart the grid from here
    (true, now + videoFrameIntervalUs)
  else (true, nextUs + videoFrameIntervalUs)

@[simp] theorem videoFrameIntervalUs_eq : videoFrameIntervalUs = 83333 := by decide

theorem onFrameGrid_rejected {nextUs now : Int} (h : (onFrameGrid nextUs now).1 = false) :
    now < nextUs ∧ (onFrameGrid nextUs now).2 = nextUs := by
  unfold onFrameGrid at h ⊢
  split at h
  next hlt => exact ⟨hlt,by rw [if_pos hlt]⟩
  next hge => split at h <;> simp at h

theorem onFrameGrid_of_le {nextUs now : Int} (h : nextUs ≤ now) :
    onFrameGrid nextUs now = (true,(onFrameGrid nextUs now).2) := by
  unfold onFrameGrid
  rw [if_neg (not_lt.mpr h)]
  split <;> rfl

/-- An accepted call moves the grid on by one slot, or restarts it when that would not catch up. -/
theorem onFrameGrid_accepted {nextUs now : Int} (h : (onFrameGrid nextUs now).1 = true) :
    nextUs ≤ now ∧ (now < nextUs + videoFrameIntervalUs ∧
        (onFrameGrid nextUs now).2 = nextUs + videoFrameIntervalUs ∨
      nextUs + videoFrameIntervalUs ≤ now ∧
        (onFrameGrid nextUs now).2 = now + videoFrameIntervalUs) := by
  unfold onFrameGrid at h ⊢
  split at h
  next hlt => simp at h
  next hge =>
    refine ⟨by omega,?_⟩
    rw [if_neg hge]
    split
    next hlate => exact .inr ⟨hlate,rfl⟩
    next htime => exact .inl ⟨by omega,rfl⟩

section Pacing

/-- Calls of `on_frame_grid` one after the other, each with the `next_us` it leaves. -/
def frameGridCalls : Int → List Int → List PacedCall
  | _, [] => []
  | nextUs, now :: nows =>
    let (passed, next) := onFrameGrid nextUs now
    ⟨now,passed,next⟩ :: frameGridCalls next nows

theorem onFrameGrid_from (nextUs now : Int) :
    (⟨now,(onFrameGrid nextUs now).1,(onFrameGrid nextUs now).2⟩ : PacedCall).From
      videoFrameIntervalUs nextUs := by
  cases hpassed : (onFrameGrid nextUs now).1 with
  | false =>
    obtain ⟨hearly,hsame⟩ := onFrameGrid_rejected hpassed
    exact .held rfl hearly hsame
  | true =>
    obtain ⟨hdue,⟨hearly,hmoved⟩ | ⟨hlate,hmoved⟩⟩ := onFrameGrid_accepted hpassed
    · exact .onTime rfl hdue hearly hmoved
    · exact .late rfl hlate hmoved

theorem frameGridCalls_run (nextUs : Int) (nows : List Int) :
    PacedRun videoFrameIntervalUs nextUs (frameGridCalls nextUs nows) := by
  induction nows generalizing nextUs with
  | nil => trivial
  | cons now nows ih => exact ⟨onFrameGrid_from nextUs now,ih _⟩

theorem frameGridCalls_now (nextUs : Int) (nows : List Int) :
    (frameGridCalls nextUs nows).map (·.now) = nows := by
  induction nows generalizing nextUs with
  | nil => rfl
  | cons now nows ih => exact congrArg (now :: ·) (ih _)

/-- No calls of a run pass more often than the frame rate allows, however late or bunched they are;
the first call passes, as the clock starts from zero; and calls no more than an interval apart keep the
grid: it is never restarted, each slot left behind has passed one call, and the number passed keeps up
with the time. -/
theorem frameGrid_rate (nows : List Int) (hsorted : nows.Pairwise (· ≤ ·)) :
    (∀ first rest, (first :: rest).Sublist (passedCalls (frameGridCalls 0 nows)) →
      ((first :: rest).length : Int) ≤
        ⌈((((first :: rest).getLast (List.cons_ne_nil first rest)).now - first.now : Int) : ℚ) /
          videoFrameIntervalUs⌉ + 1) ∧
    (∀ now rest, nows = now :: rest → 0 ≤ now →
      ∃ next calls, frameGridCalls 0 nows = ⟨now,true,next⟩ :: calls) ∧
    ∀ before first after, frameGridCalls 0 nows = before ++ first :: after → first.passed = true →
      (first :: after).IsChain (fun a b => b.now ≤ a.now + videoFrameIntervalUs) →
      (first :: after).IsChain (fun a b => ¬a.next + videoFrameIntervalUs ≤ b.now) ∧
      (∀ m : Nat, first.next + (m + 1) * videoFrameIntervalUs ≤
          ((first :: after).getLast (List.cons_ne_nil first after)).now →
        (first :: after).countP (·.inSlot videoFrameIntervalUs first.next m) = 1) ∧
      ∀ seen c later, first :: after = seen ++ c :: later →
        |((seen ++ [c]).countP (·.passed) : ℚ) -
          ((c.now - first.now : Int) : ℚ) / videoFrameIntervalUs| < 2 := by
  have hrun := frameGridCalls_run 0 nows
  refine ⟨fun first rest hsub => hrun.burst (by decide) hsub,?_,?_⟩
  · rintro now rest rfl hnow
    refine ⟨(onFrameGrid 0 now).2,frameGridCalls (onFrameGrid 0 now).2 rest,?_⟩
    rw [frameGridCalls,onFrameGrid_of_le hnow]
  intro before first after hcalls hpassed hgaps
  have hsteady : Steady videoFrameIntervalUs (first :: after) := by
    have hmap : nows = before.map (·.now) ++ (first :: after).map (·.now) := by
      rw [← List.map_append,← hcalls,frameGridCalls_now]
    rw [hmap] at hsorted
    exact steady_of_sorted (List.pairwise_append.mp hsorted).2.1 hgaps
  rw [hcalls] at hrun
  obtain ⟨⟨next,hfrom⟩,hafter⟩ := hrun.from_mem
  have hpace := hfrom.inPace_of_passed (by decide) hpassed
  refine ⟨hafter.onGrid hpace hsteady,?_,?_⟩
  · intro m hm
    exact hafter.slot_behind (by decide) hpace hsteady hm
  · intro seen c later hsplit
    exact hafter.drift (by decide) hpassed hpace hsteady hsplit

/-- Frames of a 30 fps sensor, the first one late enough to restart the grid. -/
def sensorCalls : List Int := [100000,133333,166666,200000,233333,266666]

/-- The first of them and what follows it. -/
def sensorFirst : PacedCall := ⟨100000,true,183333⟩

def sensorAfter : List PacedCall :=
  [⟨133333,false,183333⟩,⟨166666,false,183333⟩,⟨200000,true,266666⟩,⟨233333,false,266666⟩,
    ⟨266666,true,349999⟩]

theorem frameGrid_rate_sensor :
    ((sensorFirst :: passedCalls sensorAfter).length : Int) ≤
      ⌈((((sensorFirst :: passedCalls sensorAfter).getLast (List.cons_ne_nil _ _)).now -
        sensorFirst.now : Int) : ℚ) / videoFrameIntervalUs⌉ + 1 ∧
    (∃ next calls, frameGridCalls 0 sensorCalls = ⟨100000,true,next⟩ :: calls) ∧
    (sensorFirst :: sensorAfter).IsChain (fun a b => ¬a.next + videoFrameIntervalUs ≤ b.now) ∧
    (sensorFirst :: sensorAfter).countP (·.inSlot videoFrameIntervalUs sensorFirst.next 0) = 1 ∧
    ∀ seen c later, sensorFirst :: sensorAfter = seen ++ c :: later →
      |((seen ++ [c]).countP (·.passed) : ℚ) -
        ((c.now - sensorFirst.now : Int) : ℚ) / videoFrameIntervalUs| < 2 := by
  have hcalls : frameGridCalls 0 sensorCalls = sensorFirst :: sensorAfter := by decide
  have hpassed : (sensorFirst :: passedCalls sensorAfter).Sublist
      (passedCalls (frameGridCalls 0 sensorCalls)) := by decide
  have hgaps : (sensorFirst :: sensorAfter).IsChain fun a b => b.now ≤ a.now + videoFrameIntervalUs := by
    decide
  obtain ⟨hburst,hfirst,hgrid⟩ := frameGrid_rate sensorCalls (by decide)
  obtain ⟨hchain,hslot,hdrift⟩ := hgrid [] sensorFirst sensorAfter hcalls rfl hgaps
  exact ⟨hburst _ _ hpassed,hfirst 100000 _ rfl (by decide),hchain,hslot 0 (by decide),hdrift⟩

end Pacing

end Esp32Ipc
