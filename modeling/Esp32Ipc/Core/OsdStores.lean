import Esp32Ipc.Core.OsdMarks

/-!
# The stores of the rasteriser

The drawing functions never read the frame: which bytes they store, in which order and with which
values, is settled by the boxes alone.
-/

namespace Esp32Ipc

open Framework

section Runs

variable (stride x x1 x2 y y1 y2 : Int) (yc uc vc : UInt8)

theorem drawGroups_replays (line : Int) (c : UInt8) (fuel : Nat) :
    ∃ x', ∃ f : Frame → Frame, Replays f ∧ ∀ buf, drawGroups line x2 yc c fuel x buf = (x',f buf) := by
  induction fuel generalizing x with
  | zero => exact ⟨x,fun buf => buf,.none,fun _ => rfl⟩
  | succ fuel ih =>
    by_cases hgroup : x + 1 ≤ x2
    · obtain ⟨x',f,hf,hloop⟩ := ih (x + 2)
      refine ⟨x',_,(((Replays.store (line + x / 2 * 3) c).comp (.store (line + x / 2 * 3 + 1) yc)).comp
        (.store (line + x / 2 * 3 + 2) yc)).comp hf,?_⟩
      intro buf
      rw [drawGroups,if_pos hgroup]
      exact hloop _
    · refine ⟨x,fun buf => buf,.none,?_⟩
      intro buf
      rw [drawGroups,if_neg hgroup]

theorem drawHrun_replays : Replays fun buf => drawHrun buf stride y x1 x2 yc uc vc := by
  -- the trailing pixel
  have htail : ∀ x, Replays fun buf : Frame => if x = x2 then
      (buf.store (y * stride + x / 2 * 3) (if y % 2 = 1 then vc else uc)).store
        (y * stride + x / 2 * 3 + 1) yc else buf := by
    intro x
    by_cases hx : x = x2
    · simp only [if_pos hx]
      exact (Replays.store _ _).comp (.store _ _)
    · simp only [if_neg hx]
      exact .none
  by_cases hodd : x1 % 2 = 1
  · obtain ⟨x',f,hf,hloop⟩ := drawGroups_replays (x1 + 1) x2 yc (y * stride)
      (if y % 2 = 1 then vc else uc) (x2 - (x1 + 1) + 1).toNat
    simp only [drawHrun,if_pos hodd,hloop]
    exact (((Replays.store _ _).comp (.store _ _)).comp hf).comp (htail x')
  · obtain ⟨x',f,hf,hloop⟩ := drawGroups_replays x1 x2 yc (y * stride)
      (if y % 2 = 1 then vc else uc) (x2 - x1 + 1).toNat
    simp only [drawHrun,if_neg hodd,hloop]
    exact hf.comp (htail x')

theorem drawColumn_replays (luma : Int) (fuel : Nat) (p : Int) :
    Replays fun buf => drawColumn stride luma y2 yc uc vc fuel y p buf := by
  induction fuel generalizing y p with
  | zero => exact .none
  | succ fuel ih =>
    by_cases hy : y ≤ y2
    · simp only [drawColumn,if_pos hy]
      exact ((Replays.store _ _).comp (.store _ _)).comp (ih _ _)
    · simp only [drawColumn,if_neg hy]
      exact .none

theorem drawVrun_replays : Replays fun buf => drawVrun buf stride x y1 y2 yc uc vc :=
  drawColumn_replays stride y1 y2 yc uc vc (1 + x % 2) _ _

end Runs

section Boxes

variable {width height scaleX scaleY : Int}

theorem drawStrokes_replays (stride : Int) (b : ClippedBox) : Replays fun buf => drawStrokes buf stride b := by
  apply Replays.foldl
  intro t _
  have hrow := fun y x1 x2 => drawHrun_replays stride x1 x2 y osdY osdU osdV
  have hcolumn := fun x y1 y2 => drawVrun_replays stride x y1 y2 osdY osdU osdV
  have hrows := (((hrow (b.cy1 + t) b.cx1 (b.cx1 + b.arm)).comp (hrow (b.cy1 + t) (b.cx2 - b.arm) b.cx2)).comp
    (hrow (b.cy2 - t) b.cx1 (b.cx1 + b.arm))).comp (hrow (b.cy2 - t) (b.cx2 - b.arm) b.cx2)
  exact (((hrows.comp (hcolumn (b.cx1 + t) b.cy1 (b.cy1 + b.arm))).comp
    (hcolumn (b.cx1 + t) (b.cy2 - b.arm) b.cy2)).comp (hcolumn (b.cx2 - t) b.cy1 (b.cy1 + b.arm))).comp
    (hcolumn (b.cx2 - t) (b.cy2 - b.arm) b.cy2)

theorem drawCorners_replays (width height x1 y1 x2 y2 : Int) (dirty : OsdDirty) :
    ∃ f : Frame → Frame, Replays f ∧ ∃ dirty', ∀ buf,
      drawCorners buf width height x1 y1 x2 y2 dirty = Option.map (fun d => (f buf,d)) dirty' := by
  simp only [drawCorners_eq]
  by_cases hv : (clipBox width height x1 y1 x2 y2).Visible
  · simp only [if_pos hv]
    generalize clipBox width height x1 y1 x2 y2 = b
    refine ⟨_,drawStrokes_replays (width + width / 2) b,(dirtyAdd dirty b.cy1 (b.cy1 + b.arm)).bind fun dirty =>
      dirtyAdd dirty (b.cy2 - b.arm) b.cy2,?_⟩
    intro buf
    rw [Option.map_bind]
    congr 1
    funext dirty
    exact (Option.map_eq_bind).symm
  · simp only [if_neg hv]
    exact ⟨fun buf => buf,.none,some dirty,fun _ => rfl⟩

theorem drawBoxes_replays (width height scaleX scaleY : Int) (boxes : List DetBox) (dirty : OsdDirty) :
    ∃ f : Frame → Frame, Replays f ∧ ∃ dirty', ∀ buf,
      drawBoxes width height scaleX scaleY boxes buf dirty = Option.map (fun d => (f buf,d)) dirty' := by
  induction boxes generalizing dirty with
  | nil => exact ⟨fun buf => buf,.none,some dirty,fun _ => rfl⟩
  | cons box boxes ih =>
    obtain ⟨f,hf,dirty₁,hcorners⟩ := drawCorners_replays width height
      (box.x1 * scaleX) (box.y1 * scaleY) (box.x2 * scaleX) (box.y2 * scaleY) dirty
    cases dirty₁ with
    | none =>
      refine ⟨f,hf,none,?_⟩
      intro buf
      rw [drawBoxes,hcorners]
      rfl
    | some dirty₁ =>
      obtain ⟨g,hg,dirty₂,hrest⟩ := ih dirty₁
      refine ⟨_,hf.comp hg,dirty₂,?_⟩
      intro buf
      rw [drawBoxes,hcorners]
      exact hrest (f buf)

/-- What `osd_draw_boxes_yuv420` does to any frame is the list of stores that it does to an empty
one. -/
theorem osdDrawBoxes_replays {boxes : List DetBox} {dirty dirty' : OsdDirty} {cell : Int → UInt8} {buf' : Frame}
    (h : osdDrawBoxesYuv420 ⟨cell,[]⟩ width height boxes scaleX scaleY dirty = some (buf',dirty')) (buf : Frame) :
    osdDrawBoxesYuv420 buf width height boxes scaleX scaleY dirty = some (buf.replay buf'.stores,dirty') := by
  obtain ⟨f,hf,dirty₁,hdraw⟩ := drawBoxes_replays width height scaleX scaleY boxes
    { dirty with count := 0 }
  obtain ⟨d,rfl,hresult⟩ := Option.map_eq_some_iff.mp ((hdraw _).symm.trans h)
  cases hresult
  rw [← hf.eq_stores cell buf]
  exact hdraw buf

/-- A frame with the marks of the boxes painted, pixel by pixel. -/
def markedFrame (width height scaleX scaleY : Int) (boxes : List DetBox) (cell : Int → UInt8) : Int → UInt8 :=
  ((markedPixels width height scaleX scaleY boxes).foldl (paintPixel (width + width / 2)) ⟨cell,[]⟩).cell

theorem stores_mark (heven : width % 2 = 0) {boxes : List DetBox} {dirty dirty' : OsdDirty}
    {cell : Int → UInt8} {buf' : Frame}
    (h : osdDrawBoxesYuv420 ⟨cell,[]⟩ width height boxes scaleX scaleY dirty = some (buf',dirty'))
    (frame : Int → UInt8) :
    ((⟨frame,[]⟩ : Frame).replay buf'.stores).cell = markedFrame width height scaleX scaleY boxes frame := by
  obtain ⟨buf,d,hcall,hdraws,-⟩ :=
    osdDrawBoxes_spec heven height scaleX scaleY boxes ⟨frame,[]⟩ dirty
  have hreplay := (osdDrawBoxes_replays h ⟨frame,[]⟩).symm.trans hcall
  have hpixels : {p | ∃ box ∈ boxes, (box.clipped width height scaleX scaleY).Mark p} =
      {p | p ∈ markedPixels width height scaleX scaleY boxes} := by
    ext p
    exact (mem_markedPixels boxes p).symm
  have hpaint := paintPixels_draws heven (markedPixels width height scaleX scaleY boxes) (fun p hp => by
    obtain ⟨box,_,hmark⟩ := (mem_markedPixels boxes p).mp hp
    exact (mark_inside hmark).1) ⟨frame,[]⟩
  cases hreplay
  exact Paints.unique (hdraws.congr hpixels) hpaint

end Boxes

end Esp32Ipc
