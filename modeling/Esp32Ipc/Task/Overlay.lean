import Esp32Ipc.Core.OsdRows
import Esp32Ipc.Hal.VideoCapture

/-!
# Publishing the overlay

After the boxes are drawn, the encode task writes back the dirty rows, one `esp_cache_msync` for
each range.
-/

namespace Esp32Ipc

open Framework

variable {n : Nat}

/-- The loop of `overlay_boxes`, with the regions that reach `esp_cache_msync`. -/
def publishRanges (cap : Vcap n) (dirty : OsdDirty) : Nat → Nat → Option (List (Int × Int))
  | 0, _ => some []
  | fuel + 1, i =>
    if i < dirty.count then
      (dirty.get i).bind fun r =>
        (publishRanges cap dirty fuel (i + 1)).map fun regions =>
          (halVcapPublishRows cap r.first r.last).toList ++ regions
    else some []

/-- `overlay_boxes`, with the boxes that `get_boxes` copied out. `dirty` is not initialised. -/
def overlayBoxes (cap : Vcap n) (width height scaleX scaleY : Int) (boxes : List DetBox)
    (buf : Frame) (dirty : OsdDirty) : Option (Frame × List (Int × Int)) :=
  (osdDrawBoxesYuv420 buf width height boxes scaleX scaleY dirty).bind fun (buf, dirty) =>
    (publishRanges cap dirty dirty.count 0).map fun regions => (buf, regions)

/-- Offset and length of the rows of a span. -/
def rowRegion (stride : Int) (r : OsdRows) : Int × Int :=
  (r.first * stride, (r.last - r.first + 1) * stride)

def InRegion (region : Int × Int) (o : Int) : Prop := region.1 ≤ o ∧ o < region.1 + region.2

instance (region : Int × Int) (o : Int) : Decidable (InRegion region o) :=
  inferInstanceAs (Decidable (region.1 ≤ o ∧ o < region.1 + region.2))

theorem inRegion_iff {stride : Int} (hstride : 0 < stride) (r : OsdRows) (o : Int) :
    InRegion (rowRegion stride r) o ↔ r.Has (o / stride) := by
  have hend : r.first * stride + (r.last - r.first + 1) * stride = (r.last + 1) * stride := by ring
  rw [InRegion,rowRegion,hend,Span.Has,Int.le_ediv_iff_mul_le hstride,
    ← Int.lt_add_one_iff (a := o / stride),Int.ediv_lt_iff_lt_mul hstride]

section Published

variable {dirty : OsdDirty} {l : List OsdRows}

theorem publishRanges_eq (cap : Vcap n) (hinside : ∀ r ∈ l, 0 ≤ r.first ∧ r.first ≤ r.last ∧
      r.last ≤ (cap.height : Int) - 1) (fuel i : Nat) (hat : dirty.At i l)
    (hcount : dirty.count = i + l.length) (hfuel : l.length ≤ fuel) :
    publishRanges cap dirty fuel i = some (l.map (rowRegion cap.stride)) := by
  induction l generalizing fuel i with
  | nil =>
    cases fuel with
    | zero => rfl
    | succ fuel => exact if_neg (by simp [hcount])
  | cons r l ih =>
    rw [List.length_cons] at hcount hfuel
    cases fuel with
    | zero => exact absurd hfuel (by omega)
    | succ fuel =>
      obtain ⟨hfirst,hle,hlast⟩ := hinside r List.mem_cons_self
      have hrest := ih (fun s hs => hinside s (List.mem_cons_of_mem _ hs)) fuel (i + 1) hat.2
        (by omega) (by omega)
      rw [publishRanges,if_pos (by omega),hat.1,Option.bind_some,hrest,
        halVcapPublishRows_inside hfirst hle hlast]
      rfl

end Published

section Overlay

variable {width height scaleX scaleY : Int}

/-- The dirty list is the canonical form of the rows written, whichever order the boxes come in,
and the regions published hold every byte written exactly once. -/
theorem overlayBoxes_publishes (cap : Vcap n) (heven : width % 2 = 0)
    (hheight : (cap.height : Int) = height) (hstride : (cap.stride : Int) = width + width / 2)
    {boxes : List DetBox} (hboxes : boxes.length ≤ detMaxBox) (cell : Int → UInt8) (dirty : OsdDirty) :
    ∃ buf' dirty' l,
      osdDrawBoxesYuv420 ⟨cell,[]⟩ width height boxes scaleX scaleY dirty = some (buf',dirty') ∧
      dirty'.Holds l ∧ DirtyRows (width + width / 2) height buf' l ∧
      (∀ boxes' : List DetBox, boxes'.Perm boxes → ∃ buf'' dirty'',
        osdDrawBoxesYuv420 ⟨cell,[]⟩ width height boxes' scaleX scaleY dirty =
          some (buf'',dirty'') ∧ dirty''.Holds l) ∧
      overlayBoxes cap width height scaleX scaleY boxes ⟨cell,[]⟩ dirty =
        some (buf',l.map (rowRegion cap.stride)) ∧
      ∀ o ∈ buf'.stored,
        (l.map (rowRegion cap.stride)).countP (fun region => decide (InRegion region o)) = 1 := by
  obtain ⟨buf',dirty',hcall,hdraws,hholds⟩ :=
    osdDrawBoxes_spec heven height scaleX scaleY boxes ⟨cell,[]⟩ dirty
  have hrows := boxBands_dirtyRows heven hboxes hdraws
  refine ⟨buf',dirty',_,hcall,hholds,hrows,?_,?_,?_⟩
  · intro boxes' hperm
    obtain ⟨buf'',dirty'',hcall',_,hholds'⟩ :=
      osdDrawBoxes_spec heven height scaleX scaleY boxes' ⟨cell,[]⟩ dirty
    rw [boxBands_perm width height scaleX scaleY hboxes hperm] at hholds'
    exact ⟨buf'',dirty'',hcall',hholds'⟩
  · have hpublish := publishRanges_eq cap (by rw [hheight]; exact hrows.inside) dirty'.count 0
      hholds.entries (by rw [hholds.count,zero_add]) hholds.count.ge
    rw [overlayBoxes,hcall,Option.bind_some]
    dsimp only
    rw [hpublish]
    rfl
  · intro o ho
    obtain ⟨p,⟨_,_,hmark⟩,hbyte⟩ | hold := (hdraws.stored o).mp ho
    · obtain ⟨hlow,hhigh⟩ := (mark_inside hmark).1
      have hpos : 0 < width + width / 2 := by omega
      have hrow : Covers _ (o / (width + width / 2)) :=
        (hrows.written _).mpr ⟨o,ho,(rowBytes_iff hpos).mpr rfl⟩
      rw [List.countP_map,hstride,← hrows.separated.countP_has hrow]
      congr 1
      funext r
      exact decide_eq_decide.mpr (inRegion_iff hpos r o)
    · exact absurd hold List.not_mem_nil

/-- Two boxes whose bands abut, on the frame that `hal_vcap_open` describes. -/
theorem overlayBoxes_publishes_twoBoxes : ∃ buf' dirty' l,
    osdDrawBoxesYuv420 ⟨fun _ => 0,[]⟩ 8 6 [⟨1,1,6,5,0⟩,⟨9,3,2,-4,0⟩] 1 1 ⟨0,fun _ => ⟨0,0⟩⟩ =
      some (buf',dirty') ∧
    dirty'.Holds l ∧ DirtyRows 12 6 buf' l ∧
    (∀ boxes' : List DetBox, boxes'.Perm [⟨1,1,6,5,0⟩,⟨9,3,2,-4,0⟩] → ∃ buf'' dirty'',
      osdDrawBoxesYuv420 ⟨fun _ => 0,[]⟩ 8 6 boxes' 1 1 ⟨0,fun _ => ⟨0,0⟩⟩ =
        some (buf'',dirty'') ∧ dirty''.Holds l) ∧
    overlayBoxes (halVcapOpen 3 8 6) 8 6 1 1 [⟨1,1,6,5,0⟩,⟨9,3,2,-4,0⟩] ⟨fun _ => 0,[]⟩
      ⟨0,fun _ => ⟨0,0⟩⟩ = some (buf',l.map (rowRegion 12)) ∧
    ∀ o ∈ buf'.stored,
      (l.map (rowRegion 12)).countP (fun region => decide (InRegion region o)) = 1 :=
  overlayBoxes_publishes (halVcapOpen 3 8 6) (by decide) rfl rfl (by decide) (fun _ => 0)
    ⟨0,fun _ => ⟨0,0⟩⟩

end Overlay

end Esp32Ipc
