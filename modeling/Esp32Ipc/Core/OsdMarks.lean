import Esp32Ipc.Core.OsdDirty
import Esp32Ipc.Core.OsdRaster

/-!
# Corner marks

The bracket marks of a box as a set of pixels, and `osd_draw_boxes_yuv420` against the rule for a
single pixel.
-/

namespace Esp32Ipc

open Framework

/-- A box with its corners in order, clipped to the frame. -/
structure ClippedBox where
  cx1 : Int
  cy1 : Int
  cx2 : Int
  cy2 : Int
  deriving DecidableEq

def clipBox (width height x1 y1 x2 y2 : Int) : ClippedBox :=
  ⟨max 0 (min x1 x2),max 0 (min y1 y2),min (width - 1) (max x1 x2),min (height - 1) (max y1 y2)⟩

namespace ClippedBox

def arm (b : ClippedBox) : Int :=
  min osdCornerLen (min ((b.cx2 - b.cx1) / 2) ((b.cy2 - b.cy1) / 2))

def thick (b : ClippedBox) : Int := min osdThickness b.arm

/-- Something is drawn. -/
def Visible (b : ClippedBox) : Prop := b.cx1 ≤ b.cx2 ∧ b.cy1 ≤ b.cy2 ∧ 1 ≤ b.arm

/-- The pixels of the strokes at depth `t`. -/
def Stroke (b : ClippedBox) (t : Int) (p : Int × Int) : Prop :=
  (p.2 = b.cy1 + t ∨ p.2 = b.cy2 - t) ∧
      (b.cx1 ≤ p.1 ∧ p.1 ≤ b.cx1 + b.arm ∨ b.cx2 - b.arm ≤ p.1 ∧ p.1 ≤ b.cx2) ∨
    (p.1 = b.cx1 + t ∨ p.1 = b.cx2 - t) ∧
      (b.cy1 ≤ p.2 ∧ p.2 ≤ b.cy1 + b.arm ∨ b.cy2 - b.arm ≤ p.2 ∧ p.2 ≤ b.cy2)

def Mark (b : ClippedBox) (p : Int × Int) : Prop :=
  b.Visible ∧ ∃ t : Nat, t < b.thick.toNat ∧ b.Stroke t p

instance (b : ClippedBox) : Decidable b.Visible := inferInstanceAs (Decidable (_ ∧ _ ∧ _))

instance (b : ClippedBox) (t : Int) (p : Int × Int) : Decidable (b.Stroke t p) :=
  inferInstanceAs (Decidable (_ ∧ (_ ∨ _) ∨ _ ∧ _))

instance (b : ClippedBox) (p : Int × Int) : Decidable (b.Mark p) :=
  inferInstanceAs (Decidable (_ ∧ _))

/-- The two bands of a box, recorded one after the other. -/
def addBands (b : ClippedBox) (l : List Span) : List Span :=
  if b.Visible then addRows ⟨b.cy2 - b.arm,b.cy2⟩ (addRows ⟨b.cy1,b.cy1 + b.arm⟩ l) else l

end ClippedBox

def DetBox.clipped (box : DetBox) (width height scaleX scaleY : Int) : ClippedBox :=
  clipBox width height (box.x1 * scaleX) (box.y1 * scaleY) (box.x2 * scaleX) (box.y2 * scaleY)

/-- The strokes of `draw_corners` on a frame. -/
def drawStrokes (buf : Frame) (stride : Int) (b : ClippedBox) : Frame :=
  (List.range b.thick.toNat).foldl
    (fun buf (t : Nat) => drawArms buf stride b.cx1 b.cy1 b.cx2 b.cy2 b.arm t) buf

section Corners

variable {width height x1 y1 x2 y2 : Int} {buf : Frame} {b : ClippedBox} {dirty : OsdDirty}

theorem arm_le (b : ClippedBox) : b.arm ≤ (b.cx2 - b.cx1) / 2 ∧ b.arm ≤ (b.cy2 - b.cy1) / 2 := by
  unfold ClippedBox.arm
  omega

theorem drawCorners_eq : drawCorners buf width height x1 y1 x2 y2 dirty =
    if (clipBox width height x1 y1 x2 y2).Visible then
      let b := clipBox width height x1 y1 x2 y2
      (dirtyAdd dirty b.cy1 (b.cy1 + b.arm)).bind fun dirty =>
      (dirtyAdd dirty (b.cy2 - b.arm) b.cy2).bind fun dirty =>
        some (drawStrokes buf (width + width / 2) b,dirty)
    else some (buf,dirty) := by
  have horder : ∀ a b : Int, (if a > b then (b,a) else (a,b)) = (min a b,max a b) := by
    intro a b
    split <;> simp <;> omega
  have hlow : ∀ a : Int, (if a < 0 then 0 else a) = max 0 a := by
    intro a
    split <;> omega
  have hmin : ∀ a b : Int, (if a > b then b else a) = min b a := by
    intro a b
    split <;> omega
  have harm : ∀ b : ClippedBox, min ((b.cy2 - b.cy1) / 2) (min ((b.cx2 - b.cx1) / 2) osdCornerLen) =
      b.arm := by
    intro b
    unfold ClippedBox.arm
    omega
  have hthick : ∀ b : ClippedBox, min b.arm osdThickness = b.thick := fun b => min_comm _ _
  generalize hb : clipBox width height x1 y1 x2 y2 = b
  have hcx1 : max 0 (min x1 x2) = b.cx1 := by rw [← hb]; rfl
  have hcy1 : max 0 (min y1 y2) = b.cy1 := by rw [← hb]; rfl
  have hcx2 : min (width - 1) (max x1 x2) = b.cx2 := by rw [← hb]; rfl
  have hcy2 : min (height - 1) (max y1 y2) = b.cy2 := by rw [← hb]; rfl
  simp only [drawCorners,horder,hlow,hmin,hcx1,hcy1,hcx2,hcy2,harm,hthick]
  by_cases hv : b.Visible
  · have hthin : 1 ≤ b.thick := by
      have harm := hv.2.2
      unfold ClippedBox.thick osdThickness
      omega
    rw [if_pos hv,if_neg (by have := hv.1; have := hv.2.1; omega),
      if_neg (by have := hv.2.2; omega)]
    rfl
  · rw [if_neg hv]
    split
    · rfl
    · split
      · rfl
      next hclip harm => exact absurd ⟨by omega,by omega,by omega⟩ hv

theorem clipBox_inside (width height x1 y1 x2 y2 : Int) :
    0 ≤ (clipBox width height x1 y1 x2 y2).cx1 ∧ 0 ≤ (clipBox width height x1 y1 x2 y2).cy1 ∧
      (clipBox width height x1 y1 x2 y2).cx2 ≤ width - 1 ∧
      (clipBox width height x1 y1 x2 y2).cy2 ≤ height - 1 := by
  simp only [clipBox]
  omega

theorem drawArms_traces {R : Int → UInt8 → Prop} (hR : Allows R width osdY osdU osdV)
    (hlow : 0 ≤ b.cx1) (hhigh : b.cx2 ≤ width - 1) (hv : b.Visible) {t : Int} (ht : 0 ≤ t)
    (hthick : t < b.thick) :
    Traces R (width + width / 2) {p | b.Stroke t p} buf
      (drawArms buf (width + width / 2) b.cx1 b.cy1 b.cx2 b.cy2 b.arm t) := by
  obtain ⟨harmX,_⟩ := arm_le b
  have hpos := hv.2.2
  have htarm : t < b.arm := lt_of_lt_of_le hthick (min_le_right _ _)
  have hrun : ∀ y x1 x2 buf, 0 ≤ x1 → x1 ≤ x2 → x2 < width →
      Traces R (width + width / 2) (rowPixels y x1 (x2 + 1)) buf _ :=
    fun y x1 x2 buf => drawHrun_traces hR buf
  have hcol : ∀ x y1 y2 buf, 0 ≤ x → x < width →
      Traces R (width + width / 2) (columnPixels x y1 (y2 + 1)) buf _ :=
    fun x y1 y2 buf => drawVrun_traces hR buf
  have hrows := (((hrun (b.cy1 + t) b.cx1 (b.cx1 + b.arm) buf hlow (by omega) (by omega)).trans
    (hrun (b.cy1 + t) (b.cx2 - b.arm) b.cx2 _ (by omega) (by omega) (by omega))).trans
    (hrun (b.cy2 - t) b.cx1 (b.cx1 + b.arm) _ hlow (by omega) (by omega))).trans
    (hrun (b.cy2 - t) (b.cx2 - b.arm) b.cx2 _ (by omega) (by omega) (by omega))
  have hall := (((hrows.trans
    (hcol (b.cx1 + t) b.cy1 (b.cy1 + b.arm) _ (by omega) (by omega))).trans
    (hcol (b.cx1 + t) (b.cy2 - b.arm) b.cy2 _ (by omega) (by omega))).trans
    (hcol (b.cx2 - t) b.cy1 (b.cy1 + b.arm) _ (by omega) (by omega))).trans
    (hcol (b.cx2 - t) (b.cy2 - b.arm) b.cy2 _ (by omega) (by omega))
  apply hall.congr
  ext p
  simp only [rowPixels,columnPixels,Set.mem_union,Set.mem_ofPred_eq,Int.lt_add_one_iff,
    ClippedBox.Stroke,or_and_right]
  simp only [and_or_left,or_assoc]

theorem drawStrokes_traces {R : Int → UInt8 → Prop} (hR : Allows R width osdY osdU osdV)
    (hlow : 0 ≤ b.cx1) (hhigh : b.cx2 ≤ width - 1) (hv : b.Visible) :
    Traces R (width + width / 2) {p | b.Mark p} buf (drawStrokes buf (width + width / 2) b) := by
  refine (Traces.foldl (S := fun t : Nat => {p | b.Stroke t p}) (List.range b.thick.toNat)
    ?_ buf).congr ?_
  · intro t ht buf
    have hlt := List.mem_range.mp ht
    exact drawArms_traces hR hlow hhigh hv (by omega) (by omega)
  · ext p
    simp [ClippedBox.Mark,hv]

/-- `draw_corners` never leaves the array of dirty rows, draws the marks of the box and records its
two bands. -/
theorem drawCorners_traces {R : Int → UInt8 → Prop} (hR : Allows R width osdY osdU osdV)
    (height x1 y1 x2 y2 : Int) (buf : Frame) {l : List Span} (h : dirty.Holds l) :
    ∃ buf' dirty', drawCorners buf width height x1 y1 x2 y2 dirty = some (buf',dirty') ∧
      Traces R (width + width / 2) {p | (clipBox width height x1 y1 x2 y2).Mark p} buf buf' ∧
      dirty'.Holds ((clipBox width height x1 y1 x2 y2).addBands l) := by
  obtain ⟨hlow,_,hhigh,_⟩ := clipBox_inside width height x1 y1 x2 y2
  rw [drawCorners_eq]
  generalize clipBox width height x1 y1 x2 y2 = b at hlow hhigh ⊢
  by_cases hv : b.Visible
  · obtain ⟨d₁,hadd₁,h₁⟩ := dirtyAdd_holds ⟨b.cy1,b.cy1 + b.arm⟩ h
    obtain ⟨d₂,hadd₂,h₂⟩ := dirtyAdd_holds ⟨b.cy2 - b.arm,b.cy2⟩ h₁
    rw [if_pos hv]
    dsimp only
    rw [hadd₁,Option.bind_some,hadd₂,Option.bind_some]
    refine ⟨_,d₂,rfl,drawStrokes_traces hR hlow hhigh hv,?_⟩
    rw [ClippedBox.addBands,if_pos hv]
    exact h₂
  · rw [if_neg hv]
    refine ⟨buf,dirty,rfl,Traces.none.congr ?_,?_⟩
    · ext p
      simp [ClippedBox.Mark,hv]
    · rw [ClippedBox.addBands,if_neg hv]
      exact h

end Corners

section Boxes

variable {width height scaleX scaleY : Int}

/-- The bands of all boxes, in the order they are drawn. -/
def boxBands (width height scaleX scaleY : Int) (boxes : List DetBox) (l : List Span) : List Span :=
  boxes.foldl (fun l box => (box.clipped width height scaleX scaleY).addBands l) l

theorem drawBoxes_traces {R : Int → UInt8 → Prop} (hR : Allows R width osdY osdU osdV)
    (boxes : List DetBox) (buf : Frame) {dirty : OsdDirty} {l : List Span} (h : dirty.Holds l) :
    ∃ buf' dirty', drawBoxes width height scaleX scaleY boxes buf dirty = some (buf',dirty') ∧
      Traces R (width + width / 2)
        {p | ∃ box ∈ boxes, (box.clipped width height scaleX scaleY).Mark p} buf buf' ∧
      dirty'.Holds (boxBands width height scaleX scaleY boxes l) := by
  induction boxes generalizing buf dirty l with
  | nil => exact ⟨buf,dirty,rfl,Traces.none.congr (by simp),h⟩
  | cons box boxes ih =>
    obtain ⟨buf₁,d₁,hcorners,htraces₁,h₁⟩ := drawCorners_traces hR height (box.x1 * scaleX)
      (box.y1 * scaleY) (box.x2 * scaleX) (box.y2 * scaleY) buf h
    obtain ⟨buf₂,d₂,hloop,htraces₂,h₂⟩ := ih buf₁ h₁
    refine ⟨buf₂,d₂,?_,(htraces₁.trans htraces₂).congr ?_,h₂⟩
    · rw [drawBoxes,hcorners,Option.bind_some]
      exact hloop
    · ext p
      simp [DetBox.clipped]

theorem osdDrawBoxes_traces {R : Int → UInt8 → Prop} (hR : Allows R width osdY osdU osdV)
    (height scaleX scaleY : Int) (boxes : List DetBox) (buf : Frame) (dirty : OsdDirty) :
    ∃ buf' dirty', osdDrawBoxesYuv420 buf width height boxes scaleX scaleY dirty =
        some (buf',dirty') ∧
      Traces R (width + width / 2)
        {p | ∃ box ∈ boxes, (box.clipped width height scaleX scaleY).Mark p} buf buf' ∧
      dirty'.Holds (boxBands width height scaleX scaleY boxes []) :=
  drawBoxes_traces hR boxes buf ⟨rfl,Nat.zero_le _,trivial⟩

theorem osdDrawBoxes_spec (heven : width % 2 = 0) (height scaleX scaleY : Int)
    (boxes : List DetBox) (buf : Frame) (dirty : OsdDirty) :
    ∃ buf' dirty', osdDrawBoxesYuv420 buf width height boxes scaleX scaleY dirty =
        some (buf',dirty') ∧
      Draws (width + width / 2) osdY osdU osdV
        {p | ∃ box ∈ boxes, (box.clipped width height scaleX scaleY).Mark p} buf buf' ∧
      dirty'.Holds (boxBands width height scaleX scaleY boxes []) := by
  simp only [draws_iff]
  exact osdDrawBoxes_traces (allows_packedColour heven osdY osdU osdV) height scaleX scaleY boxes
    buf dirty

end Boxes

section Reference

variable {width height scaleX scaleY : Int}

/-- The documented rule for one pixel of the packed layout. -/
def paintPixel (stride : Int) (buf : Frame) (p : Int × Int) : Frame :=
  (buf.store (p.2 * stride + (p.1 / 2 * 3 + 1 + p.1 % 2)) osdY).store
    (p.2 * stride + p.1 / 2 * 3) (if p.2 % 2 = 1 then osdV else osdU)

theorem paintPixels_draws (heven : width % 2 = 0) (pixels : List (Int × Int))
    (hpixels : ∀ p ∈ pixels, 0 ≤ p.1 ∧ p.1 < width) (buf : Frame) :
    Draws (width + width / 2) osdY osdU osdV {p | p ∈ pixels} buf
      (pixels.foldl (paintPixel (width + width / 2)) buf) := by
  apply draws_iff.mpr
  refine (Traces.foldl (S := fun p => {p}) pixels ?_ buf).congr ?_
  · intro p hp buf
    obtain ⟨hlow,hhigh⟩ := hpixels p hp
    have hpixel := traces_pixel_luma (allows_packedColour heven osdY osdU osdV) buf (x := p.1)
      (y := p.2) hlow hhigh
    rw [add_assoc,← add_assoc (p.1 / 2 * 3)] at hpixel
    exact hpixel
  · ext p
    simp

theorem mark_inside {x1 y1 x2 y2 : Int} {p : Int × Int}
    (h : (clipBox width height x1 y1 x2 y2).Mark p) :
    (0 ≤ p.1 ∧ p.1 < width) ∧ 0 ≤ p.2 ∧ p.2 < height := by
  obtain ⟨hx,hy,hx',hy'⟩ := clipBox_inside width height x1 y1 x2 y2
  generalize clipBox width height x1 y1 x2 y2 = b at *
  obtain ⟨hv,t,ht,hstroke⟩ := h
  obtain ⟨harmX,harmY⟩ := arm_le b
  have hthick : b.thick ≤ b.arm := min_le_right _ _
  have hpos := hv.2.2
  rcases hstroke with ⟨hrow,hcol⟩ | ⟨hcol,hrow⟩ <;> omega

def framePixels (width height : Int) : List (Int × Int) :=
  (List.range height.toNat).flatMap fun y : Nat =>
    (List.range width.toNat).map fun x : Nat => ((x : Int),(y : Int))

theorem mem_framePixels {p : Int × Int} : p ∈ framePixels width height ↔
    (0 ≤ p.1 ∧ p.1 < width) ∧ 0 ≤ p.2 ∧ p.2 < height := by
  simp only [framePixels,List.mem_flatMap,List.mem_range,List.mem_map]
  constructor
  · intro ⟨y,hy,x,hx,hp⟩
    subst hp
    dsimp only
    omega
  · intro ⟨⟨hx₀,hx₁⟩,hy₀,hy₁⟩
    refine ⟨p.2.toNat,by omega,p.1.toNat,by omega,?_⟩
    rw [Int.toNat_of_nonneg hx₀,Int.toNat_of_nonneg hy₀]

/-- The pixels of the marks of all boxes, row by row. -/
def markedPixels (width height scaleX scaleY : Int) (boxes : List DetBox) : List (Int × Int) :=
  (framePixels width height).filter fun p =>
    boxes.any fun box => decide ((box.clipped width height scaleX scaleY).Mark p)

theorem mem_markedPixels (boxes : List DetBox) (p : Int × Int) :
    p ∈ markedPixels width height scaleX scaleY boxes ↔
      ∃ box ∈ boxes, (box.clipped width height scaleX scaleY).Mark p := by
  simp only [markedPixels,List.mem_filter,List.any_eq_true,decide_eq_true_eq,mem_framePixels,
    and_iff_right_iff_imp]
  intro ⟨box,_,hmark⟩
  exact mark_inside hmark

/-- The rasteriser leaves the frame as if the pixels of all marks had been painted one by one, in
any order, and stores to no other byte. -/
theorem osdDrawBoxes_reference (heven : width % 2 = 0) (buf : Frame) (boxes : List DetBox)
    (dirty : OsdDirty) (pixels : List (Int × Int))
    (hpixels : ∀ p, p ∈ pixels ↔ ∃ box ∈ boxes, (box.clipped width height scaleX scaleY).Mark p) :
    ∃ buf' dirty', osdDrawBoxesYuv420 buf width height boxes scaleX scaleY dirty =
        some (buf',dirty') ∧
      buf'.cell = (pixels.foldl (paintPixel (width + width / 2)) buf).cell ∧
      ∀ o ∈ buf'.stored, o ∈ buf.stored ∨
        ∃ p ∈ pixels, o = chromaOffset (width + width / 2) p ∨ o = lumaOffset (width + width / 2) p := by
  obtain ⟨buf',dirty',hcall,hdraws,_⟩ :=
    osdDrawBoxes_spec heven height scaleX scaleY boxes buf dirty
  have hset : {p | ∃ box ∈ boxes, (box.clipped width height scaleX scaleY).Mark p} =
      {p | p ∈ pixels} := by
    ext p
    exact (hpixels p).symm
  have hdraws' := hdraws.congr hset
  have hreference := paintPixels_draws heven pixels (fun p hp => by
    obtain ⟨box,_,hmark⟩ := (hpixels p).mp hp
    exact (mark_inside hmark).1) buf
  refine ⟨buf',dirty',hcall,Paints.unique hdraws' hreference,?_⟩
  intro o ho
  rcases (hdraws'.stored o).mp ho with ⟨p,hp,hbyte⟩ | hbefore
  · exact .inr ⟨p,hp,hbyte⟩
  · exact .inl hbefore

/-- Two overlapping boxes, one of them with its corners the wrong way round and off the screen. -/
theorem osdDrawBoxes_reference_twoBoxes : ∃ buf' dirty',
    osdDrawBoxesYuv420 ⟨fun _ => 0,[]⟩ 8 6 [⟨1,1,6,5,0⟩,⟨9,3,2,-4,0⟩] 1 1
        ⟨0,fun _ => ⟨0,0⟩⟩ = some (buf',dirty') ∧
      buf'.cell = ((markedPixels 8 6 1 1 [⟨1,1,6,5,0⟩,⟨9,3,2,-4,0⟩]).foldl (paintPixel 12)
        ⟨fun _ => 0,[]⟩).cell ∧
      ∀ o ∈ buf'.stored, o ∈ ([] : List Int) ∨
        ∃ p ∈ markedPixels 8 6 1 1 [⟨1,1,6,5,0⟩,⟨9,3,2,-4,0⟩],
          o = chromaOffset 12 p ∨ o = lumaOffset 12 p :=
  osdDrawBoxes_reference (by decide) ⟨fun _ => 0,[]⟩ [⟨1,1,6,5,0⟩,⟨9,3,2,-4,0⟩] ⟨0,fun _ => ⟨0,0⟩⟩
    (markedPixels 8 6 1 1 [⟨1,1,6,5,0⟩,⟨9,3,2,-4,0⟩]) (mem_markedPixels [⟨1,1,6,5,0⟩,⟨9,3,2,-4,0⟩])

end Reference

end Esp32Ipc
