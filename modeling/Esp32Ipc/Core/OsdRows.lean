import Esp32Ipc.Core.OsdMarks

/-!
# Dirty rows

The two bands recorded for a box are the rows its marks reach, so the list that `dirty_add` keeps
is the separated form of the set of rows written.
-/

namespace Esp32Ipc

open Framework

/-- The bytes of one row. -/
def RowBytes (stride y : Int) : Set Int := {o | y * stride ≤ o ∧ o < (y + 1) * stride}

section Rows

variable {width : Int}

theorem rowBytes_iff {stride y o : Int} (hstride : 0 < stride) :
    o ∈ RowBytes stride y ↔ o / stride = y := by
  rw [Int.ediv_eq_iff_of_pos hstride,RowBytes,Set.mem_ofPred_eq,add_mul,one_mul,mul_comm y]

theorem pixel_row (heven : width % 2 = 0) {p : Int × Int} (h₀ : 0 ≤ p.1) (h₁ : p.1 < width)
    {o : Int} (ho : o = chromaOffset (width + width / 2) p ∨ o = lumaOffset (width + width / 2) p) :
    o / (width + width / 2) = p.2 := by
  rcases ho with rfl | rfl
  · exact (rowOffset (width + width / 2) p.2 (p.1 / 2 * 3) (by omega) (by omega)).1
  · rw [lumaOffset,add_assoc,add_assoc]
    exact (rowOffset (width + width / 2) p.2 (p.1 / 2 * 3 + (1 + p.1 % 2)) (by omega)
      (by omega)).1

theorem row_of_pixelBytes (heven : width % 2 = 0) {S : Set (Int × Int)}
    (hS : ∀ p ∈ S, 0 ≤ p.1 ∧ p.1 < width) (y : Int) :
    (∃ o ∈ pixelBytes (width + width / 2) S, o ∈ RowBytes (width + width / 2) y) ↔
      ∃ p ∈ S, p.2 = y := by
  constructor
  · intro ⟨o,⟨p,hp,ho⟩,hrow⟩
    obtain ⟨hlow,hhigh⟩ := hS p hp
    refine ⟨p,hp,?_⟩
    rw [← pixel_row heven hlow hhigh ho]
    exact (rowBytes_iff (by omega)).mp hrow
  · intro ⟨p,hp,hrow⟩
    obtain ⟨hlow,hhigh⟩ := hS p hp
    refine ⟨chromaOffset (width + width / 2) p,⟨p,hp,.inl rfl⟩,?_⟩
    rw [rowBytes_iff (by omega),← hrow]
    exact pixel_row heven hlow hhigh (.inl rfl)

end Rows

section Bands

def ClippedBox.Band (b : ClippedBox) (y : Int) : Prop :=
  b.Visible ∧ ((⟨b.cy1,b.cy1 + b.arm⟩ : Span).Has y ∨ (⟨b.cy2 - b.arm,b.cy2⟩ : Span).Has y)

/-- The bands are the rows that the marks reach: the upright strokes at the left edge reach all of
them, and no level stroke is drawn below the arm. -/
theorem band_iff_mark (b : ClippedBox) (y : Int) : b.Band y ↔ ∃ p, b.Mark p ∧ p.2 = y := by
  have harmY := (arm_le b).2
  constructor
  · intro ⟨hv,hrow⟩
    have hthick : 1 ≤ b.thick := by
      have harm := hv.2.2
      unfold ClippedBox.thick osdThickness
      omega
    refine ⟨(b.cx1,y),⟨hv,0,by omega,.inr ⟨.inl ?_,hrow⟩⟩,rfl⟩
    exact (add_zero _).symm
  · intro ⟨p,⟨hv,t,ht,hstroke⟩,hy⟩
    subst hy
    have hthick : b.thick ≤ b.arm := min_le_right _ _
    refine ⟨hv,?_⟩
    simp only [Span.Has]
    rcases hstroke with ⟨hrow,_⟩ | ⟨_,hrow⟩
    · omega
    · exact hrow

theorem addBands_spec (b : ClippedBox) {l : List Span} (hl : Separated l)
    (hroom : l.length + 2 ≤ osdMaxDirtyRanges) :
    Separated (b.addBands l) ∧ (b.addBands l).length ≤ l.length + 2 ∧
      ∀ y, Covers (b.addBands l) y ↔ b.Band y ∨ Covers l y := by
  have harmY := (arm_le b).2
  rw [ClippedBox.addBands]
  by_cases hv : b.Visible
  · have hpos := hv.2.2
    have htop : (⟨b.cy1,b.cy1 + b.arm⟩ : Span).first ≤ (⟨b.cy1,b.cy1 + b.arm⟩ : Span).last := by
      dsimp only
      omega
    have hbot : (⟨b.cy2 - b.arm,b.cy2⟩ : Span).first ≤ (⟨b.cy2 - b.arm,b.cy2⟩ : Span).last := by
      dsimp only
      omega
    have hlen := insertSpan_length ⟨b.cy1,b.cy1 + b.arm⟩ l
    have hlen' := insertSpan_length ⟨b.cy2 - b.arm,b.cy2⟩ (insertSpan ⟨b.cy1,b.cy1 + b.arm⟩ l)
    have hsep := insertSpan_separated htop hl
    rw [if_pos hv,addRows_of_lt _ (by omega : l.length < osdMaxDirtyRanges),
      addRows_of_lt _ (by omega)]
    refine ⟨insertSpan_separated hbot hsep,by omega,?_⟩
    intro y
    rw [insertSpan_covers hbot hsep,insertSpan_covers htop hl,ClippedBox.Band]
    tauto
  · rw [if_neg hv]
    refine ⟨hl,by omega,?_⟩
    intro y
    simp [ClippedBox.Band,hv]

end Bands

section DirtyRows

/-- With at most `DET_MAX_BOX` boxes the array never fills up before the last band. -/
theorem boxBands_spec (width height scaleX scaleY : Int) (boxes : List DetBox) {l : List Span}
    (hl : Separated l) (hroom : l.length + 2 * boxes.length ≤ osdMaxDirtyRanges) :
    Separated (boxBands width height scaleX scaleY boxes l) ∧
      (boxBands width height scaleX scaleY boxes l).length ≤ osdMaxDirtyRanges ∧
      ∀ y, Covers (boxBands width height scaleX scaleY boxes l) y ↔
        (∃ box ∈ boxes, (box.clipped width height scaleX scaleY).Band y) ∨ Covers l y := by
  induction boxes generalizing l with
  | nil => exact ⟨hl,hroom,by simp [boxBands]⟩
  | cons box boxes ih =>
    rw [List.length_cons] at hroom
    obtain ⟨hsep,hlen,hcovers⟩ :=
      addBands_spec (box.clipped width height scaleX scaleY) hl (by omega)
    obtain ⟨hsep',hlen',hcovers'⟩ := ih hsep (by omega)
    refine ⟨hsep',hlen',?_⟩
    intro y
    have hstep := hcovers' y
    rw [hcovers y,← or_assoc,or_comm (a := ∃ box ∈ boxes, _)] at hstep
    simpa [boxBands] using hstep

theorem boxBands_nil (width height scaleX scaleY : Int) {boxes : List DetBox}
    (hboxes : boxes.length ≤ detMaxBox) :
    Separated (boxBands width height scaleX scaleY boxes []) ∧
      (boxBands width height scaleX scaleY boxes []).length ≤ osdMaxDirtyRanges ∧
      ∀ y, Covers (boxBands width height scaleX scaleY boxes []) y ↔
        ∃ p, (∃ box ∈ boxes, (box.clipped width height scaleX scaleY).Mark p) ∧ p.2 = y := by
  have hroom : ([] : List Span).length + 2 * boxes.length ≤ osdMaxDirtyRanges := by
    rw [List.length_nil,osdMaxDirtyRanges]
    omega
  obtain ⟨hsep,hlen,hcovers⟩ :=
    boxBands_spec width height scaleX scaleY boxes Separated.nil hroom
  refine ⟨hsep,hlen,?_⟩
  intro y
  rw [hcovers y,or_iff_left covers_nil]
  constructor
  · intro ⟨box,hbox,hband⟩
    obtain ⟨p,hmark,hy⟩ := (band_iff_mark _ y).mp hband
    exact ⟨p,⟨box,hbox,hmark⟩,hy⟩
  · intro ⟨p,⟨box,hbox,hmark⟩,hy⟩
    exact ⟨box,hbox,(band_iff_mark _ y).mpr ⟨p,hmark,hy⟩⟩

theorem boxBands_perm (width height scaleX scaleY : Int) {boxes boxes' : List DetBox}
    (hboxes : boxes.length ≤ detMaxBox) (hperm : boxes'.Perm boxes) :
    boxBands width height scaleX scaleY boxes' [] =
      boxBands width height scaleX scaleY boxes [] := by
  have hboxes' : boxes'.length ≤ detMaxBox := hperm.length_eq.trans_le hboxes
  obtain ⟨hsep,_,hcovers⟩ := boxBands_nil width height scaleX scaleY hboxes
  obtain ⟨hsep',_,hcovers'⟩ := boxBands_nil width height scaleX scaleY hboxes'
  apply hsep'.eq_of_covers hsep
  intro y
  rw [hcovers y,hcovers' y]
  simp only [hperm.mem_iff]

/-- A list of dirty rows is the canonical form of the rows written. -/
structure DirtyRows (stride height : Int) (buf : Frame) (l : List OsdRows) : Prop where
  length_le : l.length ≤ osdMaxDirtyRanges
  inside : ∀ r ∈ l, 0 ≤ r.first ∧ r.first ≤ r.last ∧ r.last ≤ height - 1
  separated : Separated l
  written : ∀ y, Covers l y ↔ ∃ o ∈ buf.stored, o ∈ RowBytes stride y

/-- The list recorded for the boxes is that of the rows their marks were written to. -/
theorem boxBands_dirtyRows {width height scaleX scaleY : Int} (heven : width % 2 = 0)
    {boxes : List DetBox} (hboxes : boxes.length ≤ detMaxBox) {cell : Int → UInt8} {buf : Frame}
    (hdraws : Draws (width + width / 2) osdY osdU osdV
      {p | ∃ box ∈ boxes, (box.clipped width height scaleX scaleY).Mark p} ⟨cell,[]⟩ buf) :
    DirtyRows (width + width / 2) height buf (boxBands width height scaleX scaleY boxes []) := by
  obtain ⟨hsep,hlen,hcovers⟩ := boxBands_nil width height scaleX scaleY hboxes
  have hrow : ∀ y, Covers (boxBands width height scaleX scaleY boxes []) y → 0 ≤ y ∧ y < height := by
    intro y hy
    obtain ⟨p,⟨box,_,hmark⟩,rfl⟩ := (hcovers y).mp hy
    exact (mark_inside hmark).2
  refine ⟨hlen,?_,hsep,?_⟩
  · intro r hr
    have hne := hsep.nonempty r hr
    have hfirst := hrow r.first ⟨r,hr,le_refl _,hne⟩
    have hlast := hrow r.last ⟨r,hr,hne,le_refl _⟩
    exact ⟨hfirst.1,hne,by omega⟩
  · intro y
    have hbytes := row_of_pixelBytes heven (S := {p | ∃ box ∈ boxes,
      (box.clipped width height scaleX scaleY).Mark p}) (fun p ⟨_,_,hmark⟩ => (mark_inside hmark).1) y
    rw [hcovers y]
    simp only [hdraws.stored,List.not_mem_nil,or_false]
    exact hbytes.symm

end DirtyRows

end Esp32Ipc
