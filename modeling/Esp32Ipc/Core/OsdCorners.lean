import Esp32Ipc.Core.OsdMarks

/-!
# The gap between the corner marks

An arm includes both its ends, so two arms on one edge leave a pixel free only when the edge is at
least two longer than both together. Half an edge is never that short: the arms stay apart exactly
where no edge had to shorten them.
-/

namespace Esp32Ipc

open Framework

/-- A corner of a box: whether it is at the right, and whether it is at the bottom. -/
structure Corner where
  right : Bool
  bottom : Bool
  deriving DecidableEq

/-- The place `t` in from the low or the high end. -/
def inward (low high : Int) (far : Bool) (t : Int) : Int := if far then high - t else low + t

/-- The arm from the low or the high end. -/
def armSpan (low high arm : Int) (far : Bool) : Span :=
  if far then ⟨high - arm,high⟩ else ⟨low,low + arm⟩

section Arms

variable {low high arm t : Int} {far far' : Bool} {z : Int}

theorem exists_inward : (∃ far, z = inward low high far t) ↔ z = low + t ∨ z = high - t := by
  simp [inward]

theorem exists_armSpan : (∃ far, (armSpan low high arm far).Has z) ↔
    low ≤ z ∧ z ≤ low + arm ∨ high - arm ≤ z ∧ z ≤ high := by
  simp [armSpan,Span.Has]

theorem armSpan_inward (ht : 0 ≤ t) (harm : t ≤ arm) :
    (armSpan low high arm far).Has (inward low high far t) := by
  cases far <;> simp [armSpan,inward,Span.Has] <;> omega

theorem armSpan_disjoint (hroom : 2 * arm < high - low) (hz : (armSpan low high arm far).Has z)
    (hz' : (armSpan low high arm far').Has z) : far = far' := by
  cases far <;> cases far' <;> simp_all [armSpan,Span.Has] <;> omega

theorem armSpan_between (hlow : low + arm < z) (hhigh : z < high - arm) :
    ¬(armSpan low high arm far).Has z := by
  cases far <;> simp [armSpan,Span.Has] <;> omega

end Arms

namespace ClippedBox

/-- The pixels of the mark in one corner. -/
def CornerMark (b : ClippedBox) (c : Corner) (p : Int × Int) : Prop :=
  ∃ t : Nat, t < b.thick.toNat ∧
    (p.2 = inward b.cy1 b.cy2 c.bottom t ∧ (armSpan b.cx1 b.cx2 b.arm c.right).Has p.1 ∨
      p.1 = inward b.cx1 b.cx2 c.right t ∧ (armSpan b.cy1 b.cy2 b.arm c.bottom).Has p.2)

/-- The corner marks are disjoint, every stroke along the top or the bottom leaves a pixel between
its arms free, some row between the upright arms is free, and the two bands are recorded apart. -/
structure MarksApart (b : ClippedBox) (dirty : OsdDirty) : Prop where
  disjoint : ∀ c c' p, b.CornerMark c p → b.CornerMark c' p → c = c'
  level : ∀ bottom, ∀ t : Nat, t < b.thick.toNat → ∃ x, b.cx1 + b.arm < x ∧ x < b.cx2 - b.arm ∧
    ∀ c, ¬b.CornerMark c (x,inward b.cy1 b.cy2 bottom t)
  upright : ∃ y, b.cy1 + b.arm < y ∧ y < b.cy2 - b.arm ∧ ∀ c x, ¬b.CornerMark c (x,y)
  bands : dirty.Holds [⟨b.cy1,b.cy1 + b.arm⟩,⟨b.cy2 - b.arm,b.cy2⟩]

end ClippedBox

section Marks

variable {b : ClippedBox} {c : Corner} {p : Int × Int}

theorem thick_pos (hv : b.Visible) : 0 < b.thick.toNat := by
  have harm := hv.2.2
  unfold ClippedBox.thick osdThickness
  omega

theorem mark_iff_corner (hv : b.Visible) : b.Mark p ↔ ∃ c, b.CornerMark c p := by
  simp only [ClippedBox.Mark,ClippedBox.Stroke,← exists_inward,← exists_armSpan]
  constructor
  · rintro ⟨_,t,ht,⟨⟨bottom,hrow⟩,right,hcol⟩ | ⟨⟨right,hcol⟩,bottom,hrow⟩⟩
    · exact ⟨⟨right,bottom⟩,t,ht,.inl ⟨hrow,hcol⟩⟩
    · exact ⟨⟨right,bottom⟩,t,ht,.inr ⟨hcol,hrow⟩⟩
  · rintro ⟨c,t,ht,⟨hrow,hcol⟩ | ⟨hcol,hrow⟩⟩
    · exact ⟨hv,t,ht,.inl ⟨⟨c.bottom,hrow⟩,c.right,hcol⟩⟩
    · exact ⟨hv,t,ht,.inr ⟨⟨c.right,hcol⟩,c.bottom,hrow⟩⟩

theorem cornerMark_reach (h : b.CornerMark c p) :
    (armSpan b.cx1 b.cx2 b.arm c.right).Has p.1 ∧ (armSpan b.cy1 b.cy2 b.arm c.bottom).Has p.2 := by
  obtain ⟨t,ht,hstroke⟩ := h
  have hthick : b.thick ≤ b.arm := min_le_right _ _
  rcases hstroke with ⟨hrow,hcol⟩ | ⟨hcol,hrow⟩
  · exact ⟨hcol,hrow ▸ armSpan_inward (by omega) (by omega)⟩
  · exact ⟨hcol ▸ armSpan_inward (by omega) (by omega),hrow⟩

theorem marksApart_of_room (hx : 2 * b.arm + 2 ≤ b.cx2 - b.cx1) (hy : 2 * b.arm + 2 ≤ b.cy2 - b.cy1)
    {dirty : OsdDirty} (hbands : dirty.Holds [⟨b.cy1,b.cy1 + b.arm⟩,⟨b.cy2 - b.arm,b.cy2⟩]) :
    b.MarksApart dirty where
  disjoint c c' p h h' := by
    have hright := armSpan_disjoint (by omega) (cornerMark_reach h).1 (cornerMark_reach h').1
    have hbottom := armSpan_disjoint (by omega) (cornerMark_reach h).2 (cornerMark_reach h').2
    cases c
    cases c'
    simp_all
  level _ _ _ := by
    have hbetween : b.cx1 + b.arm < b.cx1 + b.arm + 1 ∧ b.cx1 + b.arm + 1 < b.cx2 - b.arm := by omega
    exact ⟨_,hbetween.1,hbetween.2,fun _ h =>
      armSpan_between hbetween.1 hbetween.2 (cornerMark_reach h).1⟩
  upright := by
    have hbetween : b.cy1 + b.arm < b.cy1 + b.arm + 1 ∧ b.cy1 + b.arm + 1 < b.cy2 - b.arm := by omega
    exact ⟨_,hbetween.1,hbetween.2,fun _ _ h =>
      armSpan_between hbetween.1 hbetween.2 (cornerMark_reach h).2⟩
  bands := hbands

theorem room_of_marksApart (hv : b.Visible) {dirty : OsdDirty} (h : b.MarksApart dirty) :
    2 * b.arm + 2 ≤ b.cx2 - b.cx1 ∧ 2 * b.arm + 2 ≤ b.cy2 - b.cy1 := by
  obtain ⟨x,hxlow,hxhigh,_⟩ := h.level false 0 (thick_pos hv)
  obtain ⟨y,hylow,hyhigh,_⟩ := h.upright
  omega

/-- Halving a side leaves the arms less than the two pixels that keep them apart. -/
theorem room_iff (b : ClippedBox) :
    2 * b.arm + 2 ≤ b.cx2 - b.cx1 ∧ 2 * b.arm + 2 ≤ b.cy2 - b.cy1 ↔
      2 * osdCornerLen + 2 ≤ b.cx2 - b.cx1 ∧ 2 * osdCornerLen + 2 ≤ b.cy2 - b.cy1 := by
  unfold ClippedBox.arm
  omega

theorem addBands_nil (hv : b.Visible) (hy : 2 * b.arm + 2 ≤ b.cy2 - b.cy1) :
    b.addBands [] = [⟨b.cy1,b.cy1 + b.arm⟩,⟨b.cy2 - b.arm,b.cy2⟩] := by
  have hbefore : b.cy1 + b.arm + 1 < b.cy2 - b.arm := by omega
  have htop : addRows ⟨b.cy1,b.cy1 + b.arm⟩ [] = [⟨b.cy1,b.cy1 + b.arm⟩] :=
    addRows_of_lt _ (by decide)
  rw [ClippedBox.addBands,if_pos hv,htop,addRows_of_lt _ (by simp [osdMaxDirtyRanges,detMaxBox])]
  simp [insertSpan,Span.before,absorb,hbefore]

end Marks

/-- `draw_corners` on a box it draws something for: the bytes it stores to are those of the four
corner marks, and the marks are apart exactly when both sides leave two full arms a pixel between
them. -/
theorem drawCorners_apart (buf : Frame) (width height x1 y1 x2 y2 : Int)
    (range : Fin osdMaxDirtyRanges → OsdRows) (b : ClippedBox)
    (hb : clipBox width height x1 y1 x2 y2 = b) (hv : b.Visible) :
    ∃ buf' dirty', drawCorners buf width height x1 y1 x2 y2 ⟨0,range⟩ = some (buf',dirty') ∧
      (∀ o, o ∈ buf'.stored ↔
        o ∈ pixelBytes (width + width / 2) {p | ∃ c, b.CornerMark c p} ∨ o ∈ buf.stored) ∧
      (b.MarksApart dirty' ↔ 2 * osdCornerLen + 2 ≤ b.cx2 - b.cx1 ∧
        2 * osdCornerLen + 2 ≤ b.cy2 - b.cy1) := by
  have hempty : (⟨0,range⟩ : OsdDirty).Holds [] := ⟨rfl,Nat.zero_le _,trivial⟩
  obtain ⟨buf',dirty',hcall,htraces,hholds⟩ := drawCorners_traces (allows_any width osdY osdU osdV)
    height x1 y1 x2 y2 buf hempty
  rw [hb] at htraces hholds
  refine ⟨buf',dirty',hcall,?_,?_⟩
  · simp only [← mark_iff_corner hv]
    exact htraces.stored
  · rw [← room_iff]
    constructor
    · exact room_of_marksApart hv
    · intro ⟨hx,hy⟩
      rw [addBands_nil hv hy] at hholds
      exact marksApart_of_room hx hy hholds

/-- A box two full arms and two pixels wide and high, clipped at the edge of an odd frame. -/
theorem drawCorners_apart_atEdge : ∃ buf' dirty',
    drawCorners ⟨fun _ => 0,[]⟩ 201 150 102 10 300 108 ⟨0,fun _ => ⟨0,0⟩⟩ = some (buf',dirty') ∧
      (∀ o, o ∈ buf'.stored ↔
        o ∈ pixelBytes 301 {p | ∃ c, (⟨102,10,200,108⟩ : ClippedBox).CornerMark c p} ∨ o ∈ []) ∧
      ((⟨102,10,200,108⟩ : ClippedBox).MarksApart dirty' ↔
        2 * osdCornerLen + 2 ≤ (98 : Int) ∧ 2 * osdCornerLen + 2 ≤ (98 : Int)) :=
  drawCorners_apart ⟨fun _ => 0,[]⟩ 201 150 102 10 300 108 (fun _ => ⟨0,0⟩) ⟨102,10,200,108⟩
    (by decide) (by decide)

/-- On a box of 41 pixels each way the arms are 21 long and share the pixel in the middle of every
side, and the list comes back with one range from the top of the box to its bottom. -/
theorem cornerMarks_meet : (clipBox 64 64 10 10 50 50).Visible ∧
    (clipBox 64 64 10 10 50 50).CornerMark ⟨false,false⟩ (30,10) ∧
    (clipBox 64 64 10 10 50 50).CornerMark ⟨true,false⟩ (30,10) ∧
    ∃ buf' dirty', drawCorners ⟨fun _ => 0,[]⟩ 64 64 10 10 50 50 ⟨0,fun _ => ⟨0,0⟩⟩ =
        some (buf',dirty') ∧ dirty'.Holds [⟨10,50⟩] ∧
      ¬(clipBox 64 64 10 10 50 50).MarksApart dirty' := by
  have hempty : (⟨0,fun _ => ⟨0,0⟩⟩ : OsdDirty).Holds [] := ⟨rfl,Nat.zero_le _,trivial⟩
  obtain ⟨buf',dirty',hcall,_,hholds⟩ := drawCorners_traces (allows_any 64 osdY osdU osdV) 64 10 10
    50 50 ⟨fun _ => 0,[]⟩ hempty
  refine ⟨by decide,⟨0,by decide,.inl (by decide)⟩,⟨0,by decide,.inl (by decide)⟩,buf',dirty',hcall,
    hholds,?_⟩
  intro h
  have hroom := (room_of_marksApart (by decide) h).1
  exact absurd hroom (by decide)

end Esp32Ipc
