import Esp32Ipc.Framework.Canvas
import Esp32Ipc.Framework.Spans

/-!
# The on-screen display

Corner marks are drawn straight into a packed O_UYY_E_VYY frame, and the rows written are collected
in a small sorted array. Every access to that array is checked against its length, and a store to
the frame is remembered, so that the array bounds and the bytes touched can be spoken about.
-/

namespace Esp32Ipc

open Framework

/-- `OSD_Y`, `OSD_U`, `OSD_V`. -/
def osdY : UInt8 := 76
def osdU : UInt8 := 84
def osdV : UInt8 := 255

def osdThickness : Int := 4

def osdCornerLen : Int := 48

def detMaxBox : Nat := 5

def osdMaxDirtyRanges : Nat := 2 * detMaxBox

/-- `det_box_t`. The score is a float of which only the bits are carried. -/
structure DetBox where
  x1 : Int
  y1 : Int
  x2 : Int
  y2 : Int
  score : Int
  deriving DecidableEq, Repr

/-- A frame in memory, indexed by the offset from `buf`. -/
abbrev Frame := Canvas Int UInt8

/-- `osd_rows_t`. -/
abbrev OsdRows := Span

structure OsdDirty where
  count : Nat
  range : Fin osdMaxDirtyRanges → OsdRows

namespace OsdDirty

/-- Read `range[i]`; `none` is a read outside the array. -/
def get (d : OsdDirty) (i : Nat) : Option OsdRows :=
  if h : i < osdMaxDirtyRanges then some (d.range ⟨i,h⟩) else none

/-- Write `range[i]`; `none` is a write outside the array. -/
def set (d : OsdDirty) (i : Nat) (r : OsdRows) : Option OsdDirty :=
  if h : i < osdMaxDirtyRanges then some { d with range := Function.update d.range ⟨i,h⟩ r }
  else none

end OsdDirty

section DrawRuns

/-- The loop of `draw_hrun` over whole groups; it returns the column it stopped at. -/
def drawGroups (line x2 : Int) (yc c : UInt8) : Nat → Int → Frame → Int × Frame
  | 0, x, buf => (x, buf)
  | fuel + 1, x, buf =>
    if x + 1 ≤ x2 then
      let g := line + x / 2 * 3
      drawGroups line x2 yc c fuel (x + 2)
        (((buf.store g c).store (g + 1) yc).store (g + 2) yc)
    else (x, buf)

def drawHrun (buf : Frame) (stride y x1 x2 : Int) (yc uc vc : UInt8) : Frame :=
  let line := y * stride
  let c := if y % 2 = 1 then vc else uc
  let (x, buf) :=
    if x1 % 2 = 1 then
      let g := line + x1 / 2 * 3
      (x1 + 1, (buf.store g c).store (g + 2) yc)
    else (x1, buf)
  let (x, buf) := drawGroups line x2 yc c (x2 - x + 1).toNat x buf
  if x = x2 then
    let g := line + x / 2 * 3
    (buf.store g c).store (g + 1) yc
  else buf

/-- The loop of `draw_vrun`, with the offset `p` of its group. -/
def drawColumn (stride luma y2 : Int) (yc uc vc : UInt8) : Nat → Int → Int → Frame → Frame
  | 0, _, _, buf => buf
  | fuel + 1, y, p, buf =>
    if y ≤ y2 then
      drawColumn stride luma y2 yc uc vc fuel (y + 1) (p + stride)
        ((buf.store (p + luma) yc).store p (if y % 2 = 1 then vc else uc))
    else buf

def drawVrun (buf : Frame) (stride x y1 y2 : Int) (yc uc vc : UInt8) : Frame :=
  drawColumn stride (1 + x % 2) y2 yc uc vc (y2 - y1 + 1).toNat y1 (y1 * stride + x / 2 * 3) buf

end DrawRuns

section DirtyAdd

/-- `while (i < d->count && d->range[i].last + 1 < first) i++`. -/
def dirtySkip (d : OsdDirty) (first : Int) : Nat → Nat → Option Nat
  | 0, i => some i
  | fuel + 1, i =>
    if i < d.count then
      (d.get i).bind fun r => if r.last + 1 < first then dirtySkip d first fuel (i + 1) else some i
    else some i

/-- The loop that absorbs the ranges from `j` on, widening `first` and `last`. -/
def dirtyAbsorb (d : OsdDirty) : Nat → Nat → Int → Int → Option (Nat × Int × Int)
  | 0, j, first, last => some (j, first, last)
  | fuel + 1, j, first, last =>
    if j < d.count then
      (d.get j).bind fun r =>
        if r.first ≤ last + 1 then
          dirtyAbsorb d fuel (j + 1) (if r.first < first then r.first else first)
            (if r.last > last then r.last else last)
        else some (j, first, last)
    else some (j, first, last)

/-- `for (k = i + 1, src = j; src < d->count; k++, src++) d->range[k] = d->range[src]`. -/
def dirtyShiftDown : Nat → Nat → Nat → OsdDirty → Option OsdDirty
  | 0, _, _, d => some d
  | fuel + 1, k, src, d =>
    if src < d.count then
      (d.get src).bind fun r => (d.set k r).bind (dirtyShiftDown fuel (k + 1) (src + 1))
    else some d

/-- `for (k = d->count; k > i; k--) d->range[k] = d->range[k - 1]`. -/
def dirtyShiftUp (i : Nat) : Nat → OsdDirty → Option OsdDirty
  | 0, d => some d
  | k + 1, d =>
    if k + 1 > i then (d.get k).bind fun r => (d.set (k + 1) r).bind (dirtyShiftUp i k) else some d

/-- The branch of `dirty_add` for a full list: the last range is widened. -/
def dirtyWiden (d : OsdDirty) (first last : Int) : Option OsdDirty :=
  (d.get (d.count - 1)).bind fun r =>
    d.set (d.count - 1)
      ⟨if first < r.first then first else r.first,if last > r.last then last else r.last⟩

def dirtyAdd (d : OsdDirty) (first last : Int) : Option OsdDirty :=
  (dirtySkip d first d.count 0).bind fun i =>
  (dirtyAbsorb d d.count i first last).bind fun (j, first, last) =>
    if j > i then
      (dirtyShiftDown d.count (i + 1) j d).bind fun d =>
        { d with count := d.count - ((j - i) - 1) }.set i ⟨first,last⟩
    else if d.count ≥ osdMaxDirtyRanges then dirtyWiden d first last
    else
      (dirtyShiftUp i d.count d).bind fun d =>
        { d with count := d.count + 1 }.set i ⟨first,last⟩

end DirtyAdd

section DrawBoxes

/-- One turn of the loop of `draw_corners`. -/
def drawArms (buf : Frame) (stride cx1 cy1 cx2 cy2 arm t : Int) : Frame :=
  let top := cy1 + t
  let bot := cy2 - t
  let buf := drawHrun buf stride top cx1 (cx1 + arm) osdY osdU osdV
  let buf := drawHrun buf stride top (cx2 - arm) cx2 osdY osdU osdV
  let buf := drawHrun buf stride bot cx1 (cx1 + arm) osdY osdU osdV
  let buf := drawHrun buf stride bot (cx2 - arm) cx2 osdY osdU osdV
  let lft := cx1 + t
  let rgt := cx2 - t
  let buf := drawVrun buf stride lft cy1 (cy1 + arm) osdY osdU osdV
  let buf := drawVrun buf stride lft (cy2 - arm) cy2 osdY osdU osdV
  let buf := drawVrun buf stride rgt cy1 (cy1 + arm) osdY osdU osdV
  drawVrun buf stride rgt (cy2 - arm) cy2 osdY osdU osdV

def drawCorners (buf : Frame) (width height x1 y1 x2 y2 : Int) (dirty : OsdDirty) :
    Option (Frame × OsdDirty) :=
  let (x1, x2) := if x1 > x2 then (x2, x1) else (x1, x2)
  let (y1, y2) := if y1 > y2 then (y2, y1) else (y1, y2)
  let cx1 := if x1 < 0 then 0 else x1
  let cy1 := if y1 < 0 then 0 else y1
  let cx2 := if x2 > width - 1 then width - 1 else x2
  let cy2 := if y2 > height - 1 then height - 1 else y2
  if cx1 > cx2 ∨ cy1 > cy2 then some (buf, dirty)
  else
    let arm := osdCornerLen
    let arm := if arm > (cx2 - cx1) / 2 then (cx2 - cx1) / 2 else arm
    let arm := if arm > (cy2 - cy1) / 2 then (cy2 - cy1) / 2 else arm
    let thick := if osdThickness > arm then arm else osdThickness
    if arm < 1 ∨ thick < 1 then some (buf, dirty)
    else
      let stride := width + width / 2
      let buf := (List.range thick.toNat).foldl
        (fun buf (t : Nat) => drawArms buf stride cx1 cy1 cx2 cy2 arm t) buf
      (dirtyAdd dirty cy1 (cy1 + arm)).bind fun dirty =>
      (dirtyAdd dirty (cy2 - arm) cy2).bind fun dirty => some (buf, dirty)

/-- The loop of `osd_draw_boxes_yuv420`. -/
def drawBoxes (width height scaleX scaleY : Int) :
    List DetBox → Frame → OsdDirty → Option (Frame × OsdDirty)
  | [], buf, dirty => some (buf, dirty)
  | box :: boxes, buf, dirty =>
    (drawCorners buf width height (box.x1 * scaleX) (box.y1 * scaleY) (box.x2 * scaleX)
      (box.y2 * scaleY) dirty).bind fun (buf, dirty) =>
        drawBoxes width height scaleX scaleY boxes buf dirty

/-- `osd_draw_boxes_yuv420` on the boxes it is given the count of. -/
def osdDrawBoxesYuv420 (buf : Frame) (width height : Int) (boxes : List DetBox)
    (scaleX scaleY : Int) (dirty : OsdDirty) : Option (Frame × OsdDirty) :=
  drawBoxes width height scaleX scaleY boxes buf { dirty with count := 0 }

end DrawBoxes

end Esp32Ipc
