import Esp32Ipc.Platform.Rtos
import Mathlib.Data.List.FinRange

/-!
# The MIPI-CSI capture device

The driver owns the buffers queued with `VIDIOC_QBUF` and hands out filled ones with
`VIDIOC_DQBUF`, in whichever order it likes. Buffers are named by their V4L2 index, which also
names the memory mapped for them.
-/

namespace Esp32Ipc

variable {n : Nat}

structure Vcap (n : Nat) where
  width : Nat
  height : Nat
  stride : Nat
  driver : List (Fin n)
  deriving DecidableEq

/-- One captured frame. `captured` is the time in microseconds that `on_frame_grid` reads from
`esp_timer_get_time` once the frame is dequeued; the code has no other capture time. -/
structure VcapFrame (n : Nat) where
  index : Fin n
  bytesused : Nat
  captured : Int
  deriving DecidableEq

/-- What `hal_vcap_open` leaves: all buffers mapped and queued. -/
def halVcapOpen (n width height : Nat) : Vcap n where
  width := width
  height := height
  -- packed YUV420: two luma and one chroma byte per pair of pixels
  stride := width + width / 2
  driver := List.finRange n

/-- The driver can answer `VIDIOC_DQBUF` with any buffer it owns, or fail. -/
def Vcap.canReply (cap : Vcap n) : Option (VcapFrame n) → Prop
  | none => True
  | some frame => frame.index ∈ cap.driver

instance (cap : Vcap n) : (reply : Option (VcapFrame n)) → Decidable (cap.canReply reply)
  | none => isTrue trivial
  | some frame => inferInstanceAs (Decidable (frame.index ∈ cap.driver))

def halVcapAcquire (cap : Vcap n) :
    Option (VcapFrame n) → Except EspErr (VcapFrame n) × Vcap n
  | none => (.error .timeout, cap)
  | some frame => (.ok frame, { cap with driver := cap.driver.erase frame.index })

/-- `hal_vcap_release` whose `VIDIOC_QBUF` succeeds. -/
def halVcapRelease (cap : Vcap n) (frame : VcapFrame n) : Vcap n :=
  { cap with driver := frame.index :: cap.driver }

/-- The offset and length that `hal_vcap_publish_rows` hands to `esp_cache_msync`; `none` when there
is no row left to publish. -/
def halVcapPublishRows (cap : Vcap n) (yFirst yLast : Int) : Option (Int × Int) :=
  let yFirst := if yFirst < 0 then 0 else yFirst
  let yLast := if yLast > (cap.height : Int) - 1 then (cap.height : Int) - 1 else yLast
  if yFirst > yLast then none
  else some (yFirst * cap.stride, (yLast - yFirst + 1) * cap.stride)

theorem halVcapPublishRows_inside {cap : Vcap n} {yFirst yLast : Int} (hfirst : 0 ≤ yFirst)
    (hle : yFirst ≤ yLast) (hlast : yLast ≤ cap.height - 1) :
    halVcapPublishRows cap yFirst yLast =
      some (yFirst * cap.stride,(yLast - yFirst + 1) * cap.stride) := by
  simp only [halVcapPublishRows]
  rw [if_neg (by omega : ¬yFirst < 0),if_neg (by omega : ¬yLast > cap.height - 1),if_neg (by omega)]

@[simp] theorem halVcapRelease_driver (cap : Vcap n) (frame : VcapFrame n) :
    (halVcapRelease cap frame).driver = frame.index :: cap.driver := rfl

@[simp] theorem halVcapOpen_driver (n width height : Nat) :
    (halVcapOpen n width height).driver = List.finRange n := rfl

end Esp32Ipc
