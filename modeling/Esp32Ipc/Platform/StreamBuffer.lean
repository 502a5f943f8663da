import Mathlib.Data.List.Basic
import Mathlib.Tactic

/-!
# FreeRTOS stream buffers

A stream buffer is a queue of bytes without message boundaries, for one sender and one receiver.
-/

namespace Esp32Ipc

/-- The bytes in a stream buffer, oldest first. -/
structure StreamBuffer (capacity : Nat) where
  bytes : List UInt8
  fits : bytes.length ≤ capacity

namespace StreamBuffer

variable {capacity : Nat}

/-- `xStreamBufferCreate`. -/
def create (capacity : Nat) : StreamBuffer capacity := ⟨[],Nat.zero_le _⟩

def free (buffer : StreamBuffer capacity) : Nat := capacity - buffer.bytes.length

/-- `xStreamBufferSend` with a zero timeout: as much as fits now, and how much that was. -/
def send (buffer : StreamBuffer capacity) (data : List UInt8) : Nat × StreamBuffer capacity :=
  (min data.length buffer.free,
    { bytes := buffer.bytes ++ data.take (min data.length buffer.free)
      fits := by
        have hfits := buffer.fits
        simp only [free,List.length_append,List.length_take]
        omega })

/-- `xStreamBufferReceive` when it hands over `got` bytes. -/
def receive (buffer : StreamBuffer capacity) (got : Nat) : List UInt8 × StreamBuffer capacity :=
  (buffer.bytes.take got,
    { bytes := buffer.bytes.drop got
      fits := by
        have hfits := buffer.fits
        rw [List.length_drop]
        omega })

@[simp] theorem create_bytes : (create capacity).bytes = [] := rfl

theorem send_bytes (buffer : StreamBuffer capacity) (data : List UInt8) :
    (buffer.send data).2.bytes = buffer.bytes ++ data.take (buffer.send data).1 := rfl

theorem send_le (buffer : StreamBuffer capacity) (data : List UInt8) :
    (buffer.send data).1 ≤ data.length := Nat.min_le_left _ _

theorem receive_bytes (buffer : StreamBuffer capacity) (got : Nat) :
    (buffer.receive got).1 ++ (buffer.receive got).2.bytes = buffer.bytes :=
  List.take_append_drop _ _

end StreamBuffer

end Esp32Ipc
