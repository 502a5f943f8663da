import Esp32Ipc.Framework.ByteMemory

/-!
# The outgoing ring buffer

Entries are payloads behind a four-byte length. An entry that does not fit before the end of the
ring keeps its length where it was but puts its payload at offset 0. The checks, the stores and the
updates of the indices are those that `sepfy__libpeer.patch` shows; the free space and the wrap test
of a push are those of the library it patches. Payloads are far shorter than an `int` can count.
-/

namespace Esp32Ipc

open Framework

structure Buffer where
  data : ByteMemory
  size : Nat
  head : Nat
  tail : Nat

/-- `buffer_new`, with zeroed memory. -/
def bufferNew (size : Nat) : Buffer := ⟨fun _ => 0, size, 0, 0⟩

/-- `ALIGN32` of a payload and its length prefix. -/
def alignSize (size : Nat) : Nat := (size + 4 + 3) / 4 * 4

/-- The branches of `buffer_push_tail`: where a payload of `size` bytes goes and the tail behind it, or
`none` when it is refused. -/
def bufferPushPlace (rb : Buffer) (size : Nat) : Option (Nat × Nat) :=
  if rb.size ≤ 0 ∨ size ≤ 0 then none
  else
    let freeSpace := (rb.size + rb.head - rb.tail - 1) % rb.size
    let align := alignSize size
    if align > freeSpace then none
    else
      let tailEnd := (rb.tail + align) % rb.size
      if tailEnd < rb.tail then
        -- the payload must fit between offset 0 and the oldest entry
        if rb.head < align then none else some (0,size)
      else some (rb.tail + 4,tailEnd)

/-- `buffer_push_tail`: the length is stored at the tail, then the payload. The answer is -1 when it is
refused. -/
def bufferPushTail (rb : Buffer) (data : List UInt8) : Int × Buffer :=
  match bufferPushPlace rb data.length with
  | none => (-1, rb)
  | some (p, tail) =>
    (data.length, { rb with data := (rb.data.writeWord rb.tail data.length).write p data, tail := tail })

/-- `buffer_peak_head`: where the oldest payload starts and its length. -/
def bufferPeakHead (rb : Buffer) : Option (Nat × Nat) :=
  if rb.head = rb.tail then none
  else
    let size := rb.data.word rb.head
    let headEnd := (rb.head + alignSize size) % rb.size
    some (if headEnd < rb.head then 0 else rb.head + 4, size)

def bufferPopHead (rb : Buffer) : Buffer :=
  if rb.head = rb.tail then rb
  else
    let size := rb.data.word rb.head
    let headEnd := (rb.head + alignSize size) % rb.size
    { rb with head := if headEnd < rb.head then size else headEnd }

/-- The payload that `buffer_peak_head` points to. -/
def bufferFront (rb : Buffer) : Option (List UInt8) :=
  (bufferPeakHead rb).map fun (p, size) => rb.data.read p size

theorem alignSize_ge (size : Nat) : size + 4 ≤ alignSize size := by
  unfold alignSize
  omega

section Room

/-- An entry of `align` bytes fits between the newest entry and what lies behind it. -/
def Buffer.FitsAhead (rb : Buffer) (align : Nat) : Prop :=
  rb.tail + align < if rb.tail < rb.head then rb.head else rb.size

/-- An entry of `align` bytes fits between the start of the ring and the oldest entry. -/
def Buffer.FitsAtStart (rb : Buffer) (align : Nat) : Prop := rb.head ≤ rb.tail ∧ align ≤ rb.head

instance (rb : Buffer) (align : Nat) : Decidable (rb.FitsAhead align) :=
  inferInstanceAs (Decidable (_ < _))

instance (rb : Buffer) (align : Nat) : Decidable (rb.FitsAtStart align) :=
  inferInstanceAs (Decidable (_ ∧ _))

variable {rb : Buffer} {data : List UInt8}

theorem le_freeSpace_iff {size head tail n : Nat} (hhead : head < size) (htail : tail < size) :
    n ≤ (size + head - tail - 1) % size ↔
      tail + n < if tail < head then head else size + head := by
  split_ifs with hwrapped
  · rw [show size + head - tail - 1 = head - tail - 1 + size by omega,Nat.add_mod_right,
      Nat.mod_eq_of_lt (by omega)]
    omega
  · rw [Nat.mod_eq_of_lt (by omega)]
    omega

theorem ringEnd_lt_iff {size p n : Nat} (hp : p < size) (hn : n < size) :
    (p + n) % size < p ↔ size ≤ p + n := by
  rcases Nat.lt_or_ge (p + n) size with hbelow | hpast
  · rw [Nat.mod_eq_of_lt hbelow]
    omega
  · rw [Nat.mod_eq_sub_mod hpast,Nat.mod_eq_of_lt (by omega)]
    omega

private theorem pushBranch_eq {α : Type*} (hhead : rb.head < rb.size) (htail : rb.tail < rb.size)
    (align : Nat) (refused atStart ahead : α) :
    (if align > (rb.size + rb.head - rb.tail - 1) % rb.size then refused
      else if (rb.tail + align) % rb.size < rb.tail then
        if rb.head < align then refused else atStart
      else ahead) =
      if rb.FitsAhead align then ahead else if rb.FitsAtStart align then atStart else refused := by
  have hfree := le_freeSpace_iff hhead htail (n := align)
  by_cases hwrapped : rb.tail < rb.head
  · have hahead : rb.FitsAhead align ↔ rb.tail + align < rb.head := by
      rw [Buffer.FitsAhead,if_pos hwrapped]
    have hstart : ¬rb.FitsAtStart align := fun h => absurd h.1 (by omega)
    rw [if_pos hwrapped] at hfree
    by_cases hroom : rb.tail + align < rb.head
    · have hend := ringEnd_lt_iff htail (by omega : align < rb.size)
      rw [if_neg (not_lt.mpr (hfree.mpr hroom)),if_neg (mt hend.mp (by omega)),
        if_pos (hahead.mpr hroom)]
    · rw [if_pos (lt_of_not_ge (mt hfree.mp hroom)),if_neg (mt hahead.mp hroom),if_neg hstart]
  · have hahead : rb.FitsAhead align ↔ rb.tail + align < rb.size := by
      rw [Buffer.FitsAhead,if_neg hwrapped]
    have hstart : rb.FitsAtStart align ↔ align ≤ rb.head := and_iff_right (by omega)
    rw [if_neg hwrapped] at hfree
    by_cases hroom : rb.tail + align < rb.size + rb.head
    · have hend := ringEnd_lt_iff htail (by omega : align < rb.size)
      rw [if_neg (not_lt.mpr (hfree.mpr hroom))]
      by_cases hpast : rb.size ≤ rb.tail + align
      · rw [if_pos (hend.mpr hpast),if_neg (mt hahead.mp (by omega))]
        by_cases hlow : align ≤ rb.head
        · rw [if_neg (by omega),if_pos (hstart.mpr hlow)]
        · rw [if_pos (by omega),if_neg (mt hstart.mp hlow)]
      · rw [if_neg (mt hend.mp hpast),if_pos (hahead.mpr (by omega))]
    · rw [if_pos (lt_of_not_ge (mt hfree.mp hroom)),if_neg (mt hahead.mp (by omega)),
        if_neg (mt hstart.mp (by omega))]

theorem Buffer.FitsAhead.below {align : Nat} (h : rb.FitsAhead align) (hhead : rb.head < rb.size) :
    rb.tail + align < rb.size := by
  unfold Buffer.FitsAhead at h
  split at h <;> omega

theorem bufferPushPlace_eq (hhead : rb.head < rb.size) (htail : rb.tail < rb.size) {n : Nat}
    (hn : 0 < n) :
    bufferPushPlace rb n =
      if rb.FitsAhead (alignSize n) then some (rb.tail + 4,rb.tail + alignSize n)
      else if rb.FitsAtStart (alignSize n) then some (0,n)
      else none := by
  rw [bufferPushPlace]
  dsimp only
  rw [if_neg (by omega : ¬(rb.size ≤ 0 ∨ n ≤ 0)),pushBranch_eq hhead htail]
  by_cases hahead : rb.FitsAhead (alignSize n)
  · rw [if_pos hahead,if_pos hahead,Nat.mod_eq_of_lt (hahead.below hhead)]
  · rw [if_neg hahead,if_neg hahead]

theorem bufferPushPlace_zero (rb : Buffer) : bufferPushPlace rb 0 = none := if_pos (.inr le_rfl)

theorem bufferPushTail_refused (h : bufferPushPlace rb data.length = none) :
    bufferPushTail rb data = (-1,rb) := by rw [bufferPushTail,h]

theorem bufferPushTail_placed {p tail : Nat} (h : bufferPushPlace rb data.length = some (p,tail)) :
    bufferPushTail rb data = ((data.length : Int),{ rb with
      data := (rb.data.writeWord rb.tail data.length).write p data, tail := tail }) := by
  rw [bufferPushTail,h]

theorem bufferPushTail_eq (hhead : rb.head < rb.size) (htail : rb.tail < rb.size)
    (hdata : 0 < data.length) :
    bufferPushTail rb data =
      if rb.FitsAhead (alignSize data.length) then
        ((data.length : Int),{ rb with
          data := (rb.data.writeWord rb.tail data.length).write (rb.tail + 4) data
          tail := rb.tail + alignSize data.length })
      else if rb.FitsAtStart (alignSize data.length) then
        ((data.length : Int),{ rb with
          data := (rb.data.writeWord rb.tail data.length).write 0 data
          tail := data.length })
      else (-1,rb) := by
  rw [bufferPushTail,bufferPushPlace_eq hhead htail hdata]
  by_cases hahead : rb.FitsAhead (alignSize data.length)
  · rw [if_pos hahead,if_pos hahead]
  · rw [if_neg hahead,if_neg hahead]
    by_cases hstart : rb.FitsAtStart (alignSize data.length)
    · rw [if_pos hstart,if_pos hstart]
    · rw [if_neg hstart,if_neg hstart]

end Room

end Esp32Ipc
