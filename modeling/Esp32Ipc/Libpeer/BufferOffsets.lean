import Esp32Ipc.Libpeer.BufferRing

/-!
# Where the entries lie

The offset of an entry and its length give the offset of the next one, by the same wrap test that
`buffer_pop_head` makes. The queue can be followed in this way from the head to the tail, cut at any
entry, and told apart from the free bytes.
-/

namespace Esp32Ipc

open Framework

section Offsets

/-- Where the entry behind an entry of `n` bytes at `p` lies. -/
def entryEnd (size p n : Nat) : Nat :=
  if (p + alignSize n) % size < p then n else (p + alignSize n) % size

/-- The offsets of the length words of the entries from `p` on. -/
def lengthOffsets (size : Nat) : Nat → List (List UInt8) → List Nat
  | _, [] => []
  | p, e :: l => p :: lengthOffsets size (entryEnd size p e.length) l

/-- Where each of the entries from `p` on ends. -/
def entryStops (size : Nat) : Nat → List (List UInt8) → List Nat
  | _, [] => []
  | p, e :: l => entryEnd size p e.length :: entryStops size (entryEnd size p e.length) l

/-- Where the payload of an entry of `n` bytes at `p` starts. -/
def payloadStart (size p n : Nat) : Nat := if (p + alignSize n) % size < p then 0 else p + 4

/-- Byte `a` belongs to one of the entries from `p` on, to its length or to its payload. -/
def EntryByte (size : Nat) : Nat → List (List UInt8) → Nat → Prop
  | _, [], _ => False
  | p, e :: l, a =>
    p ≤ a ∧ a < p + 4 ∨
      payloadStart size p e.length ≤ a ∧ a < payloadStart size p e.length + e.length ∨
      EntryByte size (entryEnd size p e.length) l a

def entriesEnd (size : Nat) : Nat → List (List UInt8) → Nat
  | p, [] => p
  | p, e :: l => entriesEnd size (entryEnd size p e.length) l

variable {size p q n : Nat} {l l' : List (List UInt8)} {e : List UInt8}

theorem entriesEnd_append : entriesEnd size p (l ++ l') = entriesEnd size (entriesEnd size p l) l' := by
  induction l generalizing p with
  | nil => rfl
  | cons e l ih => exact ih

theorem lengthOffsets_append :
    lengthOffsets size p (l ++ l') =
      lengthOffsets size p l ++ lengthOffsets size (entriesEnd size p l) l' := by
  induction l generalizing p with
  | nil => rfl
  | cons e l ih => exact congrArg (p :: ·) ih

theorem entryStops_append :
    entryStops size p (l ++ l') =
      entryStops size p l ++ entryStops size (entriesEnd size p l) l' := by
  induction l generalizing p with
  | nil => rfl
  | cons e l ih => exact congrArg (entryEnd size p e.length :: ·) ih

theorem entryByte_append {a : Nat} : EntryByte size p (l ++ l') a ↔
    EntryByte size p l a ∨ EntryByte size (entriesEnd size p l) l' a := by
  induction l generalizing p with
  | nil => simp [EntryByte,entriesEnd]
  | cons e l ih => simp only [List.cons_append,EntryByte,entriesEnd,ih,or_assoc]

theorem entryEnd_ahead (h : p + alignSize n < size) : entryEnd size p n = p + alignSize n := by
  rw [entryEnd,Nat.mod_eq_of_lt h,if_neg (by omega)]

theorem entryEnd_atStart (hp : p < size) (hpast : size ≤ p + alignSize n) (hn : alignSize n < size) :
    entryEnd size p n = n := if_pos ((ringEnd_lt_iff hp hn).mpr hpast)

theorem payloadStart_ahead (h : p + alignSize n < size) : payloadStart size p n = p + 4 := by
  rw [payloadStart,Nat.mod_eq_of_lt h,if_neg (by omega)]

theorem payloadStart_atStart (hp : p < size) (hpast : size ≤ p + alignSize n)
    (hn : alignSize n < size) : payloadStart size p n = 0 :=
  if_pos ((ringEnd_lt_iff hp hn).mpr hpast)

theorem Straight.entriesEnd_eq {m : ByteMemory} (h : Straight m p l q) (hq : q < size) :
    entriesEnd size p l = q := by
  induction l generalizing p with
  | nil => exact h
  | cons e l ih =>
    have hrest := h.2.2.2
    have hle := hrest.le
    rw [entriesEnd,entryEnd_ahead (by omega)]
    exact ih hrest

theorem Buffer.Holds.entriesEnd_eq {rb : Buffer} (h : rb.Holds l) :
    entriesEnd rb.size rb.head l = rb.tail := by
  rcases h.layout with ⟨hstraight,htail⟩ | ⟨before,e,after,w,rfl,hw⟩
  · exact hstraight.entriesEnd_eq htail
  · have hindices := h.indices
    have hle := hw.before.le
    have hroom := hw.room
    rw [entriesEnd_append,hw.before.entriesEnd_eq hw.inside,entriesEnd,
      entryEnd_atStart hw.inside hw.past (by omega)]
    exact hw.after.entriesEnd_eq hindices.2.1

end Offsets

section Front

variable {rb : Buffer} {e : List UInt8} {l : List (List UInt8)}

theorem Buffer.Holds.front (h : rb.Holds (e :: l)) :
    rb.head ≠ rb.tail ∧ rb.data.word rb.head = e.length ∧
      (rb.head + alignSize e.length < rb.size ∨
        rb.size ≤ rb.head + alignSize e.length ∧ alignSize e.length ≤ rb.head) := by
  have hindices := h.indices
  have hne : rb.head ≠ rb.tail := fun heq => List.cons_ne_nil e l (hindices.2.2.mp heq)
  refine ⟨hne,?_⟩
  rcases h.layout with ⟨hstraight,_⟩ | ⟨before,f,after,w,hl,hw⟩
  · have hle := hstraight.2.2.2.le
    exact ⟨hstraight.2.1,.inl (by omega)⟩
  · cases before with
    | nil =>
      have hhead : rb.head = w := hw.before
      have hcons := List.cons.inj hl
      rw [hcons.1,hhead]
      exact ⟨hw.length,.inr ⟨hw.past,hhead ▸ hw.room⟩⟩
    | cons b before =>
      have hcons := List.cons.inj hl
      have hbefore := hw.before
      have hle := hbefore.2.2.2.le
      have hinside := hw.inside
      rw [hcons.1]
      exact ⟨hbefore.2.1,.inl (by omega)⟩

theorem bufferPopHead_eq (h : rb.Holds (e :: l)) :
    bufferPopHead rb = { rb with head := entryEnd rb.size rb.head e.length } := by
  have hfront := h.front
  rw [bufferPopHead,if_neg hfront.1]
  dsimp only
  rw [hfront.2.1]
  rfl

end Front

section Cut

variable {rb : Buffer} {e : List UInt8} {l l' : List (List UInt8)}

theorem Straight.split {m : ByteMemory} {p q : Nat} (h : Straight m p (l ++ l') q) :
    ∃ r, Straight m p l r ∧ Straight m r l' q := by
  induction l generalizing p with
  | nil => exact ⟨p,rfl,h⟩
  | cons e l ih =>
    obtain ⟨r,hleft,hright⟩ := ih h.2.2.2
    exact ⟨r,⟨h.1,h.2.1,h.2.2.1,hleft⟩,hright⟩

theorem Buffer.Holds.drop (h : rb.Holds (l ++ l')) :
    Buffer.Holds { rb with head := entriesEnd rb.size rb.head l } l' := by
  induction l generalizing rb with
  | nil => exact h
  | cons e l ih =>
    have hpop := (bufferPopHead_holds h).2
    rw [bufferPopHead_eq h] at hpop
    exact ih hpop

theorem Buffer.Holds.take (h : rb.Holds (l ++ l')) :
    Buffer.Holds { rb with tail := entriesEnd rb.size rb.head l } l := by
  refine ⟨h.size_lt,?_⟩
  rcases h.layout with ⟨hstraight,htail⟩ | ⟨before,e,after,w,hl,hw⟩
  · obtain ⟨r,hleft,hright⟩ := hstraight.split
    have hle := hright.le
    have hr : r < rb.size := by omega
    rw [hleft.entriesEnd_eq hr]
    exact .inl ⟨hleft,hr⟩
  · have hinside := hw.inside
    rcases List.append_eq_append_iff.mp hl with ⟨mid,hbefore,_⟩ | ⟨mid,hleft,hright⟩
    · have hstraight := hw.before
      rw [hbefore] at hstraight
      obtain ⟨r,hleft,hright⟩ := hstraight.split
      have hle := hright.le
      have hr : r < rb.size := by omega
      rw [hleft.entriesEnd_eq hr]
      exact .inl ⟨hleft,hr⟩
    · cases mid with
      | nil =>
        rw [List.append_nil] at hleft
        subst hleft
        rw [hw.before.entriesEnd_eq hinside]
        exact .inl ⟨hw.before,hinside⟩
      | cons f mid =>
        have hcons := List.cons.inj hright
        have hafter := hw.after
        rw [hcons.2] at hafter
        obtain ⟨r,hmid,hrest⟩ := hafter.split
        have hindices := h.indices
        have hbehind := hw.behind
        have hroom := hw.room
        have hle := hrest.le
        have hend : entriesEnd rb.size rb.head l = r := by
          rw [hleft,entriesEnd_append,hw.before.entriesEnd_eq hinside,← hcons.1,entriesEnd,
            entryEnd_atStart hinside hw.past (by omega)]
          exact hmid.entriesEnd_eq (by omega)
        rw [hend]
        refine .inr ⟨before,e,mid,w,by rw [hleft,hcons.1],?_⟩
        exact { hw with
          after := hmid
          behind := by
            change r < rb.head
            omega }

theorem Buffer.Holds.front_payload (h : rb.Holds (e :: l)) :
    rb.data.read (payloadStart rb.size rb.head e.length) e.length = e := by
  have hpeak := (bufferPopHead_holds h).1
  rw [bufferFront,bufferPeakHead,if_neg h.front.1] at hpeak
  dsimp only at hpeak
  rw [h.front.2.1] at hpeak
  exact Option.some.inj hpeak

theorem Buffer.Holds.entryEnd_order (h : rb.Holds (e :: l)) :
    rb.head ≤ rb.tail ∧ rb.head ≤ entryEnd rb.size rb.head e.length ∧
        entryEnd rb.size rb.head e.length ≤ rb.tail ∨
      rb.tail < rb.head ∧ rb.head ≤ entryEnd rb.size rb.head e.length ∨
      rb.tail < rb.head ∧ entryEnd rb.size rb.head e.length ≤ rb.tail := by
  have hindices := h.indices
  have hrest : Buffer.Holds { rb with head := entryEnd rb.size rb.head e.length } l :=
    Buffer.Holds.drop (show rb.Holds ([e] ++ l) from h)
  have hbig := alignSize_ge e.length
  rcases h.layout with ⟨hstraight,_⟩ | ⟨before,f,after,w,hl,hw⟩
  · have hle := hstraight.2.2.2.le
    rw [entryEnd_ahead (by omega)]
    omega
  · have hbehind := hw.behind
    rcases h.front.2.2 with hahead | ⟨hpast,hroom⟩
    · rw [entryEnd_ahead hahead]
      omega
    · cases before with
      | nil =>
        have hafter := hw.after.le
        have hcons := List.cons.inj hl
        rw [entryEnd_atStart hindices.1 hpast (by omega),hcons.1]
        omega
      | cons b before =>
        have hcons := List.cons.inj hl
        have hle := hw.before.2.2.2.le
        have hinside := hw.inside
        rw [← hcons.1] at hle
        omega

private theorem Straight.entryByte {m : ByteMemory} {size p q a : Nat} (h : Straight m p l q)
    (hq : q < size) (ha : EntryByte size p l a) : p ≤ a ∧ a < q := by
  induction l generalizing p with
  | nil => exact ha.elim
  | cons e l ih =>
    have hrest := h.2.2.2
    have hle := hrest.le
    have hbig := alignSize_ge e.length
    rw [EntryByte,payloadStart_ahead (by omega),entryEnd_ahead (by omega)] at ha
    rcases ha with hlength | hpayload | hlater
    · omega
    · omega
    · have hin := ih hrest hlater
      omega

theorem Buffer.Holds.entryByte {a : Nat} (h : rb.Holds l) (ha : EntryByte rb.size rb.head l a) :
    ¬rb.Free a := by
  have hindices := h.indices
  unfold Buffer.Free
  rcases h.layout with ⟨hstraight,htail⟩ | ⟨before,e,after,w,rfl,hw⟩
  · have hin := hstraight.entryByte htail ha
    rw [if_neg (by omega)]
    omega
  · have hle := hw.before.le
    have hafter := hw.after.le
    have hroom := hw.room
    have hbehind := hw.behind
    rw [if_pos hbehind]
    rw [entryByte_append,hw.before.entriesEnd_eq hw.inside,EntryByte,
      payloadStart_atStart hw.inside hw.past (by omega),
      entryEnd_atStart hw.inside hw.past (by omega)] at ha
    rcases ha with hbefore | hlength | hpayload | hlater
    · have hin := hw.before.entryByte hw.inside hbefore
      omega
    · omega
    · omega
    · have hin := hw.after.entryByte hindices.2.1 hlater
      omega

end Cut

end Esp32Ipc
