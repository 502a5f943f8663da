import Esp32Ipc.Framework.Run
import Esp32Ipc.Libpeer.Buffer

/-!
# The ring as a queue of payloads

From the head on, entries lie one behind the other up to the tail. At most one of them is wrapped:
those before it end at its length, those after it start behind its payload. A push appends and a
pop removes the oldest, whatever lengths went through before.
-/

namespace Esp32Ipc

open Framework

/-- The entries from `p` up to `q`, none of them wrapped. -/
def Straight (m : ByteMemory) : Nat → List (List UInt8) → Nat → Prop
  | p, [], q => p = q
  | p, e :: l, q => 0 < e.length ∧ m.word p = e.length ∧ m.read (p + 4) e.length = e ∧
      Straight m (p + alignSize e.length) l q

/-- The entry `e` keeps its length at `w` and its payload at offset 0. -/
structure Wrapped (rb : Buffer) (before : List (List UInt8)) (e : List UInt8)
    (after : List (List UInt8)) (w : Nat) : Prop where
  before : Straight rb.data rb.head before w
  inside : w < rb.size
  past : rb.size ≤ w + alignSize e.length
  room : alignSize e.length ≤ rb.head
  nonempty : 0 < e.length
  length : rb.data.word w = e.length
  payload : rb.data.read 0 e.length = e
  after : Straight rb.data e.length after rb.tail
  behind : rb.tail < rb.head

/-- The ring holds these payloads, the oldest first. Its size is an `int`. -/
structure Buffer.Holds (rb : Buffer) (l : List (List UInt8)) : Prop where
  size_lt : rb.size < 2147483648
  layout : Straight rb.data rb.head l rb.tail ∧ rb.tail < rb.size ∨
    ∃ before e after w, l = before ++ e :: after ∧ Wrapped rb before e after w

section Straight

variable {m m' : ByteMemory} {p q : Nat} {e : List UInt8} {l : List (List UInt8)}

theorem Straight.le (h : Straight m p l q) : p ≤ q := by
  induction l generalizing p with
  | nil => exact h.le
  | cons e l ih =>
    have hrest := ih h.2.2.2
    omega

theorem Straight.frame (h : Straight m p l q) (hsame : ByteMemory.SameOn m m' p q) :
    Straight m' p l q := by
  induction l generalizing p with
  | nil => exact h
  | cons e l ih =>
    obtain ⟨hne,hlength,hpayload,hrest⟩ := h
    have hbig := alignSize_ge e.length
    have hle := hrest.le
    refine ⟨hne,?_,?_,ih hrest (hsame.mono (by omega) (le_refl _))⟩
    · rw [(hsame.mono (le_refl p) (by omega : p + 4 ≤ q)).word_eq]
      exact hlength
    · rw [(hsame.mono (by omega) (by omega : p + 4 + e.length ≤ q)).read_eq]
      exact hpayload

theorem Straight.concat (h : Straight m p l q) (hne : 0 < e.length) (hlength : m.word q = e.length)
    (hpayload : m.read (q + 4) e.length = e) :
    Straight m p (l ++ [e]) (q + alignSize e.length) := by
  induction l generalizing p with
  | nil =>
    obtain rfl : p = q := h
    exact ⟨hne,hlength,hpayload,rfl⟩
  | cons a l ih => exact ⟨h.1,h.2.1,h.2.2.1,ih h.2.2.2⟩

end Straight

section Indices

variable {rb : Buffer} {l : List (List UInt8)}

theorem Buffer.Holds.indices (h : rb.Holds l) :
    rb.head < rb.size ∧ rb.tail < rb.size ∧ (rb.head = rb.tail ↔ l = []) := by
  rcases h.layout with ⟨hstraight,htail⟩ | ⟨before,e,after,w,rfl,hw⟩
  · have hle := hstraight.le
    refine ⟨by omega,htail,?_⟩
    cases l with
    | nil => exact iff_of_true hstraight rfl
    | cons e l =>
      have hrest := hstraight.2.2.2.le
      have hbig := alignSize_ge e.length
      exact iff_of_false (by omega) (List.cons_ne_nil e l)
  · have hle := hw.before.le
    have hbehind := hw.behind
    have hinside := hw.inside
    refine ⟨by omega,by omega,iff_of_false (by omega) (by simp)⟩

theorem bufferNew_holds {size : Nat} (hpos : 0 < size) (hsize : size < 2147483648) :
    (bufferNew size).Holds [] := ⟨hsize,.inl ⟨rfl,hpos⟩⟩

end Indices

section Push

variable {rb : Buffer} {l : List (List UInt8)} {data : List UInt8}

/-- The bytes from the newest entry on to the oldest one. -/
def Buffer.Free (rb : Buffer) (a : Nat) : Prop :=
  if rb.tail < rb.head then rb.tail ≤ a ∧ a < rb.head else a < rb.head ∨ rb.tail ≤ a

theorem Buffer.Holds.frame (h : rb.Holds l) {m : ByteMemory} (hsame : ∀ a, ¬rb.Free a → m a = rb.data a) :
    Buffer.Holds { rb with data := m } l := by
  refine ⟨h.size_lt,?_⟩
  rcases h.layout with ⟨hstraight,htail⟩ | ⟨before,e,after,w,rfl,hw⟩
  · have hle := hstraight.le
    have hold : ByteMemory.SameOn rb.data m rb.head rb.tail := by
      intro a hlow hhigh
      apply hsame
      rw [Buffer.Free,if_neg (by omega)]
      omega
    exact .inl ⟨hstraight.frame hold,htail⟩
  · have hle := hw.before.le
    have hafter := hw.after.le
    have hbehind := hw.behind
    have hold : ∀ a, rb.head ≤ a ∨ a < rb.tail → m a = rb.data a := by
      intro a ha
      apply hsame
      rw [Buffer.Free,if_pos hbehind]
      omega
    refine .inr ⟨before,e,after,w,rfl,?_⟩
    exact {
      before := hw.before.frame fun a hlow _ => hold a (.inl hlow)
      inside := hw.inside
      past := hw.past
      room := hw.room
      nonempty := hw.nonempty
      length := by
        have hword : ByteMemory.SameOn rb.data m w (w + 4) := fun a hlow _ => hold a (.inl (by omega))
        rw [hword.word_eq]
        exact hw.length
      payload := by
        have hblock : ByteMemory.SameOn rb.data m 0 (0 + e.length) :=
          fun a _ hhigh => hold a (.inr (by omega))
        rw [hblock.read_eq]
        exact hw.payload
      after := hw.after.frame fun a _ hhigh => hold a (.inr hhigh)
      behind := hbehind }

theorem Buffer.Holds.append_ahead (h : rb.Holds l) (hdata : 0 < data.length)
    (hfits : rb.FitsAhead (alignSize data.length)) (hword : rb.data.word rb.tail = data.length)
    (hpayload : rb.data.read (rb.tail + 4) data.length = data) :
    Buffer.Holds { rb with tail := rb.tail + alignSize data.length } (l ++ [data]) := by
  have hindices := h.indices
  have hbig := alignSize_ge data.length
  have hbelow := hfits.below hindices.1
  refine ⟨h.size_lt,?_⟩
  rcases h.layout with ⟨hstraight,_⟩ | ⟨before,e,after,w,rfl,hw⟩
  · exact .inl ⟨hstraight.concat hdata hword hpayload,hbelow⟩
  · have hbehind : rb.tail + alignSize data.length < rb.head := by
      unfold Buffer.FitsAhead at hfits
      rwa [if_pos hw.behind] at hfits
    refine .inr ⟨before,e,after ++ [data],w,by simp,?_⟩
    exact { hw with
      after := hw.after.concat hdata hword hpayload
      behind := hbehind }

theorem Buffer.Holds.append_atStart (h : rb.Holds l) (hdata : 0 < data.length)
    (hahead : ¬rb.FitsAhead (alignSize data.length))
    (hfits : rb.FitsAtStart (alignSize data.length)) (hword : rb.data.word rb.tail = data.length)
    (hpayload : rb.data.read 0 data.length = data) :
    Buffer.Holds { rb with tail := data.length } (l ++ [data]) := by
  have hbig := alignSize_ge data.length
  have hle := hfits.1
  have hroom := hfits.2
  have hpast : rb.size ≤ rb.tail + alignSize data.length := by
    unfold Buffer.FitsAhead at hahead
    rw [if_neg (by omega)] at hahead
    omega
  rcases h.layout with ⟨hstraight,htail⟩ | ⟨before,e,after,w,rfl,hw⟩
  · refine ⟨h.size_lt,.inr ⟨l,data,[],rb.tail,rfl,?_⟩⟩
    exact {
      before := hstraight
      inside := htail
      past := hpast
      room := hroom
      nonempty := hdata
      length := hword
      payload := hpayload
      after := rfl
      behind := by
        change data.length < rb.head
        omega }
  · exact absurd hw.behind (by omega)

private theorem stores_same {m : ByteMemory} {t n p a : Nat} (hword : a < t ∨ t + 4 ≤ a)
    (hblock : a < p ∨ p + data.length ≤ a) : (m.writeWord t n).write p data a = m a := by
  have hfirst : m.writeWord t n a = m a := if_neg (by rw [ByteMemory.wordBytes_length]; omega)
  exact (if_neg (by omega)).trans hfirst

private theorem stores_word {m : ByteMemory} {t p : Nat} (hlen : data.length < 2147483648)
    (hblock : p + data.length ≤ t ∨ t + 4 ≤ p) :
    ((m.writeWord t data.length).write p data).word t = data.length := by
  rw [(ByteMemory.write_sameOn hblock).word_eq]
  exact ByteMemory.word_writeWord (by omega)

theorem holds_ahead (h : rb.Holds l) (hdata : 0 < data.length)
    (hfits : rb.FitsAhead (alignSize data.length)) :
    Buffer.Holds { rb with
      data := (rb.data.writeWord rb.tail data.length).write (rb.tail + 4) data
      tail := rb.tail + alignSize data.length } (l ++ [data]) := by
  have hindices := h.indices
  have hsize := h.size_lt
  have hbig := alignSize_ge data.length
  have hroom : rb.tail + alignSize data.length < if rb.tail < rb.head then rb.head else rb.size := hfits
  have hstored := h.frame (m := (rb.data.writeWord rb.tail data.length).write (rb.tail + 4) data) <| by
    intro a ha
    unfold Buffer.Free at ha
    apply stores_same <;> split_ifs at ha hroom <;> omega
  refine hstored.append_ahead hdata hfits (stores_word ?_ (.inr (le_refl _))) ByteMemory.read_write
  split_ifs at hroom <;> omega

theorem holds_atStart (h : rb.Holds l) (hdata : 0 < data.length)
    (hahead : ¬rb.FitsAhead (alignSize data.length))
    (hfits : rb.FitsAtStart (alignSize data.length)) :
    Buffer.Holds { rb with
      data := (rb.data.writeWord rb.tail data.length).write 0 data
      tail := data.length } (l ++ [data]) := by
  have hindices := h.indices
  have hsize := h.size_lt
  have hbig := alignSize_ge data.length
  have hle := hfits.1
  have hroom := hfits.2
  have hstored := h.frame (m := (rb.data.writeWord rb.tail data.length).write 0 data) <| by
    intro a ha
    rw [Buffer.Free,if_neg (by omega)] at ha
    apply stores_same <;> omega
  exact hstored.append_atStart hdata hahead hfits (stores_word (by omega) (.inl (by omega)))
    ByteMemory.read_write

/-- `buffer_push_tail` appends the payload or refuses it. -/
theorem bufferPushTail_holds (h : rb.Holds l) (data : List UInt8) :
    bufferPushTail rb data = (-1,rb) ∨
      (bufferPushTail rb data).1 = data.length ∧ 0 < data.length ∧
        (bufferPushTail rb data).2.Holds (l ++ [data]) := by
  obtain ⟨hhead,htail,_⟩ := h.indices
  by_cases hdata : 0 < data.length
  · rw [bufferPushTail_eq hhead htail hdata]
    by_cases hahead : rb.FitsAhead (alignSize data.length)
    · rw [if_pos hahead]
      exact .inr ⟨rfl,hdata,holds_ahead h hdata hahead⟩
    · rw [if_neg hahead]
      by_cases hstart : rb.FitsAtStart (alignSize data.length)
      · rw [if_pos hstart]
        exact .inr ⟨rfl,hdata,holds_atStart h hdata hahead hstart⟩
      · exact .inl (if_neg hstart)
  · have hzero : data.length = 0 := by omega
    exact .inl (bufferPushTail_refused (hzero ▸ bufferPushPlace_zero rb))

end Push

section Pop

variable {rb : Buffer} {e : List UInt8} {l : List (List UInt8)} {n : Nat}

private theorem front_ahead (hne : rb.head ≠ rb.tail) (hword : rb.data.word rb.head = n)
    (hbelow : rb.head + alignSize n < rb.size) :
    bufferFront rb = some (rb.data.read (rb.head + 4) n) ∧
      bufferPopHead rb = { rb with head := rb.head + alignSize n } := by
  have hend : (rb.head + alignSize n) % rb.size = rb.head + alignSize n := Nat.mod_eq_of_lt hbelow
  simp only [bufferFront,bufferPeakHead,bufferPopHead,if_neg hne,hword,hend,
    if_neg (by omega : ¬rb.head + alignSize n < rb.head)]
  exact ⟨rfl,trivial⟩

private theorem front_atStart (hne : rb.head ≠ rb.tail) (hword : rb.data.word rb.head = n)
    (hhead : rb.head < rb.size) (hpast : rb.size ≤ rb.head + alignSize n)
    (hroom : alignSize n ≤ rb.head) :
    bufferFront rb = some (rb.data.read 0 n) ∧ bufferPopHead rb = { rb with head := n } := by
  have hend : (rb.head + alignSize n) % rb.size = rb.head + alignSize n - rb.size := by
    rw [Nat.mod_eq_sub_mod hpast,Nat.mod_eq_of_lt (by omega)]
  simp only [bufferFront,bufferPeakHead,bufferPopHead,if_neg hne,hword,hend,
    if_pos (by omega : rb.head + alignSize n - rb.size < rb.head)]
  exact ⟨rfl,trivial⟩

/-- `buffer_peak_head` shows the oldest payload and `buffer_pop_head` removes it. -/
theorem bufferPopHead_holds (h : rb.Holds (e :: l)) :
    bufferFront rb = some e ∧ (bufferPopHead rb).Holds l := by
  obtain ⟨hhead,htail,hiff⟩ := h.indices
  have hne : rb.head ≠ rb.tail := fun heq => List.cons_ne_nil e l (hiff.mp heq)
  rcases h.layout with ⟨hstraight,_⟩ | ⟨before,f,after,w,hl,hw⟩
  · obtain ⟨_,hlength,hpayload,hrest⟩ := hstraight
    have hle := hrest.le
    obtain ⟨hfront,hpop⟩ := front_ahead hne hlength (by omega)
    rw [hfront,hpop,hpayload]
    exact ⟨rfl,h.size_lt,.inl ⟨hrest,htail⟩⟩
  · cases before with
    | nil =>
      obtain ⟨rfl,rfl⟩ := List.cons.inj hl
      obtain rfl : rb.head = w := hw.before
      obtain ⟨hfront,hpop⟩ := front_atStart hne hw.length hhead hw.past hw.room
      rw [hfront,hpop,hw.payload]
      exact ⟨rfl,h.size_lt,.inl ⟨hw.after,htail⟩⟩
    | cons b before =>
      obtain ⟨rfl,rfl⟩ := List.cons.inj hl
      obtain ⟨_,hlength,hpayload,hrest⟩ := hw.before
      have hle := hrest.le
      have hinside := hw.inside
      obtain ⟨hfront,hpop⟩ := front_ahead hne hlength (by omega)
      rw [hfront,hpop,hpayload]
      refine ⟨rfl,h.size_lt,.inr ⟨before,f,after,w,rfl,?_⟩⟩
      exact {
        before := hrest
        inside := hw.inside
        past := hw.past
        room := hw.room.trans (Nat.le_add_right _ _)
        nonempty := hw.nonempty
        length := hw.length
        payload := hw.payload
        after := hw.after
        behind := hw.behind.trans_le (Nat.le_add_right _ _) }

theorem bufferPopHead_empty (h : rb.Holds []) : bufferFront rb = none ∧ bufferPopHead rb = rb := by
  have heq := h.indices.2.2.mpr rfl
  exact ⟨by rw [bufferFront,bufferPeakHead,if_pos heq]; rfl,if_pos heq⟩

end Pop

section Runs

/-- What the two sides of the ring do. -/
inductive BufferOp where
  | push (data : List UInt8)
  | pop
  deriving DecidableEq

def bufferStep (rb : Buffer) : BufferOp → Option Buffer
  | .push data => some (bufferPushTail rb data).2
  | .pop => some (bufferPopHead rb)

theorem bufferStep_size {rb rb' : Buffer} {e : BufferOp} (h : bufferStep rb e = some rb') :
    rb'.size = rb.size := by
  cases e with
  | push data =>
    obtain rfl : (bufferPushTail rb data).2 = rb' := Option.some.inj h
    rw [bufferPushTail]
    split <;> rfl
  | pop =>
    obtain rfl : bufferPopHead rb = rb' := Option.some.inj h
    rw [bufferPopHead]
    split <;> rfl

def accepted (ms : List (Buffer × BufferOp)) : List (List UInt8) :=
  ms.filterMap fun
    | (rb, .push data) => if (bufferPushTail rb data).1 < 0 then none else some data
    | (_, .pop) => none

def delivered (ms : List (Buffer × BufferOp)) : List (List UInt8) :=
  ms.filterMap fun
    | (_, .push _) => none
    | (rb, .pop) => bufferFront rb

private theorem bufferStep_queue {rb rb' : Buffer} {e : BufferOp} {l : List (List UInt8)}
    (h : rb.Holds l) (hstep : bufferStep rb e = some rb') :
    ∃ l', rb'.Holds l' ∧ l ++ accepted [(rb,e)] = delivered [(rb,e)] ++ l' := by
  cases e with
  | push data =>
    obtain rfl : (bufferPushTail rb data).2 = rb' := Option.some.inj hstep
    rcases bufferPushTail_holds h data with hrefused | ⟨hret,_,hpushed⟩
    · refine ⟨l,by rwa [hrefused],?_⟩
      simp [accepted,delivered,hrefused]
    · refine ⟨l ++ [data],hpushed,?_⟩
      simp [accepted,delivered,hret]
  | pop =>
    obtain rfl : bufferPopHead rb = rb' := Option.some.inj hstep
    cases l with
    | nil =>
      obtain ⟨hfront,hpop⟩ := bufferPopHead_empty h
      exact ⟨[],by rwa [hpop],by simp [accepted,delivered,hfront]⟩
    | cons a l =>
      obtain ⟨hfront,hpop⟩ := bufferPopHead_holds h
      exact ⟨l,hpop,by simp [accepted,delivered,hfront]⟩

/-- Over any run of pushes and pops the ring is a queue: what was taken out, followed by what it
holds, is what it took in. -/
theorem buffer_queue {size : Nat} (hpos : 0 < size) (hsize : size < 2147483648)
    {es : List BufferOp} {rb : Buffer} (hrun : runEvents bufferStep (bufferNew size) es = some rb) :
    ∃ l, rb.Holds l ∧ rb.size = size ∧
      accepted (moments bufferStep (bufferNew size) es) =
        delivered (moments bufferStep (bufferNew size) es) ++ l := by
  induction es, rb, hrun using runEvents_induction with
  | nil => exact ⟨[],bufferNew_holds hpos hsize,rfl,rfl⟩
  | concat es rb e rb' hrun hstep ih =>
    obtain ⟨l,hholds,hrb,hqueue⟩ := ih
    obtain ⟨l',hholds',hcall⟩ := bufferStep_queue hholds hstep
    refine ⟨l',hholds',(bufferStep_size hstep).trans hrb,?_⟩
    have haccepted : ∀ ms ms', accepted (ms ++ ms') = accepted ms ++ accepted ms' :=
      fun ms ms' => List.filterMap_append
    have hdelivered : ∀ ms ms', delivered (ms ++ ms') = delivered ms ++ delivered ms' :=
      fun ms ms' => List.filterMap_append
    rw [moments_concat hrun,haccepted,hdelivered,hqueue,List.append_assoc,List.append_assoc,hcall]

end Runs

end Esp32Ipc
