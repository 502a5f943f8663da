import Esp32Ipc.Libpeer.BufferSpsc

/-!
# The lock-free ring is a queue

Seen from the producer the ring holds the entries popped but not yet known to be, those that the
consumer can see and those that it cannot see yet. Every index value in flight is the end of one of
these entries, so a side that acts on an old value only sees less room or fewer entries.
-/

namespace Esp32Ipc

open Framework

/-- The queue behind the indices: entries popped without the producer knowing, entries the consumer
can see, entries still hidden from it. -/
structure SharedQueue (rb : Buffer) (head tailSeen : Nat) (heads tails : List Nat)
    (gone seen fresh : List (List UInt8)) : Prop where
  holds : rb.Holds (gone ++ (seen ++ fresh))
  head_eq : entriesEnd rb.size rb.head gone = head
  heads_eq : heads = entryStops rb.size rb.head gone
  tailSeen_eq : entriesEnd rb.size head seen = tailSeen
  tails_eq : tails = entryStops rb.size tailSeen fresh
  aligned : ∀ p ∈ lengthOffsets rb.size rb.head (gone ++ (seen ++ fresh)), p % 4 = 0
  tail_aligned : rb.tail % 4 = 0

/-- The payload goes to `p` and the tail to `tail`, over free bytes. -/
def Placed (rb : Buffer) (data : List UInt8) (p tail : Nat) : Prop :=
  0 < data.length ∧ data.length % 4 = 0 ∧
    (rb.FitsAhead (alignSize data.length) ∧ p = rb.tail + 4 ∧
        tail = rb.tail + alignSize data.length ∨
      ¬rb.FitsAhead (alignSize data.length) ∧ rb.FitsAtStart (alignSize data.length) ∧
        p = 0 ∧ tail = data.length)

def ProducerSound (rb : Buffer) : ProducerPoint → Prop
  | .idle => True
  | .placing data => 0 < data.length ∧ data.length % 4 = 0 ∧
      rb.tail + alignSize data.length < if rb.tail < rb.head then rb.head else rb.size + rb.head
  | .storing data p tail => Placed rb data p tail
  | .copying data p tail copied => Placed rb data p tail ∧ copied ≤ data.length ∧
      rb.data.word rb.tail = data.length ∧ rb.data.read p copied = data.take copied

/-- The consumer has delivered what it popped, and the entry in its hand from the encoding on. -/
def ConsumerSound (size head : Nat) (popped delivered seen : List (List UInt8)) :
    ConsumerPoint → Prop
  | .idle => delivered = popped
  | .peeked => delivered = popped ∧ seen ≠ []
  | .reading p n got => delivered = popped ∧ ∃ e l, seen = e :: l ∧ n = e.length ∧
      p = payloadStart size head n ∧ got.length ≤ n ∧ got = e.take got.length
  | .encoded => ∃ e l, seen = e :: l ∧ delivered = popped ++ [e]
  | .popping => ∃ e l, seen = e :: l ∧ delivered = popped ++ [e]
  | .moving h => ∃ e l, seen = e :: l ∧ delivered = popped ++ [e] ∧ h = entryEnd size head e.length

structure Spsc.Sound (s : Spsc) (done gone seen fresh : List (List UInt8)) : Prop where
  queue : SharedQueue s.view s.head s.tailSeen s.headsInFlight s.tailsInFlight gone seen fresh
  accepted : s.accepted = done ++ gone ++ (seen ++ fresh)
  popped : s.popped = (done ++ gone).length
  producer : ProducerSound s.view s.producer
  consumer : ConsumerSound s.size s.head (done ++ gone) s.delivered seen s.consumer

section Placed

variable {rb : Buffer} {data : List UInt8} {p tail : Nat} {l : List (List UInt8)}

theorem Placed.free (h : Placed rb data p tail) {a : Nat}
    (ha : rb.tail ≤ a ∧ a < rb.tail + 4 ∨ p ≤ a ∧ a < p + data.length) : rb.Free a := by
  have hbig := alignSize_ge data.length
  unfold Buffer.Free
  rcases h.2.2 with ⟨hahead,hp,_⟩ | ⟨_,hstart,hp,_⟩
  · unfold Buffer.FitsAhead at hahead
    split_ifs at hahead ⊢ <;> omega
  · have hle := hstart.1
    have hroom := hstart.2
    rw [if_neg (by omega)]
    omega

theorem Placed.apart (h : Placed rb data p tail) : p + data.length ≤ rb.tail ∨ rb.tail + 4 ≤ p := by
  have hbig := alignSize_ge data.length
  rcases h.2.2 with ⟨_,hp,_⟩ | ⟨_,hstart,hp,_⟩
  · omega
  · have hle := hstart.1
    have hroom := hstart.2
    omega

theorem Placed.within (h : Placed rb data p tail) (hhead : rb.head < rb.size)
    (htail : rb.tail < rb.size) (hsize : rb.size % 4 = 0) (haligned : rb.tail % 4 = 0) :
    rb.tail + 4 ≤ rb.size ∧ p + data.length ≤ rb.size := by
  have hbig := alignSize_ge data.length
  rcases h.2.2 with ⟨hahead,hp,_⟩ | ⟨_,hstart,hp,_⟩
  · have hbelow := hahead.below hhead
    omega
  · have hroom := hstart.2
    omega

theorem Placed.tail_eq (h : Placed rb data p tail) (hhead : rb.head < rb.size)
    (htail : rb.tail < rb.size) : tail = entryEnd rb.size rb.tail data.length := by
  rcases h.2.2 with ⟨hahead,_,hnew⟩ | ⟨hnot,hstart,_,hnew⟩
  · rw [entryEnd_ahead (hahead.below hhead)]
    exact hnew
  · have hle := hstart.1
    have hroom := hstart.2
    rw [Buffer.FitsAhead,if_neg (by omega)] at hnot
    rw [entryEnd_atStart htail (by omega) (by omega)]
    exact hnew

theorem Placed.tail_aligned (h : Placed rb data p tail) (haligned : rb.tail % 4 = 0) :
    tail % 4 = 0 := by
  have hmultiple : alignSize data.length % 4 = 0 := Nat.mul_mod_left _ _
  have hlen := h.2.1
  rcases h.2.2 with ⟨_,_,hnew⟩ | ⟨_,_,_,hnew⟩ <;> omega

theorem Placed.append (h : Placed rb data p tail) (hholds : rb.Holds l)
    (hword : rb.data.word rb.tail = data.length) (hpayload : rb.data.read p data.length = data) :
    Buffer.Holds { rb with tail := tail } (l ++ [data]) := by
  rcases h.2.2 with ⟨hahead,rfl,rfl⟩ | ⟨hnot,hstart,rfl,rfl⟩
  · exact hholds.append_ahead h.1 hahead hword hpayload
  · exact hholds.append_atStart h.1 hnot hstart hword hpayload

theorem ProducerSound.pop {e : List UInt8} {point : ProducerPoint} (h : ProducerSound rb point)
    (hholds : rb.Holds (e :: l)) :
    ProducerSound { rb with head := entryEnd rb.size rb.head e.length } point := by
  have hindices := hholds.indices
  have horder := hholds.entryEnd_order
  have hplaced : ∀ {data p tail}, Placed rb data p tail →
      Placed { rb with head := entryEnd rb.size rb.head e.length } data p tail := by
    intro data p tail hp
    refine ⟨hp.1,hp.2.1,?_⟩
    rcases hp.2.2 with ⟨hahead,hrest⟩ | ⟨hnot,hstart,hrest⟩
    · refine .inl ⟨?_,hrest⟩
      unfold Buffer.FitsAhead at hahead ⊢
      dsimp only
      split_ifs at hahead ⊢ <;> omega
    · have hle := hstart.1
      have hroom := hstart.2
      refine .inr ⟨?_,?_,hrest⟩
      · rw [Buffer.FitsAhead,if_neg (by omega)] at hnot
        rw [Buffer.FitsAhead]
        dsimp only
        rw [if_neg (by omega)]
        exact hnot
      · refine ⟨?_,?_⟩ <;> dsimp only <;> omega
  cases point with
  | idle => trivial
  | placing data =>
    refine ⟨h.1,h.2.1,?_⟩
    have hroom := h.2.2
    dsimp only
    split_ifs at hroom ⊢ <;> omega
  | storing data p tail => exact hplaced h
  | copying data p tail copied => exact ⟨hplaced h.1,h.2⟩

end Placed

section Queue

variable {rb : Buffer} {head tailSeen : Nat} {heads tails : List Nat}
variable {gone seen fresh : List (List UInt8)} {e : List UInt8} {l : List (List UInt8)}

theorem SharedQueue.live (h : SharedQueue rb head tailSeen heads tails gone seen fresh) :
    Buffer.Holds { rb with head := head } (seen ++ fresh) := h.head_eq ▸ h.holds.drop

theorem SharedQueue.visible (h : SharedQueue rb head tailSeen heads tails gone seen fresh) :
    Buffer.Holds { rb with head := head, tail := tailSeen } seen := by
  have htake := h.live.take
  rw [show entriesEnd rb.size head seen = tailSeen from h.tailSeen_eq] at htake
  exact htake

theorem SharedQueue.store (h : SharedQueue rb head tailSeen heads tails gone seen fresh)
    {m : ByteMemory} (hsame : ∀ a, ¬rb.Free a → m a = rb.data a) :
    SharedQueue { rb with data := m } head tailSeen heads tails gone seen fresh :=
  { h with holds := h.holds.frame hsame }

theorem SharedQueue.publishTail (h : SharedQueue rb head tailSeen heads tails gone seen fresh)
    {data : List UInt8} {p tail : Nat} (hplaced : Placed rb data p tail)
    (hword : rb.data.word rb.tail = data.length) (hpayload : rb.data.read p data.length = data) :
    SharedQueue { rb with tail := tail } head tailSeen heads (tails ++ [tail]) gone seen
      (fresh ++ [data]) := by
  have hindices := h.holds.indices
  have hassoc : gone ++ (seen ++ (fresh ++ [data])) = gone ++ (seen ++ fresh) ++ [data] := by simp
  have hend : entriesEnd rb.size tailSeen fresh = rb.tail := by
    have hall := h.holds.entriesEnd_eq
    rwa [entriesEnd_append,entriesEnd_append,h.head_eq,h.tailSeen_eq] at hall
  refine ⟨?_,h.head_eq,h.heads_eq,h.tailSeen_eq,?_,?_,hplaced.tail_aligned h.tail_aligned⟩
  · rw [hassoc]
    exact hplaced.append h.holds hword hpayload
  · rw [entryStops_append,← h.tails_eq]
    dsimp only
    rw [hend,hplaced.tail_eq hindices.1 hindices.2.1]
    rfl
  · intro q hq
    dsimp only at hq
    rw [hassoc,lengthOffsets_append,h.holds.entriesEnd_eq,List.mem_append] at hq
    cases hq with
    | inl hold => exact h.aligned q hold
    | inr hnew =>
      rw [List.mem_singleton.mp hnew]
      exact h.tail_aligned

theorem SharedQueue.publishHead (h : SharedQueue rb head tailSeen heads tails gone (e :: l) fresh) :
    SharedQueue rb (entryEnd rb.size head e.length) tailSeen
      (heads ++ [entryEnd rb.size head e.length]) tails (gone ++ [e]) l fresh := by
  have hassoc : gone ++ [e] ++ (l ++ fresh) = gone ++ (e :: l ++ fresh) := by simp
  refine ⟨?_,?_,?_,h.tailSeen_eq,h.tails_eq,?_,h.tail_aligned⟩
  · rw [hassoc]
    exact h.holds
  · rw [entriesEnd_append,h.head_eq]
    rfl
  · rw [entryStops_append,h.head_eq,← h.heads_eq]
    rfl
  · rw [hassoc]
    exact h.aligned

theorem SharedQueue.seeHead {newHead : Nat} {later : List Nat}
    (h : SharedQueue rb head tailSeen (newHead :: later) tails gone seen fresh) :
    ∃ g rest, gone = g :: rest ∧ newHead = entryEnd rb.size rb.head g.length ∧
      SharedQueue { rb with head := newHead } head tailSeen later tails rest seen fresh := by
  cases gone with
  | nil => exact absurd h.heads_eq (List.cons_ne_nil _ _)
  | cons g rest =>
    have hheads := List.cons.inj h.heads_eq
    have hdrop := Buffer.Holds.drop (l := [g]) h.holds
    rw [hheads.1]
    refine ⟨g,rest,rfl,rfl,hdrop,h.head_eq,hheads.2,h.tailSeen_eq,h.tails_eq,?_,h.tail_aligned⟩
    intro q hq
    exact h.aligned q (List.mem_cons_of_mem _ hq)

theorem SharedQueue.seeTail {newTail : Nat} {later : List Nat}
    (h : SharedQueue rb head tailSeen heads (newTail :: later) gone seen fresh) :
    ∃ f rest, fresh = f :: rest ∧
      SharedQueue rb head newTail heads later gone (seen ++ [f]) rest := by
  cases fresh with
  | nil => exact absurd h.tails_eq (List.cons_ne_nil _ _)
  | cons f rest =>
    have htails := List.cons.inj h.tails_eq
    have hassoc : gone ++ (seen ++ [f] ++ rest) = gone ++ (seen ++ f :: rest) := by simp
    refine ⟨f,rest,rfl,?_,h.head_eq,h.heads_eq,?_,?_,?_,h.tail_aligned⟩
    · rw [hassoc]
      exact h.holds
    · rw [entriesEnd_append,h.tailSeen_eq,htails.1]
      rfl
    · rw [htails.1]
      exact htails.2
    · rw [hassoc]
      exact h.aligned

end Queue

section Steps

variable {s t : Spsc} {done gone seen fresh : List (List UInt8)}

theorem Spsc.Sound.front_word {e : List UInt8} {l : List (List UInt8)}
    (h : s.Sound done gone (e :: l) fresh) : s.data.word s.head = e.length := h.queue.live.front.2.1

theorem Spsc.Sound.front_byte {e : List UInt8} {l : List (List UInt8)}
    (h : s.Sound done gone (e :: l) fresh) {k : Nat} (hk : k < e.length) :
    e.take k ++ [s.data (payloadStart s.size s.head e.length + k)] = e.take (k + 1) := by
  have hread := h.queue.live.front_payload
  have hbyte : s.data (payloadStart s.size s.head e.length + k) = e[k] := by
    have hget := congrArg (fun l => l[k]?) hread
    simpa [ByteMemory.read,hk,Spsc.view] using hget
  rw [hbyte,List.take_succ_eq_append_getElem hk]

private theorem sound_of_producer {point : ProducerPoint} (h : s.Sound done gone seen fresh)
    (hpoint : ProducerSound s.view point) :
    Spsc.Sound { s with producer := point } done gone seen fresh :=
  ⟨h.queue,h.accepted,h.popped,hpoint,h.consumer⟩

private theorem sound_of_consumer {point : ConsumerPoint} {delivered : List (List UInt8)}
    (h : s.Sound done gone seen fresh)
    (hpoint : ConsumerSound s.size s.head (done ++ gone) delivered seen point) :
    Spsc.Sound { s with consumer := point, delivered := delivered } done gone seen fresh :=
  ⟨h.queue,h.accepted,h.popped,h.producer,hpoint⟩

private theorem sound_of_store {m : ByteMemory} {point : ProducerPoint}
    (h : s.Sound done gone seen fresh) (hsame : ∀ a, ¬s.view.Free a → m a = s.data a)
    (hpoint : ProducerSound { s.view with data := m } point) :
    Spsc.Sound { s with data := m, producer := point } done gone seen fresh :=
  ⟨h.queue.store hsame,h.accepted,h.popped,hpoint,h.consumer⟩

theorem sound_push {data : List UInt8} (h : s.Sound done gone seen fresh) (hdata : 0 < data.length)
    (hmultiple : data.length % 4 = 0)
    (hfree : alignSize data.length ≤ (s.size + s.headSeen - s.tail - 1) % s.size) :
    Spsc.Sound { s with producer := .placing data } done gone seen fresh := by
  have hindices := h.queue.holds.indices
  exact sound_of_producer h
    ⟨hdata,hmultiple,(le_freeSpace_iff hindices.1 hindices.2.1).mp hfree⟩

/-- The second look at the head decides on the offset; the first one has seen to the room. -/
theorem sound_place {data : List UInt8} (h : s.Sound done gone seen fresh)
    (hplacing : s.producer = .placing data) :
    ((s.tail + alignSize data.length) % s.size < s.tail → alignSize data.length ≤ s.headSeen →
        Placed s.view data 0 data.length) ∧
      (¬(s.tail + alignSize data.length) % s.size < s.tail →
        Placed s.view data (s.tail + 4) ((s.tail + alignSize data.length) % s.size)) := by
  have hindices := h.queue.holds.indices
  have hpoint := h.producer
  rw [hplacing] at hpoint
  have hroom : s.tail + alignSize data.length <
    if s.tail < s.headSeen then s.headSeen else s.size + s.headSeen := hpoint.2.2
  have hhead : s.headSeen < s.size := hindices.1
  have htail : s.tail < s.size := hindices.2.1
  have halign : alignSize data.length < s.size := by split_ifs at hroom <;> omega
  have hend := ringEnd_lt_iff htail halign
  constructor
  · intro hwrap hlow
    have hpast := hend.mp hwrap
    have hbehind : ¬s.tail < s.headSeen := by split_ifs at hroom <;> omega
    refine ⟨hpoint.1,hpoint.2.1,.inr ⟨?_,⟨not_lt.mp hbehind,hlow⟩,rfl,rfl⟩⟩
    rw [Buffer.FitsAhead]
    change ¬s.tail + _ < if s.tail < s.headSeen then s.headSeen else s.size
    rw [if_neg hbehind]
    omega
  · intro hwrap
    have hbelow : s.tail + alignSize data.length < s.size := not_le.mp (mt hend.mpr hwrap)
    rw [Nat.mod_eq_of_lt hbelow]
    refine ⟨hpoint.1,hpoint.2.1,.inl ⟨?_,rfl,rfl⟩⟩
    rw [Buffer.FitsAhead]
    change s.tail + _ < if s.tail < s.headSeen then s.headSeen else s.size
    split_ifs at hroom ⊢ <;> omega

theorem sound_storeLength {data : List UInt8} {p tail : Nat} (h : s.Sound done gone seen fresh)
    (hstoring : s.producer = .storing data p tail) :
    Spsc.Sound { s with
      data := s.data.writeWord s.tail data.length
      producer := .copying data p tail 0 } done gone seen fresh := by
  have hplaced : Placed s.view data p tail := by
    have hpoint := h.producer
    rwa [hstoring] at hpoint
  have hlen : data.length < 4294967296 := by
    have hlimit := h.queue.holds.size_lt
    have hindices := h.queue.holds.indices
    have hbig := alignSize_ge data.length
    rcases hplaced.2.2 with ⟨hahead,_⟩ | ⟨_,hstart,_⟩
    · have hbelow := hahead.below hindices.1
      omega
    · have hroom := hstart.2
      omega
  apply sound_of_store h
  · intro a ha
    apply ByteMemory.write_sameOn (n := a) (q := a + 1)
    · by_contra hin
      rw [ByteMemory.wordBytes_length] at hin
      exact ha (hplaced.free (.inl ⟨by change s.tail ≤ a; omega,by change a < s.tail + 4; omega⟩))
    · exact le_refl a
    · exact Nat.lt_succ_self a
  · exact ⟨hplaced,Nat.zero_le _,ByteMemory.word_writeWord hlen,rfl⟩

theorem sound_copyByte {data : List UInt8} {p tail copied : Nat} (h : s.Sound done gone seen fresh)
    (hcopying : s.producer = .copying data p tail copied) (hmore : copied < data.length) :
    Spsc.Sound { s with
      data := s.data.write (p + copied) [data.getD copied 0]
      producer := .copying data p tail (copied + 1) } done gone seen fresh := by
  have hpoint := h.producer
  rw [hcopying] at hpoint
  have hplaced := hpoint.1
  have hapart : p + data.length ≤ s.tail ∨ s.tail + 4 ≤ p := hplaced.apart
  apply sound_of_store h
  · intro a ha
    by_cases hbyte : a = p + copied
    · exact absurd (hplaced.free (.inr (by omega))) ha
    · exact if_neg (by rw [List.length_singleton]; omega)
  · refine ⟨hplaced,hmore,?_,?_⟩
    · have hsame : ByteMemory.SameOn s.data (s.data.write (p + copied) [data.getD copied 0]) s.tail
          (s.tail + 4) := ByteMemory.write_sameOn (by rw [List.length_singleton]; omega)
      exact hsame.word_eq.trans hpoint.2.2.1
    · have hold : ByteMemory.read s.data p copied = data.take copied := hpoint.2.2.2
      have hsame : ByteMemory.SameOn s.data (s.data.write (p + copied) [data.getD copied 0]) p
          (p + copied) := ByteMemory.write_sameOn (.inr (le_refl _))
      have hnew : ByteMemory.write s.data (p + copied) [data.getD copied 0] (p + copied) =
          data[copied] := by
        simp [ByteMemory.write,hmore]
      change ByteMemory.read (s.data.write (p + copied) [data.getD copied 0]) p (copied + 1) = _
      rw [ByteMemory.read_succ,hsame.read_eq,hold,hnew,List.take_succ_eq_append_getElem hmore]

theorem Spsc.Sound.not_empty {e : List UInt8} {l : List (List UInt8)}
    (h : s.Sound done gone (e :: l) fresh) : s.head ≠ s.tailSeen :=
  fun heq => List.cons_ne_nil e l (h.queue.visible.indices.2.2.mp heq)

theorem ConsumerSound.more {size head : Nat} {popped delivered seen : List (List UInt8)}
    {point : ConsumerPoint} (h : ConsumerSound size head popped delivered seen point) (f : List UInt8) :
    ConsumerSound size head popped delivered (seen ++ [f]) point := by
  cases point with
  | idle => exact h
  | peeked => exact ⟨h.1,by simp⟩
  | reading p n got =>
    obtain ⟨hdelivered,e,l,rfl,hread⟩ := h
    exact ⟨hdelivered,e,l ++ [f],rfl,hread⟩
  | encoded =>
    obtain ⟨e,l,rfl,hdelivered⟩ := h
    exact ⟨e,l ++ [f],rfl,hdelivered⟩
  | popping =>
    obtain ⟨e,l,rfl,hdelivered⟩ := h
    exact ⟨e,l ++ [f],rfl,hdelivered⟩
  | moving newHead =>
    obtain ⟨e,l,rfl,hdelivered⟩ := h
    exact ⟨e,l ++ [f],rfl,hdelivered⟩

/-- Every step keeps the queue: publishing the tail appends, everything else moves entries along. -/
theorem spscStep_sound {e : SpscEvent} (h : s.Sound done gone seen fresh)
    (hlen : ∀ data, e = .push data → data.length % 4 = 0) (hstep : spscStep s e = some t) :
    ∃ done gone seen fresh, t.Sound done gone seen fresh := by
  have hconsumer := h.consumer
  cases spscStep_effect hstep with
  | refuse => exact ⟨_,_,_,_,h⟩
  | push hidle hdata hfree => exact ⟨_,_,_,_,sound_push h hdata (hlen _ rfl) hfree⟩
  | placeRefused => exact ⟨_,_,_,_,sound_of_producer h trivial⟩
  | placeAtStart hplacing hwrap hroom =>
    exact ⟨_,_,_,_,sound_of_producer h ((sound_place h hplacing).1 hwrap hroom)⟩
  | placeAhead hplacing hwrap =>
    exact ⟨_,_,_,_,sound_of_producer h ((sound_place h hplacing).2 hwrap)⟩
  | storeLength hstoring => exact ⟨_,_,_,_,sound_storeLength h hstoring⟩
  | copyByte hcopying hmore => exact ⟨_,_,_,_,sound_copyByte h hcopying hmore⟩
  | @publishTail data p tail hcopying =>
    have hpoint := h.producer
    rw [hcopying] at hpoint
    have hpayload : s.view.data.read p data.length = data := by
      have hall := hpoint.2.2.2
      rwa [List.take_length] at hall
    refine ⟨done,gone,seen,fresh ++ [data],?_,?_,h.popped,trivial,h.consumer⟩
    · exact h.queue.publishTail hpoint.1 hpoint.2.2.1 hpayload
    · change s.accepted ++ [data] = _
      rw [h.accepted]
      simp
  | @seeHead head later hflight =>
    have hqueue := h.queue
    rw [hflight] at hqueue
    obtain ⟨g,rest,rfl,hhead,hrest⟩ := hqueue.seeHead
    have hproducer := h.producer.pop (l := rest ++ (seen ++ fresh)) hqueue.holds
    refine ⟨done ++ [g],rest,seen,fresh,hrest,?_,?_,?_,?_⟩
    · rw [List.append_assoc done]
      exact h.accepted
    · rw [List.append_assoc done]
      exact h.popped
    · rw [← hhead] at hproducer
      exact hproducer
    · rw [List.append_assoc done]
      exact h.consumer
  | peekEmpty => exact ⟨_,_,_,_,h⟩
  | peek hidle hsome =>
    rw [hidle] at hconsumer
    refine ⟨done,gone,seen,fresh,sound_of_consumer h ⟨hconsumer,?_⟩⟩
    intro hnone
    have hend := h.queue.tailSeen_eq
    rw [hnone] at hend
    exact hsome hend
  | loadLength hpeeked =>
    rw [hpeeked] at hconsumer
    cases seen with
    | nil => exact absurd rfl hconsumer.2
    | cons e l =>
      rw [h.front_word]
      exact ⟨_,_,_,_,sound_of_consumer h
        ⟨hconsumer.1,e,l,rfl,rfl,rfl,Nat.zero_le _,rfl⟩⟩
  | @loadByte p n got hreading hmore =>
    rw [hreading] at hconsumer
    obtain ⟨hdelivered,e,l,rfl,rfl,rfl,_,hgot⟩ := hconsumer
    refine ⟨_,_,_,_,sound_of_consumer h ⟨hdelivered,e,l,rfl,rfl,rfl,?_,?_⟩⟩
    · rw [List.length_append,List.length_singleton]
      exact hmore
    · rw [List.length_append,List.length_singleton,← h.front_byte hmore,← hgot]
  | @encode p got hreading =>
    rw [hreading] at hconsumer
    obtain ⟨hdelivered,e,l,rfl,hn,_,_,hgot⟩ := hconsumer
    rw [hn,List.take_length] at hgot
    rw [hgot,hdelivered]
    exact ⟨_,_,_,_,sound_of_consumer h ⟨e,l,rfl,rfl⟩⟩
  | popEmpty hencoded hempty =>
    rw [hencoded] at hconsumer
    obtain ⟨e,l,rfl,_⟩ := hconsumer
    exact absurd hempty h.not_empty
  | pop hencoded =>
    rw [hencoded] at hconsumer
    exact ⟨_,_,_,_,sound_of_consumer h hconsumer⟩
  | reloadLength hpopping =>
    rw [hpopping] at hconsumer
    obtain ⟨e,l,rfl,hdelivered⟩ := hconsumer
    rw [h.front_word]
    exact ⟨_,_,_,_,sound_of_consumer h ⟨e,l,rfl,hdelivered,rfl⟩⟩
  | publishHead hmoving =>
    rw [hmoving] at hconsumer
    obtain ⟨e,l,rfl,hdelivered,rfl⟩ := hconsumer
    refine ⟨done,gone ++ [e],l,fresh,h.queue.publishHead,?_,?_,h.producer,?_⟩
    · change s.accepted = _
      rw [h.accepted]
      simp
    · change s.popped + 1 = _
      rw [h.popped]
      simp [Nat.add_assoc]
    · change s.delivered = _
      rw [hdelivered,List.append_assoc]
  | @seeTail tail later hflight =>
    have hqueue := h.queue
    rw [hflight] at hqueue
    obtain ⟨f,rest,rfl,hrest⟩ := hqueue.seeTail
    refine ⟨done,gone,seen ++ [f],rest,hrest,?_,h.popped,h.producer,?_⟩
    · change s.accepted = _
      rw [h.accepted]
      simp
    · exact hconsumer.more f

end Steps

section Runs

variable {size : Nat} {s : Spsc} {es : List SpscEvent}

theorem spsc_start_sound (hpos : 0 < size) (hlimit : size < 2147483648) :
    (Spsc.start size).Sound [] [] [] [] where
  queue := {
    holds := bufferNew_holds hpos hlimit
    head_eq := rfl
    heads_eq := rfl
    tailSeen_eq := rfl
    tails_eq := rfl
    aligned := by simp [lengthOffsets]
    tail_aligned := rfl }
  accepted := rfl
  popped := rfl
  producer := trivial
  consumer := rfl

theorem spsc_sound (hpos : 0 < size) (hlimit : size < 2147483648)
    (hlen : ∀ data, .push data ∈ es → data.length % 4 = 0)
    (hrun : runEvents spscStep (Spsc.start size) es = some s) :
    ∃ done gone seen fresh, s.Sound done gone seen fresh := by
  induction es, s, hrun using runEvents_induction with
  | nil => exact ⟨[],[],[],[],spsc_start_sound hpos hlimit⟩
  | concat es s e t hrun hstep ih =>
    obtain ⟨done,gone,seen,fresh,hsound⟩ := ih fun data hmem => hlen data (List.mem_append_left _ hmem)
    apply spscStep_sound hsound _ hstep
    intro data he
    exact hlen data (List.mem_append_right _ (List.mem_singleton.mpr he.symm))

theorem spscStep_size {s t : Spsc} {e : SpscEvent} (hstep : spscStep s e = some t) :
    t.size = s.size := by
  cases spscStep_effect hstep <;> rfl

theorem spscRun_size (hrun : runEvents spscStep (Spsc.start size) es = some s) : s.size = size :=
  runEvents_invariant (I := fun s => s.size = size)
    (fun _ _ _ h hstep => (spscStep_size hstep).trans h) rfl hrun

end Runs

section Touches

variable {s : Spsc} {done gone seen fresh : List (List UInt8)} {e : SpscEvent} {a : Nat}

theorem spscStores_sound (h : s.Sound done gone seen fresh) (hsize : s.size % 4 = 0)
    (ha : a ∈ spscStores s e) :
    a < s.size ∧ ¬EntryByte s.size s.head (s.accepted.drop s.popped) a := by
  have hlive : s.accepted.drop s.popped = seen ++ fresh := by
    rw [h.accepted,h.popped,List.drop_left]
  have hkept : s.view.Free a → ¬EntryByte s.size s.head (s.accepted.drop s.popped) a := by
    intro hfree hbyte
    rw [hlive,← h.queue.head_eq] at hbyte
    exact h.queue.holds.entryByte (entryByte_append.mpr (.inr hbyte)) hfree
  have hindices := h.queue.holds.indices
  have hpoint := h.producer
  have hplaced : ∀ {data p tail}, Placed s.view data p tail →
      (s.tail ≤ a ∧ a < s.tail + 4 ∨ p ≤ a ∧ a < p + data.length) →
      a < s.size ∧ ¬EntryByte s.size s.head (s.accepted.drop s.popped) a := by
    intro data p tail hp hin
    have hwithin := hp.within hindices.1 hindices.2.1 hsize h.queue.tail_aligned
    have hword : s.tail + 4 ≤ s.size := hwithin.1
    have hblock : p + data.length ≤ s.size := hwithin.2
    exact ⟨by omega,hkept (hp.free hin)⟩
  unfold spscStores at ha
  split at ha
  next hstoring =>
    rw [hstoring] at hpoint
    have hword := List.mem_range'_1.mp ha
    exact hplaced hpoint (.inl hword)
  next data p tail copied hcopying =>
    rw [hcopying] at hpoint
    split_ifs at ha with hmore
    · have hbyte := List.mem_singleton.mp ha
      exact hplaced hpoint.1 (.inr (by omega))
    · cases ha
  next => cases ha

private theorem length_within {p : Nat} (hp : p < s.size) (hsize : s.size % 4 = 0)
    (haligned : p % 4 = 0) (ha : a ∈ List.range' p 4) : a < s.size := by
  have hword := List.mem_range'_1.mp ha
  omega

theorem spscLoads_sound (h : s.Sound done gone seen fresh) (hsize : s.size % 4 = 0)
    (ha : a ∈ spscLoads s e) : a < s.size := by
  have hindices := h.queue.live.indices
  have hpoint := h.consumer
  have hhead : ∀ {f l}, seen = f :: l → s.head % 4 = 0 := by
    intro f l hseen
    apply h.queue.aligned
    rw [lengthOffsets_append,h.queue.head_eq,hseen]
    exact List.mem_append_right _ List.mem_cons_self
  unfold spscLoads at ha
  split at ha
  next hpeeked =>
    rw [hpeeked] at hpoint
    obtain ⟨f,l,hseen⟩ := List.exists_cons_of_ne_nil hpoint.2
    exact length_within hindices.1 hsize (hhead hseen) ha
  next p n got hreading =>
    rw [hreading] at hpoint
    obtain ⟨_,f,l,rfl,rfl,rfl,_⟩ := hpoint
    split_ifs at ha with hmore
    · have hbyte := List.mem_singleton.mp ha
      have hbig := alignSize_ge f.length
      have hlimit : s.head < s.size := hindices.1
      rcases h.queue.live.front.2.2 with hahead | ⟨hpast,hroom⟩
      · have hbelow : s.head + alignSize f.length < s.size := hahead
        rw [payloadStart_ahead hbelow] at hbyte
        omega
      · have hover : s.size ≤ s.head + alignSize f.length := hpast
        have hlow : alignSize f.length ≤ s.head := hroom
        rw [payloadStart_atStart hlimit hover (by omega)] at hbyte
        omega
    · cases ha
  next hpopping =>
    rw [hpopping] at hpoint
    obtain ⟨f,l,hseen,_⟩ := hpoint
    exact length_within hindices.1 hsize (hhead hseen) ha
  next => cases ha

/-- What has been encoded is what was accepted, up to the entries still in the ring, and the ring is
empty exactly when the indices meet. -/
theorem Spsc.Sound.order (h : s.Sound done gone seen fresh) :
    (∃ rest, s.accepted = s.delivered ++ rest ∧ (s.head = s.tail → rest = [])) ∧
      (s.head = s.tail ↔ s.accepted.drop s.popped = []) := by
  have hmeet : s.head = s.tail ↔ seen ++ fresh = [] := h.queue.live.indices.2.2
  have hpoint := h.consumer
  have hbehind : s.delivered = done ++ gone ∨
      ∃ f l, seen = f :: l ∧ s.delivered = done ++ gone ++ [f] := by
    cases hcase : s.consumer <;> rw [hcase] at hpoint
    case idle => exact .inl hpoint
    case peeked => exact .inl hpoint.1
    case reading => exact .inl hpoint.1
    case encoded => exact .inr hpoint
    case popping => exact .inr hpoint
    case moving =>
      obtain ⟨f,l,hseen,hdelivered,_⟩ := hpoint
      exact .inr ⟨f,l,hseen,hdelivered⟩
  constructor
  · rcases hbehind with hdelivered | ⟨f,l,hseen,hdelivered⟩
    · exact ⟨seen ++ fresh,by rw [h.accepted,hdelivered],hmeet.mp⟩
    · refine ⟨l ++ fresh,by rw [h.accepted,hdelivered,hseen]; simp,?_⟩
      intro heq
      rw [hseen] at hmeet
      exact absurd (hmeet.mp heq) (List.cons_ne_nil _ _)
  · rw [hmeet,h.accepted,h.popped,List.drop_left]

end Touches

/-- On a ring whose size and payloads are multiples of four, for every interleaving of the two sides
and every delay of the indices: the payloads encoded are those accepted, in order, and complete when
the indices meet; every access is inside the ring, and no store meets an entry not yet popped. -/
theorem spsc_ring {size : Nat} {s : Spsc} {es : List SpscEvent} (hpos : 0 < size)
    (hlimit : size < 2147483648) (hsize : size % 4 = 0)
    (hlen : ∀ data, .push data ∈ es → data.length % 4 = 0)
    (hrun : runEvents spscStep (Spsc.start size) es = some s) :
    (∃ rest, s.accepted = s.delivered ++ rest ∧ (s.head = s.tail → rest = [])) ∧
      (s.head = s.tail ↔ s.accepted.drop s.popped = []) ∧
      ∀ m ∈ moments spscStep (Spsc.start size) es,
        (∀ a ∈ spscStores m.1 m.2 ++ spscLoads m.1 m.2, a < size) ∧
          ∀ a ∈ spscStores m.1 m.2, ¬EntryByte size m.1.head (m.1.accepted.drop m.1.popped) a := by
  obtain ⟨done,gone,seen,fresh,hsound⟩ := spsc_sound hpos hlimit hlen hrun
  refine ⟨hsound.order.1,hsound.order.2,?_⟩
  intro m hm
  obtain ⟨ms,ms',hsplit⟩ := List.append_of_mem hm
  obtain ⟨pre,post,rfl,hpre,_⟩ := moments_split hsplit
  have hm_size := spscRun_size hpre
  obtain ⟨done,gone,seen,fresh,hpoint⟩ := spsc_sound hpos hlimit
    (fun data hmem => hlen data (List.mem_append_left _ hmem)) hpre
  have hstores := fun a => spscStores_sound (e := m.2) (a := a) hpoint (hm_size ▸ hsize)
  have hloads := fun a => spscLoads_sound (e := m.2) (a := a) hpoint (hm_size ▸ hsize)
  rw [hm_size] at hstores hloads
  constructor
  · intro a ha
    rcases List.mem_append.mp ha with hstore | hload
    · exact (hstores a hstore).1
    · exact hloads a hload
  · intro a ha
    exact (hstores a ha).2

/-- Two payloads are in the ring when the first is drained. The third is refused, and goes to the start
of the ring once the producer has seen the head move past both. -/
def wrapSteps : List SpscEvent :=
  pushSteps [1,2,3,4] ++ [.peek] ++ pushSteps [5,6,7,8] ++ [.seeTail,.seeTail] ++ drainSteps 4 ++
    [.push [9,10,11,12,13,14,15,16]] ++ drainSteps 4 ++ [.seeHead,.seeHead] ++
    pushSteps [9,10,11,12,13,14,15,16] ++ [.seeTail] ++ drainSteps 8

theorem spsc_ring_wraps : ∃ s, runEvents spscStep (Spsc.start 24) wrapSteps = some s ∧
    s.delivered = [[1,2,3,4],[5,6,7,8],[9,10,11,12,13,14,15,16]] ∧ s.tail = 8 ∧
    (∃ rest, s.accepted = s.delivered ++ rest ∧ (s.head = s.tail → rest = [])) ∧
      (s.head = s.tail ↔ s.accepted.drop s.popped = []) := by
  have hrun : runEvents spscStep (Spsc.start 24) wrapSteps = some _ := rfl
  have hwords : wrapSteps.all (fun e => match e with
      | .push data => decide (data.length % 4 = 0)
      | _ => true) = true := rfl
  have hlen : ∀ data, .push data ∈ wrapSteps → data.length % 4 = 0 :=
    fun data hdata => of_decide_eq_true (List.all_eq_true.mp hwords _ hdata)
  have hring := spsc_ring (by decide) (by decide) (by decide) hlen hrun
  exact ⟨_,hrun,rfl,rfl,hring.1,hring.2.1⟩

end Esp32Ipc
