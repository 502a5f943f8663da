import Esp32Ipc.Libpeer.BufferOffsets

/-!
# Both sides of the ring at once

`buffer_push_tail` and the drain loop of `peer_connection_loop` run on different tasks without a
lock. Each side writes one index and reads the other, of which it may still see an old value. A step
is one load or store of the shared ring. The barriers order the indices behind the data, so the data
is one memory and only the index values take their time.
-/

namespace Esp32Ipc

open Framework

/-- `buffer_push_tail` between two of its steps: past the check of the free space, past the choice of
the payload's offset `p` and the new tail, with `copied` bytes of the payload stored. -/
inductive ProducerPoint where
  | idle
  | placing (data : List UInt8)
  | storing (data : List UInt8) (p tail : Nat)
  | copying (data : List UInt8) (p tail copied : Nat)
  deriving DecidableEq, Repr

/-- The drain loop between two of its steps: in `buffer_peak_head`, with `got` read of a payload of
`n` bytes at `p`, behind `rtp_encoder_encode`, and in `buffer_pop_head`. -/
inductive ConsumerPoint where
  | idle
  | peeked
  | reading (p n : Nat) (got : List UInt8)
  | encoded
  | popping
  | moving (head : Nat)
  deriving DecidableEq, Repr

/-- The ring, what each side sees of the other's index, the values still on their way to it (oldest
first), and the history: payloads accepted, payloads encoded, entries popped. -/
structure Spsc where
  data : ByteMemory
  size : Nat
  head : Nat
  tail : Nat
  headSeen : Nat
  headsInFlight : List Nat
  tailSeen : Nat
  tailsInFlight : List Nat
  producer : ProducerPoint
  consumer : ConsumerPoint
  accepted : List (List UInt8)
  delivered : List (List UInt8)
  popped : Nat

/-- Two tasks on the ring that `buffer_new` returns. -/
def Spsc.start (size : Nat) : Spsc where
  data := (bufferNew size).data
  size := size
  head := 0
  tail := 0
  headSeen := 0
  headsInFlight := []
  tailSeen := 0
  tailsInFlight := []
  producer := .idle
  consumer := .idle
  accepted := []
  delivered := []
  popped := 0

inductive SpscEvent where
  | push (data : List UInt8)
  | place
  | storeLength
  | copyByte
  | publishTail
  | seeHead
  | peek
  | loadLength
  | loadByte
  | encode
  | pop
  | reloadLength
  | publishHead
  | seeTail
  deriving DecidableEq, Repr

def spscStep (s : Spsc) : SpscEvent → Option Spsc
  | .push data =>
    match s.producer with
    | .idle =>
      if s.size ≤ 0 ∨ data.length ≤ 0 then some s
      else if alignSize data.length > (s.size + s.headSeen - s.tail - 1) % s.size then some s
      else some { s with producer := .placing data }
    | _ => none
  | .place =>
    match s.producer with
    | .placing data =>
      if (s.tail + alignSize data.length) % s.size < s.tail then
        -- the head is loaded a second time
        if s.headSeen < alignSize data.length then some { s with producer := .idle }
        else some { s with producer := .storing data 0 data.length }
      else
        some { s with
          producer := .storing data (s.tail + 4) ((s.tail + alignSize data.length) % s.size) }
    | _ => none
  | .storeLength =>
    match s.producer with
    | .storing data p tail =>
      some { s with
        data := s.data.writeWord s.tail data.length
        producer := .copying data p tail 0 }
    | _ => none
  | .copyByte =>
    match s.producer with
    | .copying data p tail copied =>
      if copied < data.length then
        some { s with
          data := s.data.write (p + copied) [data.getD copied 0]
          producer := .copying data p tail (copied + 1) }
      else none
    | _ => none
  | .publishTail =>
    match s.producer with
    | .copying data _ tail copied =>
      if copied = data.length then
        some { s with
          tail := tail
          tailsInFlight := s.tailsInFlight ++ [tail]
          producer := .idle
          accepted := s.accepted ++ [data] }
      else none
    | _ => none
  | .seeHead =>
    match s.headsInFlight with
    | head :: later => some { s with headSeen := head, headsInFlight := later }
    | [] => none
  | .peek =>
    match s.consumer with
    | .idle => if s.head = s.tailSeen then some s else some { s with consumer := .peeked }
    | _ => none
  | .loadLength =>
    match s.consumer with
    | .peeked =>
      some { s with
        consumer :=
          .reading (payloadStart s.size s.head (s.data.word s.head)) (s.data.word s.head) [] }
    | _ => none
  | .loadByte =>
    match s.consumer with
    | .reading p n got =>
      if got.length < n then
        some { s with consumer := .reading p n (got ++ [s.data (p + got.length)]) }
      else none
    | _ => none
  | .encode =>
    match s.consumer with
    | .reading _ n got =>
      if got.length = n then
        some { s with consumer := .encoded, delivered := s.delivered ++ [got] }
      else none
    | _ => none
  | .pop =>
    match s.consumer with
    | .encoded =>
      if s.head = s.tailSeen then some { s with consumer := .idle }
      else some { s with consumer := .popping }
    | _ => none
  | .reloadLength =>
    match s.consumer with
    | .popping =>
      some { s with consumer := .moving (entryEnd s.size s.head (s.data.word s.head)) }
    | _ => none
  | .publishHead =>
    match s.consumer with
    | .moving head =>
      some { s with
        head := head
        headsInFlight := s.headsInFlight ++ [head]
        consumer := .idle
        popped := s.popped + 1 }
    | _ => none
  | .seeTail =>
    match s.tailsInFlight with
    | tail :: later => some { s with tailSeen := tail, tailsInFlight := later }
    | [] => none

/-- The bytes that a step stores to. -/
def spscStores (s : Spsc) (e : SpscEvent) : List Nat :=
  match e, s.producer with
  | .storeLength, .storing _ _ _ => List.range' s.tail 4
  | .copyByte, .copying data p _ copied => if copied < data.length then [p + copied] else []
  | _, _ => []

/-- The bytes that a step loads from. -/
def spscLoads (s : Spsc) (e : SpscEvent) : List Nat :=
  match e, s.consumer with
  | .loadLength, .peeked => List.range' s.head 4
  | .loadByte, .reading p n got => if got.length < n then [p + got.length] else []
  | .reloadLength, .popping => List.range' s.head 4
  | _, _ => []

/-- What the steps do. -/
inductive SpscEffect (s : Spsc) : SpscEvent → Spsc → Prop where
  | refuse {data : List UInt8} (hidle : s.producer = .idle) : SpscEffect s (.push data) s
  | push {data : List UInt8} (hidle : s.producer = .idle) (hdata : 0 < data.length)
      (hfree : alignSize data.length ≤ (s.size + s.headSeen - s.tail - 1) % s.size) :
      SpscEffect s (.push data) { s with producer := .placing data }
  | placeRefused {data : List UInt8} (hplacing : s.producer = .placing data) :
      SpscEffect s .place { s with producer := .idle }
  | placeAtStart {data : List UInt8} (hplacing : s.producer = .placing data)
      (hwrap : (s.tail + alignSize data.length) % s.size < s.tail)
      (hroom : alignSize data.length ≤ s.headSeen) :
      SpscEffect s .place { s with producer := .storing data 0 data.length }
  | placeAhead {data : List UInt8} (hplacing : s.producer = .placing data)
      (hwrap : ¬(s.tail + alignSize data.length) % s.size < s.tail) :
      SpscEffect s .place { s with
        producer := .storing data (s.tail + 4) ((s.tail + alignSize data.length) % s.size) }
  | storeLength {data : List UInt8} {p tail : Nat} (hstoring : s.producer = .storing data p tail) :
      SpscEffect s .storeLength { s with
        data := s.data.writeWord s.tail data.length
        producer := .copying data p tail 0 }
  | copyByte {data : List UInt8} {p tail copied : Nat}
      (hcopying : s.producer = .copying data p tail copied) (hmore : copied < data.length) :
      SpscEffect s .copyByte { s with
        data := s.data.write (p + copied) [data.getD copied 0]
        producer := .copying data p tail (copied + 1) }
  | publishTail {data : List UInt8} {p tail : Nat}
      (hcopying : s.producer = .copying data p tail data.length) :
      SpscEffect s .publishTail { s with
        tail := tail
        tailsInFlight := s.tailsInFlight ++ [tail]
        producer := .idle
        accepted := s.accepted ++ [data] }
  | seeHead {head : Nat} {later : List Nat} (hflight : s.headsInFlight = head :: later) :
      SpscEffect s .seeHead { s with headSeen := head, headsInFlight := later }
  | peekEmpty (hidle : s.consumer = .idle) : SpscEffect s .peek s
  | peek (hidle : s.consumer = .idle) (hsome : s.head ≠ s.tailSeen) :
      SpscEffect s .peek { s with consumer := .peeked }
  | loadLength (hpeeked : s.consumer = .peeked) :
      SpscEffect s .loadLength { s with
        consumer :=
          .reading (payloadStart s.size s.head (s.data.word s.head)) (s.data.word s.head) [] }
  | loadByte {p n : Nat} {got : List UInt8} (hreading : s.consumer = .reading p n got)
      (hmore : got.length < n) :
      SpscEffect s .loadByte { s with
        consumer := .reading p n (got ++ [s.data (p + got.length)]) }
  | encode {p : Nat} {got : List UInt8} (hreading : s.consumer = .reading p got.length got) :
      SpscEffect s .encode { s with consumer := .encoded, delivered := s.delivered ++ [got] }
  | popEmpty (hencoded : s.consumer = .encoded) (hempty : s.head = s.tailSeen) :
      SpscEffect s .pop { s with consumer := .idle }
  | pop (hencoded : s.consumer = .encoded) (hsome : s.head ≠ s.tailSeen) :
      SpscEffect s .pop { s with consumer := .popping }
  | reloadLength (hpopping : s.consumer = .popping) :
      SpscEffect s .reloadLength { s with
        consumer := .moving (entryEnd s.size s.head (s.data.word s.head)) }
  | publishHead {head : Nat} (hmoving : s.consumer = .moving head) :
      SpscEffect s .publishHead { s with
        head := head
        headsInFlight := s.headsInFlight ++ [head]
        consumer := .idle
        popped := s.popped + 1 }
  | seeTail {tail : Nat} {later : List Nat} (hflight : s.tailsInFlight = tail :: later) :
      SpscEffect s .seeTail { s with tailSeen := tail, tailsInFlight := later }

theorem spscStep_effect {s t : Spsc} {e : SpscEvent} (hstep : spscStep s e = some t) :
    SpscEffect s e t := by
  cases e with
  | push data =>
    simp only [spscStep] at hstep
    split at hstep
    next hidle =>
      split_ifs at hstep with hnone hfull
      · rw [← Option.some.inj hstep]
        exact .refuse hidle
      · rw [← Option.some.inj hstep]
        exact .refuse hidle
      · rw [← Option.some.inj hstep]
        exact .push hidle (by omega) (not_lt.mp hfull)
    next => cases hstep
  | place =>
    simp only [spscStep] at hstep
    split at hstep
    next data hplacing =>
      split_ifs at hstep with hwrap hfull
      · rw [← Option.some.inj hstep]
        exact .placeRefused hplacing
      · rw [← Option.some.inj hstep]
        exact .placeAtStart hplacing hwrap (not_lt.mp hfull)
      · rw [← Option.some.inj hstep]
        exact .placeAhead hplacing hwrap
    next => cases hstep
  | storeLength =>
    simp only [spscStep] at hstep
    split at hstep
    next hstoring =>
      rw [← Option.some.inj hstep]
      exact .storeLength hstoring
    next => cases hstep
  | copyByte =>
    simp only [spscStep] at hstep
    split at hstep
    next hcopying =>
      rw [Option.ite_none_right_eq_some] at hstep
      rw [← Option.some.inj hstep.2]
      exact .copyByte hcopying hstep.1
    next => cases hstep
  | publishTail =>
    simp only [spscStep] at hstep
    split at hstep
    next hcopying =>
      rw [Option.ite_none_right_eq_some] at hstep
      rw [← Option.some.inj hstep.2]
      exact .publishTail (hstep.1 ▸ hcopying)
    next => cases hstep
  | seeHead =>
    simp only [spscStep] at hstep
    split at hstep
    next hflight =>
      rw [← Option.some.inj hstep]
      exact .seeHead hflight
    next => cases hstep
  | peek =>
    simp only [spscStep] at hstep
    split at hstep
    next hidle =>
      split_ifs at hstep with hempty
      · rw [← Option.some.inj hstep]
        exact .peekEmpty hidle
      · rw [← Option.some.inj hstep]
        exact .peek hidle hempty
    next => cases hstep
  | loadLength =>
    simp only [spscStep] at hstep
    split at hstep
    next hpeeked =>
      rw [← Option.some.inj hstep]
      exact .loadLength hpeeked
    next => cases hstep
  | loadByte =>
    simp only [spscStep] at hstep
    split at hstep
    next hreading =>
      rw [Option.ite_none_right_eq_some] at hstep
      rw [← Option.some.inj hstep.2]
      exact .loadByte hreading hstep.1
    next => cases hstep
  | encode =>
    simp only [spscStep] at hstep
    split at hstep
    next hreading =>
      rw [Option.ite_none_right_eq_some] at hstep
      rw [← Option.some.inj hstep.2]
      exact .encode (hstep.1 ▸ hreading)
    next => cases hstep
  | pop =>
    simp only [spscStep] at hstep
    split at hstep
    next hencoded =>
      split_ifs at hstep with hempty
      · rw [← Option.some.inj hstep]
        exact .popEmpty hencoded hempty
      · rw [← Option.some.inj hstep]
        exact .pop hencoded hempty
    next => cases hstep
  | reloadLength =>
    simp only [spscStep] at hstep
    split at hstep
    next hpopping =>
      rw [← Option.some.inj hstep]
      exact .reloadLength hpopping
    next => cases hstep
  | publishHead =>
    simp only [spscStep] at hstep
    split at hstep
    next hmoving =>
      rw [← Option.some.inj hstep]
      exact .publishHead hmoving
    next => cases hstep
  | seeTail =>
    simp only [spscStep] at hstep
    split at hstep
    next hflight =>
      rw [← Option.some.inj hstep]
      exact .seeTail hflight
    next => cases hstep

section Alone

variable {s : Spsc} {data : List UInt8}

/-- The ring as the producer sees it. -/
def Spsc.view (s : Spsc) : Buffer := ⟨s.data,s.size,s.headSeen,s.tail⟩

/-- The ring as the consumer sees it. -/
def Spsc.drainView (s : Spsc) : Buffer := ⟨s.data,s.size,s.head,s.tailSeen⟩

/-- A whole `buffer_push_tail`, nothing in between. -/
def pushSteps (data : List UInt8) : List SpscEvent :=
  [SpscEvent.push data,.place,.storeLength] ++
    (List.replicate data.length SpscEvent.copyByte ++ [SpscEvent.publishTail])

/-- A pass of the drain loop over a payload of `n` bytes. -/
def drainSteps (n : Nat) : List SpscEvent :=
  [SpscEvent.peek,.loadLength] ++
    (List.replicate n SpscEvent.loadByte ++ [SpscEvent.encode,.pop,.reloadLength,.publishHead])

private theorem copy_alone {m : ByteMemory} {p tail k n : Nat} (hn : k + n = data.length)
    (hcopying : s.producer = .copying data p tail k) (hdata : s.data = m.write p (data.take k)) :
    runEvents spscStep s (List.replicate n .copyByte) =
      some { s with data := m.write p data, producer := .copying data p tail data.length } := by
  induction n generalizing s k with
  | zero =>
    have hk : k = data.length := hn
    rw [hk,List.take_length] at hdata
    rw [← hdata,← hk,← hcopying]
    rfl
  | succ n ih =>
    have hk : k < data.length := by omega
    have hstep : spscStep s .copyByte = some { s with
        data := m.write p (data.take (k + 1))
        producer := .copying data p tail (k + 1) } := by
      simp only [spscStep,hcopying,if_pos hk,hdata,ByteMemory.write_take_succ m p hk]
    rw [List.replicate_succ,runEvents_cons,hstep,Option.bind_some]
    exact ih (by omega) rfl rfl

/-- The producer's steps, taken without interruption, are `buffer_push_tail`. -/
theorem pushSteps_bufferPushTail (hidle : s.producer = .idle)
    (haccepted : 0 ≤ (bufferPushTail s.view data).1) :
    ∃ t, runEvents spscStep s (pushSteps data) = some t ∧
      t.view = (bufferPushTail s.view data).2 ∧ t.accepted = s.accepted ++ [data] := by
  have hcopy : ∀ p tail, ∃ t, runEvents spscStep { s with producer := .storing data p tail }
        (.storeLength :: (List.replicate data.length .copyByte ++ [.publishTail])) = some t ∧
      t.view = ⟨(s.data.writeWord s.tail data.length).write p data,s.size,s.headSeen,tail⟩ ∧
      t.accepted = s.accepted ++ [data] := by
    intro p tail
    have hempty : ∀ m : ByteMemory, m = m.write p (data.take 0) := by
      intro m
      funext a
      exact (if_neg (by simp)).symm
    rw [runEvents_cons]
    simp only [spscStep,Option.bind_some,runEvents_append]
    rw [copy_alone (Nat.zero_add _) rfl (hempty _)]
    simp only [Option.bind_some,runEvents_cons,spscStep,if_true,runEvents_nil]
    exact ⟨_,rfl,rfl,rfl⟩
  have hpush : bufferPushTail s.view data = bufferPushTail ⟨s.data,s.size,s.headSeen,s.tail⟩ data := rfl
  have hrefused : ∀ {rb : Buffer}, bufferPushPlace rb data.length = none →
      ¬0 ≤ (bufferPushTail rb data).1 := by
    intro rb hnone
    rw [bufferPushTail_refused hnone]
    exact (by decide : ¬(0 : Int) ≤ -1)
  rw [hpush] at haccepted ⊢
  simp only [pushSteps,List.cons_append,List.nil_append]
  by_cases hnone : s.size ≤ 0 ∨ data.length ≤ 0
  · exact absurd haccepted (hrefused (if_pos hnone))
  · by_cases hfull : alignSize data.length > (s.size + s.headSeen - s.tail - 1) % s.size
    · exact absurd haccepted (hrefused (by simp only [bufferPushPlace,if_neg hnone,if_pos hfull]))
    · have hchecked : spscStep s (.push data) = some { s with producer := .placing data } := by
        simp only [spscStep,hidle,if_neg hnone,if_neg hfull]
      rw [runEvents_cons,hchecked,Option.bind_some,runEvents_cons]
      by_cases hwrap : (s.tail + alignSize data.length) % s.size < s.tail
      · by_cases hlow : s.headSeen < alignSize data.length
        · exact absurd haccepted (hrefused (by
            simp only [bufferPushPlace,if_neg hnone,if_neg hfull,if_pos hwrap,if_pos hlow]))
        · have hplace : bufferPushPlace ⟨s.data,s.size,s.headSeen,s.tail⟩ data.length =
              some (0,data.length) := by
            simp only [bufferPushPlace,if_neg hnone,if_neg hfull,if_pos hwrap,if_neg hlow]
          rw [bufferPushTail_placed hplace]
          simp only [spscStep,if_pos hwrap,if_neg hlow,Option.bind_some]
          exact hcopy 0 data.length
      · have hplace : bufferPushPlace ⟨s.data,s.size,s.headSeen,s.tail⟩ data.length =
            some (s.tail + 4,(s.tail + alignSize data.length) % s.size) := by
          simp only [bufferPushPlace,if_neg hnone,if_neg hfull,if_neg hwrap]
        rw [bufferPushTail_placed hplace]
        simp only [spscStep,if_neg hwrap,Option.bind_some]
        exact hcopy (s.tail + 4) _

private theorem load_alone {p n k : Nat} {got : List UInt8} (hn : got.length + k = n)
    (hreading : s.consumer = .reading p n got) (hgot : got = s.data.read p got.length) :
    runEvents spscStep s (List.replicate k .loadByte) =
      some { s with consumer := .reading p n (s.data.read p n) } := by
  induction k generalizing s got with
  | zero =>
    have hlen : got.length = n := hn
    rw [← hlen,← hgot,hlen,← hreading]
    rfl
  | succ k ih =>
    have hmore : got.length < n := by omega
    have hstep : spscStep s .loadByte = some { s with
        consumer := .reading p n (got ++ [s.data (p + got.length)]) } := by
      simp only [spscStep,hreading,if_pos hmore]
    have hnext : (got ++ [s.data (p + got.length)]).length = got.length + 1 := by
      rw [List.length_append,List.length_singleton]
    rw [List.replicate_succ,runEvents_cons,hstep,Option.bind_some]
    exact ih (by rw [hnext]; omega) rfl (by rw [hnext,ByteMemory.read_succ,← hgot])

/-- The consumer's steps, taken without interruption, encode the payload that `buffer_peak_head`
shows and then are `buffer_pop_head`. -/
theorem drainSteps_bufferPopHead {e : List UInt8} (hidle : s.consumer = .idle)
    (hfront : bufferFront s.drainView = some e) :
    ∃ t, runEvents spscStep s (drainSteps e.length) = some t ∧
      t.drainView = bufferPopHead s.drainView ∧ t.delivered = s.delivered ++ [e] := by
  by_cases hempty : s.head = s.tailSeen
  · have hnone : bufferFront s.drainView = none := by
      rw [bufferFront,bufferPeakHead]
      exact congrArg _ (if_pos hempty)
    rw [hnone] at hfront
    cases hfront
  · have hpeak : bufferFront s.drainView =
        some (s.data.read (payloadStart s.size s.head (s.data.word s.head)) (s.data.word s.head)) := by
      rw [bufferFront,bufferPeakHead]
      exact congrArg _ (if_neg hempty)
    rw [hpeak] at hfront
    have he := Option.some.inj hfront
    have hlen : e.length = s.data.word s.head := by
      rw [← he]
      simp [ByteMemory.read]
    rw [drainSteps,hlen]
    simp only [List.cons_append,List.nil_append,runEvents_cons,spscStep,hidle,if_neg hempty,
      Option.bind_some,runEvents_append]
    rw [load_alone (Nat.zero_add _) rfl rfl]
    have hfull : (s.data.read (payloadStart s.size s.head (s.data.word s.head))
        (s.data.word s.head)).length = s.data.word s.head := by simp [ByteMemory.read]
    simp only [Option.bind_some,if_pos hfull,if_neg hempty,runEvents_nil]
    refine ⟨_,rfl,?_,by rw [← he]⟩
    rw [bufferPopHead]
    exact (if_neg hempty).symm

end Alone

end Esp32Ipc
