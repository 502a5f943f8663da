import Esp32Ipc.Libpeer.BufferOffsets

/-!
# Where the ring is touched

Each call touches four-byte lengths and payloads. A length word is aligned and whole as long as the
tail is a multiple of four, and the one thing that takes the tail off is a payload stored at the
start of the ring: it leaves the tail at its length.
-/

namespace Esp32Ipc

open Framework

/-- An access to the backing store: a length word or a payload of `n` bytes. -/
inductive RingAccess where
  | length (p : Nat)
  | payload (p n : Nat)
  deriving DecidableEq, Repr

def RingAccess.Within (size : Nat) : RingAccess → Prop
  | .length p => p + 4 ≤ size
  | .payload p n => p + n ≤ size

/-- A length word is accessed at a multiple of four. -/
def RingAccess.Aligned : RingAccess → Prop
  | .length p => p % 4 = 0
  | .payload _ _ => True

/-- The stores of `buffer_push_tail`. -/
def bufferPushAccesses (rb : Buffer) (data : List UInt8) : List RingAccess :=
  match bufferPushPlace rb data.length with
  | none => []
  | some (p, _) => [.length rb.tail,.payload p data.length]

/-- The loads of `buffer_peak_head`, and of the payload it hands out. -/
def bufferPeakAccesses (rb : Buffer) : List RingAccess :=
  match bufferPeakHead rb with
  | none => []
  | some (p, size) => [.length rb.head,.payload p size]

/-- The loads of `buffer_pop_head`. -/
def bufferPopAccesses (rb : Buffer) : List RingAccess :=
  if rb.head = rb.tail then [] else [.length rb.head]

inductive RingCall where
  | push (data : List UInt8)
  | peak
  | pop
  deriving DecidableEq, Repr

def ringCallStep (rb : Buffer) : RingCall → Option Buffer
  | .push data => some (bufferPushTail rb data).2
  | .peak => some rb
  | .pop => some (bufferPopHead rb)

def ringAccesses (rb : Buffer) : RingCall → List RingAccess
  | .push data => bufferPushAccesses rb data
  | .peak => bufferPeakAccesses rb
  | .pop => bufferPopAccesses rb

def RingFits : Buffer × RingCall → Prop
  | (rb, .push data) => 0 < data.length ∧
      (rb.FitsAhead (alignSize data.length) ∨ rb.FitsAtStart (alignSize data.length))
  | (_, .peak) => False
  | (_, .pop) => False

/-- A push that has to go to the start of the ring, of a length that is no multiple of four. -/
def RingWrapsUnaligned : Buffer × RingCall → Prop
  | (rb, .push data) => ¬rb.FitsAhead (alignSize data.length) ∧
      rb.FitsAtStart (alignSize data.length) ∧ data.length % 4 ≠ 0
  | (_, .peak) => False
  | (_, .pop) => False

section Calls

variable {rb rb' : Buffer} {l : List (List UInt8)} {data : List UInt8} {call : RingCall}

theorem bufferPeakAccesses_eq {e : List UInt8} (h : rb.Holds (e :: l)) :
    bufferPeakAccesses rb = [.length rb.head,
      .payload (if rb.head + alignSize e.length < rb.size then rb.head + 4 else 0) e.length] := by
  have hfront := h.front
  have hindices := h.indices
  have hend := ringEnd_lt_iff (n := alignSize e.length) hindices.1 (by omega)
  rw [bufferPeakAccesses,bufferPeakHead,if_neg hfront.1]
  dsimp only
  rw [hfront.2.1]
  by_cases hpast : rb.size ≤ rb.head + alignSize e.length
  · rw [if_pos (hend.mpr hpast),if_neg (by omega)]
  · rw [if_neg (mt hend.mp hpast),if_pos (by omega)]

/-- All length words of the queue are at multiples of four. -/
def Buffer.LengthsAligned (rb : Buffer) (l : List (List UInt8)) : Prop :=
  ∀ p ∈ lengthOffsets rb.size rb.head l, p % 4 = 0

/-- The accesses of a call are within the ring and aligned. -/
def SoundAccesses (m : Buffer × RingCall) : Prop :=
  ∀ a ∈ ringAccesses m.1 m.2, a.Within m.1.size ∧ a.Aligned

theorem bufferPushAccesses_eq (hhead : rb.head < rb.size) (htail : rb.tail < rb.size)
    (hdata : 0 < data.length) :
    bufferPushAccesses rb data =
      if rb.FitsAhead (alignSize data.length) then
        [.length rb.tail,.payload (rb.tail + 4) data.length]
      else if rb.FitsAtStart (alignSize data.length) then [.length rb.tail,.payload 0 data.length]
      else [] := by
  rw [bufferPushAccesses,bufferPushPlace_eq hhead htail hdata]
  by_cases hahead : rb.FitsAhead (alignSize data.length)
  · rw [if_pos hahead,if_pos hahead]
  · rw [if_neg hahead,if_neg hahead]
    by_cases hstart : rb.FitsAtStart (alignSize data.length)
    · rw [if_pos hstart,if_pos hstart]
    · rw [if_neg hstart,if_neg hstart]

theorem push_sound_iff (h : rb.Holds l) (hsize : rb.size % 4 = 0) :
    SoundAccesses (rb,.push data) ↔ (RingFits (rb,.push data) → rb.tail % 4 = 0) := by
  have hindices := h.indices
  have hbig := alignSize_ge data.length
  by_cases hdata : 0 < data.length
  · simp only [SoundAccesses,RingFits,ringAccesses,bufferPushAccesses_eq hindices.1 hindices.2.1 hdata]
    by_cases hahead : rb.FitsAhead (alignSize data.length)
    · have hbelow := hahead.below hindices.1
      rw [if_pos hahead]
      simp only [List.forall_mem_cons,RingAccess.Within,RingAccess.Aligned,List.not_mem_nil,
        false_imp_iff,implies_true,and_true,hdata,hahead,true_or,true_imp_iff]
      omega
    · rw [if_neg hahead]
      by_cases hstart : rb.FitsAtStart (alignSize data.length)
      · have hroom := hstart.2
        rw [if_pos hstart]
        simp only [List.forall_mem_cons,RingAccess.Within,RingAccess.Aligned,List.not_mem_nil,
          false_imp_iff,implies_true,and_true,hdata,hstart,or_true,true_imp_iff]
        omega
      · rw [if_neg hstart]
        simp [hahead,hstart]
  · have hzero : data.length = 0 := by omega
    have hnone : bufferPushAccesses rb data = [] := by
      rw [bufferPushAccesses,hzero,bufferPushPlace_zero]
    simp [SoundAccesses,ringAccesses,hnone,RingFits,hdata]

private theorem head_aligned {e : List UInt8} (haligned : rb.LengthsAligned (e :: l)) :
    rb.head % 4 = 0 := haligned _ List.mem_cons_self

theorem peak_sound (h : rb.Holds l) (haligned : rb.LengthsAligned l) (hsize : rb.size % 4 = 0) :
    SoundAccesses (rb,.peak) := by
  have hindices := h.indices
  cases l with
  | nil =>
    have heq := hindices.2.2.mpr rfl
    simp [SoundAccesses,ringAccesses,bufferPeakAccesses,bufferPeakHead,heq]
  | cons e l =>
    have hfront := h.front
    have hhead := head_aligned haligned
    have hbig := alignSize_ge e.length
    simp only [SoundAccesses,ringAccesses,bufferPeakAccesses_eq h,List.forall_mem_cons,
      RingAccess.Within,RingAccess.Aligned,List.not_mem_nil,false_imp_iff,implies_true,and_true]
    split_ifs <;> omega

theorem pop_sound (h : rb.Holds l) (haligned : rb.LengthsAligned l) (hsize : rb.size % 4 = 0) :
    SoundAccesses (rb,.pop) := by
  have hindices := h.indices
  cases l with
  | nil =>
    have heq := hindices.2.2.mpr rfl
    simp [SoundAccesses,ringAccesses,bufferPopAccesses,heq]
  | cons e l =>
    have hhead := head_aligned haligned
    simp only [SoundAccesses,ringAccesses,bufferPopAccesses,if_neg h.front.1,List.forall_mem_cons,
      RingAccess.Within,RingAccess.Aligned,List.not_mem_nil,false_imp_iff,implies_true,and_true]
    omega

theorem ringCallStep_size (hstep : ringCallStep rb call = some rb') : rb'.size = rb.size := by
  cases call with
  | push data => exact bufferStep_size (e := .push data) hstep
  | peak => rw [← Option.some.inj hstep]
  | pop => exact bufferStep_size (e := .pop) hstep

private theorem concat_aligned (h : rb.Holds l) (haligned : rb.LengthsAligned l)
    (htail : rb.tail % 4 = 0) (m : ByteMemory) (t : Nat) :
    Buffer.LengthsAligned ⟨m,rb.size,rb.head,t⟩ (l ++ [data]) := by
  intro p hp
  rw [lengthOffsets_append,h.entriesEnd_eq,List.mem_append] at hp
  cases hp with
  | inl hold => exact haligned p hold
  | inr hnew =>
    rw [List.mem_singleton.mp hnew]
    exact htail

/-- Unless it stores an entry at an unaligned tail, a call keeps the length words aligned; only a
payload stored at the start of the ring can leave an unaligned tail behind. -/
theorem ringCallStep_aligned (h : rb.Holds l) (haligned : rb.LengthsAligned l)
    (hfits : RingFits (rb,call) → rb.tail % 4 = 0) (hstep : ringCallStep rb call = some rb') :
    ∃ l', rb'.Holds l' ∧ rb'.LengthsAligned l' ∧
      (rb'.tail % 4 = 0 ↔ rb.tail % 4 = 0 ∧ ¬RingWrapsUnaligned (rb,call)) := by
  have hindices := h.indices
  cases call with
  | peak =>
    rw [← Option.some.inj hstep]
    exact ⟨l,h,haligned,by simp [RingWrapsUnaligned]⟩
  | pop =>
    rw [← Option.some.inj hstep]
    cases l with
    | nil =>
      rw [(bufferPopHead_empty h).2]
      exact ⟨[],h,haligned,by simp [RingWrapsUnaligned]⟩
    | cons e l =>
      have hpop := (bufferPopHead_holds h).2
      rw [bufferPopHead_eq h] at hpop ⊢
      refine ⟨l,hpop,?_,by simp [RingWrapsUnaligned]⟩
      intro p hp
      exact haligned p (List.mem_cons_of_mem _ hp)
  | push data =>
    rw [← Option.some.inj hstep]
    by_cases hdata : 0 < data.length
    · rw [bufferPushTail_eq hindices.1 hindices.2.1 hdata]
      by_cases hahead : rb.FitsAhead (alignSize data.length)
      · have htail := hfits ⟨hdata,.inl hahead⟩
        have hmultiple : alignSize data.length % 4 = 0 := Nat.mul_mod_left _ _
        rw [if_pos hahead]
        refine ⟨_,holds_ahead h hdata hahead,concat_aligned h haligned htail _ _,?_⟩
        simp only [RingWrapsUnaligned,hahead,not_true_eq_false,false_and,not_false_eq_true,and_true]
        omega
      · rw [if_neg hahead]
        by_cases hstart : rb.FitsAtStart (alignSize data.length)
        · have htail := hfits ⟨hdata,.inr hstart⟩
          rw [if_pos hstart]
          refine ⟨_,holds_atStart h hdata hahead hstart,concat_aligned h haligned htail _ _,?_⟩
          simp only [RingWrapsUnaligned,hahead,hstart,htail,not_false_eq_true,true_and,not_not]
        · rw [if_neg hstart]
          exact ⟨l,h,haligned,by simp [RingWrapsUnaligned,hstart]⟩
    · have hzero : data.length = 0 := by omega
      have hkeep := bufferPushTail_refused (hzero ▸ bufferPushPlace_zero rb)
      rw [hkeep]
      exact ⟨l,h,haligned,by simp [RingWrapsUnaligned,hzero]⟩

theorem call_sound_iff (h : rb.Holds l) (haligned : rb.LengthsAligned l) (hsize : rb.size % 4 = 0) :
    SoundAccesses (rb,call) ↔ (RingFits (rb,call) → rb.tail % 4 = 0) := by
  cases call with
  | push data => exact push_sound_iff h hsize
  | peak => exact iff_of_true (peak_sound h haligned hsize) False.elim
  | pop => exact iff_of_true (pop_sound h haligned hsize) False.elim

end Calls

section Runs

variable {size : Nat} {rb : Buffer} {es : List RingCall}

theorem ringRun_size (hrun : runEvents ringCallStep (bufferNew size) es = some rb) : rb.size = size :=
  runEvents_invariant (I := fun rb => rb.size = size)
    (fun _ _ _ h hstep => (ringCallStep_size hstep).trans h) rfl hrun

/-- The calls of a run touch the ring soundly exactly when none of them stores an entry after one of
unaligned length went to the start of the ring. -/
theorem ringAccesses_iff (hpos : 0 < size) (hlimit : size < 2147483648) (hsize : size % 4 = 0)
    (hrun : runEvents ringCallStep (bufferNew size) es = some rb) :
    (∀ m ∈ moments ringCallStep (bufferNew size) es, SoundAccesses m) ↔
      (moments ringCallStep (bufferNew size) es).Pairwise fun a b =>
        ¬(RingWrapsUnaligned a ∧ RingFits b) := by
  suffices hboth : ((∀ m ∈ moments ringCallStep (bufferNew size) es, SoundAccesses m) ↔
        (moments ringCallStep (bufferNew size) es).Pairwise fun a b =>
          ¬(RingWrapsUnaligned a ∧ RingFits b)) ∧
      ((∀ m ∈ moments ringCallStep (bufferNew size) es, SoundAccesses m) →
        ∃ l, rb.Holds l ∧ rb.LengthsAligned l ∧
          (rb.tail % 4 = 0 ↔
            ∀ m ∈ moments ringCallStep (bufferNew size) es, ¬RingWrapsUnaligned m)) from hboth.1
  induction es, rb, hrun using runEvents_induction with
  | nil =>
    have hempty : (bufferNew size).LengthsAligned [] := fun _ hp => absurd hp List.not_mem_nil
    exact ⟨by simp,fun _ => ⟨[],bufferNew_holds hpos hlimit,hempty,by simp [bufferNew]⟩⟩
  | concat es rb e rb' hrun hstep ih =>
    have hrb := ringRun_size hrun
    rw [moments_concat hrun,List.pairwise_append]
    simp only [List.mem_append,List.mem_singleton,or_imp,forall_and,forall_eq,List.pairwise_singleton,
      true_and]
    constructor
    · rw [ih.1]
      refine and_congr_right fun hpairs => ?_
      obtain ⟨l,hholds,haligned,htail⟩ := ih.2 (ih.1.mpr hpairs)
      rw [call_sound_iff hholds haligned (hrb ▸ hsize),htail]
      constructor
      · intro hfits m hm hboth
        exact hfits hboth.2 m hm hboth.1
      · intro hnone hfits m hm hwraps
        exact hnone m hm ⟨hwraps,hfits⟩
    · intro hsound
      obtain ⟨l,hholds,haligned,htail⟩ := ih.2 hsound.1
      have hfits := (call_sound_iff hholds haligned (hrb ▸ hsize)).mp hsound.2
      obtain ⟨l',hholds',haligned',htail'⟩ := ringCallStep_aligned hholds haligned hfits hstep
      exact ⟨l',hholds',haligned',by rw [htail',htail]⟩

theorem pushPop_ahead (h : rb.Holds []) {data : List UInt8} {n : Nat} (hn : data.length = n)
    (hdata : 0 < n) (hahead : rb.tail + alignSize n < rb.size) :
    ∃ rb', runEvents ringCallStep rb [.push data,.pop] = some rb' ∧ rb'.Holds [] ∧
      rb'.size = rb.size ∧ rb'.tail = rb.tail + alignSize n := by
  subst hn
  have hindices := h.indices
  have heq := hindices.2.2.mpr rfl
  have hfits : rb.FitsAhead (alignSize data.length) := by
    rw [Buffer.FitsAhead,if_neg (by omega)]
    exact hahead
  have hpush := bufferPushTail_eq hindices.1 hindices.2.1 hdata
  rw [if_pos hfits] at hpush
  have hholds := holds_ahead h hdata hfits
  rw [List.nil_append] at hholds
  refine ⟨_,rfl,?_⟩
  rw [hpush]
  refine ⟨(bufferPopHead_holds hholds).2,?_⟩
  rw [bufferPopHead_eq hholds]
  exact ⟨rfl,rfl⟩

theorem pushPop_atStart (h : rb.Holds []) {data : List UInt8} {n : Nat} (hn : data.length = n)
    (hdata : 0 < n) (hpast : rb.size ≤ rb.tail + alignSize n) (hroom : alignSize n ≤ rb.tail) :
    ∃ rb', runEvents ringCallStep rb [.push data,.pop] = some rb' ∧ rb'.Holds [] ∧
      rb'.size = rb.size ∧ rb'.tail = n := by
  subst hn
  have hindices := h.indices
  have heq := hindices.2.2.mpr rfl
  have hahead : ¬rb.FitsAhead (alignSize data.length) := by
    rw [Buffer.FitsAhead,if_neg (by omega)]
    omega
  have hstart : rb.FitsAtStart (alignSize data.length) := ⟨heq.le,heq ▸ hroom⟩
  have hpush := bufferPushTail_eq hindices.1 hindices.2.1 hdata
  rw [if_neg hahead,if_pos hstart] at hpush
  have hholds := holds_atStart h hdata hahead hstart
  rw [List.nil_append] at hholds
  refine ⟨_,rfl,?_⟩
  rw [hpush]
  refine ⟨(bufferPopHead_holds hholds).2,?_⟩
  rw [bufferPopHead_eq hholds]
  exact ⟨rfl,rfl⟩

end Runs

end Esp32Ipc
