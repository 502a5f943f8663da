import Esp32Ipc.Core.G711
import Esp32Ipc.Framework.Run
import Esp32Ipc.Platform.StreamBuffer
import Mathlib.Data.Nat.ModEq

/-!
# Downlink audio

The peer task hands each received payload to `speaker_submit_g711a`, which puts it into the jitter
buffer; `task_speaker` takes the bytes out again, decodes them and writes the samples to the
codec. The payloads and the reads cut the stream at unrelated places.
-/

namespace Esp32Ipc

open Framework

def audioSampleRate : Nat := 8000

def configAudioDuration : Nat := 20

def audioSamplesPerPacket : Nat := configAudioDuration * audioSampleRate / 1000

def audioSpkJitterMs : Nat := 160

def audioSpkJitterBytes : Nat := audioSpkJitterMs * audioSampleRate / 1000

/-- What `s_jitter` points to. -/
abbrev JitterBuffer := StreamBuffer audioSpkJitterBytes

/-- `speaker_submit_g711a` on the values of `s_jitter` and `s_dropped`. -/
def speakerSubmitG711a (jitter : Option JitterBuffer) (dropped : UInt32) (payload : List UInt8) :
    Bool × Option JitterBuffer × UInt32 :=
  match jitter with
  | none => (false,none,dropped)
  | some buffer =>
    if payload.length = 0 then (false,some buffer,dropped)
    else if (buffer.send payload).1 ≠ payload.length then
      (false,some (buffer.send payload).2,
        dropped + UInt32.ofNat (payload.length - (buffer.send payload).1))
    else (true,some (buffer.send payload).2,dropped)

/-- `task_speaker` between two of its steps. -/
inductive SpeakerPoint where
  | starting
  | receiving
  | writing (alaw : List UInt8)
  | reporting
  deriving DecidableEq, Repr

/-- The statics of the module, the locals of `task_speaker` and the samples its loop has written. -/
structure Speaker where
  jitter : Option JitterBuffer
  dropped : UInt32
  task : SpeakerPoint
  reported : UInt32
  nextReport : UInt32
  written : List Int

def Speaker.start : Speaker where
  jitter := none
  dropped := 0
  task := .starting
  reported := 0
  nextReport := 0
  written := []

/-- Calls of the peer task and steps of `task_speaker`. `receive` carries the number of bytes the
stream buffer hands over, `report` the two readings of the tick counter. -/
inductive SpeakerEvent where
  | create
  | submit (payload : List UInt8)
  | receive (got : Nat)
  | write
  | report (checked stamped : UInt32)
  deriving DecidableEq, Repr

/-- One step. `second` is `pdMS_TO_TICKS(1000)`. -/
def speakerStep (second : UInt32) (s : Speaker) : SpeakerEvent → Option Speaker
  | .create =>
    if s.task = .starting then
      some { s with jitter := some (StreamBuffer.create _), task := .receiving }
    else none
  | .submit payload =>
    some { s with
      jitter := (speakerSubmitG711a s.jitter s.dropped payload).2.1
      dropped := (speakerSubmitG711a s.jitter s.dropped payload).2.2 }
  | .receive got =>
    match s.jitter with
    | some buffer =>
      if s.task = .receiving ∧ got ≤ audioSamplesPerPacket ∧ got ≤ buffer.bytes.length then
        -- nothing received: `continue`
        if got = 0 then some s
        else some { s with
          jitter := some (buffer.receive got).2
          task := .writing (buffer.receive got).1 }
      else none
    | none => none
  | .write =>
    match s.task with
    | .writing alaw =>
      some { s with task := .reporting, written := s.written ++ alaw.map g711aDecode }
    | _ => none
  | .report checked stamped =>
    if s.task = .reporting then
      if s.dropped ≠ s.reported ∧ s.nextReport ≤ checked then
        some { s with
          task := .receiving
          reported := s.dropped
          nextReport := stamped + second }
      else some { s with task := .receiving }
    else none

namespace Speaker

/-- The bytes received and not yet decoded. -/
def inHand (s : Speaker) : List UInt8 :=
  match s.task with
  | .writing alaw => alaw
  | _ => []

def buffered (s : Speaker) : List UInt8 := s.jitter.elim [] StreamBuffer.bytes

/-- What the codec was given, followed by what it will be given from the bytes taken in so far. -/
def stream (s : Speaker) : List Int := s.written ++ (s.inHand ++ s.buffered).map g711aDecode

/-- The prefix of `payload` that a call puts into the jitter buffer. -/
def acceptedPrefix (s : Speaker) (payload : List UInt8) : List UInt8 :=
  s.jitter.elim [] fun buffer => payload.take (buffer.send payload).1

/-- What a call is asked to put into the jitter buffer, once there is one. -/
def submitted (s : Speaker) (payload : List UInt8) : List UInt8 :=
  s.jitter.elim [] fun _ => payload

end Speaker

/-- The accepted prefixes of a run, in submission order. -/
def acceptedBytes (ms : List (Speaker × SpeakerEvent)) : List UInt8 :=
  ms.flatMap fun
    | (s, .submit payload) => s.acceptedPrefix payload
    | _ => []

/-- The payloads submitted since the jitter buffer was created. -/
def submittedBytes (ms : List (Speaker × SpeakerEvent)) : List UInt8 :=
  ms.flatMap fun
    | (s, .submit payload) => s.submitted payload
    | _ => []

def NothingDropped (ms : List (Speaker × SpeakerEvent)) : Prop :=
  ∀ m ∈ ms, ∀ payload, m.2 = .submit payload → m.1.acceptedPrefix payload = m.1.submitted payload

section Submit

variable (s : Speaker) (payload : List UInt8)

theorem speakerSubmitG711a_true :
    (speakerSubmitG711a s.jitter s.dropped payload).1 = true ↔
      payload ≠ [] ∧ s.acceptedPrefix payload = payload := by
  simp only [speakerSubmitG711a.eq_def,Speaker.acceptedPrefix]
  cases s.jitter with
  | none => simp
  | some buffer =>
    have hsent := buffer.send_le payload
    simp only [Option.elim_some,List.take_eq_self_iff]
    split_ifs with hlen hcut
    · simp [List.length_eq_zero_iff.mp hlen]
    · have hless : (buffer.send payload).1 < payload.length := lt_of_le_of_ne hsent hcut
      simpa using fun _ => hless
    · have hsome : payload ≠ [] := fun h => hlen (by rw [h,List.length_nil])
      simp [hsome,le_of_eq (not_not.mp hcut).symm]

theorem speakerSubmitG711a_bytes :
    (speakerSubmitG711a s.jitter s.dropped payload).2.1.elim [] StreamBuffer.bytes =
      s.buffered ++ s.acceptedPrefix payload := by
  simp only [speakerSubmitG711a.eq_def,Speaker.buffered,Speaker.acceptedPrefix]
  cases s.jitter with
  | none => rfl
  | some buffer =>
    simp only [Option.elim_some]
    split_ifs with hlen hcut
    · simp [List.length_eq_zero_iff.mp hlen]
    · exact buffer.send_bytes payload
    · exact buffer.send_bytes payload

theorem speakerSubmitG711a_dropped :
    (s.acceptedPrefix payload).length + (speakerSubmitG711a s.jitter s.dropped payload).2.2.toNat ≡
      (s.submitted payload).length + s.dropped.toNat [MOD 2 ^ 32] := by
  simp only [speakerSubmitG711a.eq_def,Speaker.acceptedPrefix,Speaker.submitted]
  cases s.jitter with
  | none => exact Nat.ModEq.refl _
  | some buffer =>
    have hsent := buffer.send_le payload
    simp only [Option.elim_some,List.length_take,Nat.min_eq_left hsent]
    split_ifs with hlen hcut
    · have hnone : (buffer.send payload).1 = 0 := by omega
      rw [hnone,hlen]
    · rw [Nat.ModEq,UInt32.toNat_add,UInt32.toNat_ofNat']
      omega
    · rw [not_not.mp hcut]

end Submit

section Steps

variable {second : UInt32} {s t : Speaker} {e : SpeakerEvent}

/-- What the steps do. -/
inductive SpeakerEffect (second : UInt32) (s : Speaker) : SpeakerEvent → Speaker → Prop where
  | create (htask : s.task = .starting) : SpeakerEffect second s .create
      { s with jitter := some (StreamBuffer.create _), task := .receiving }
  | submit (payload : List UInt8) : SpeakerEffect second s (.submit payload)
      { s with
        jitter := (speakerSubmitG711a s.jitter s.dropped payload).2.1
        dropped := (speakerSubmitG711a s.jitter s.dropped payload).2.2 }
  | nothing (htask : s.task = .receiving) : SpeakerEffect second s (.receive 0) s
  | receive {buffer : JitterBuffer} {got : Nat} (hjitter : s.jitter = some buffer)
      (htask : s.task = .receiving) (hpacket : got ≤ audioSamplesPerPacket)
      (hgot : got ≤ buffer.bytes.length) : SpeakerEffect second s (.receive got)
      { s with jitter := some (buffer.receive got).2, task := .writing (buffer.receive got).1 }
  | write {alaw : List UInt8} (htask : s.task = .writing alaw) : SpeakerEffect second s .write
      { s with task := .reporting, written := s.written ++ alaw.map g711aDecode }
  | report {checked stamped : UInt32} (htask : s.task = .reporting)
      (hdue : s.dropped ≠ s.reported ∧ s.nextReport ≤ checked) :
      SpeakerEffect second s (.report checked stamped)
        { s with task := .receiving, reported := s.dropped, nextReport := stamped + second }
  | silent {checked stamped : UInt32} (htask : s.task = .reporting)
      (hdue : ¬(s.dropped ≠ s.reported ∧ s.nextReport ≤ checked)) :
      SpeakerEffect second s (.report checked stamped) { s with task := .receiving }

theorem speakerStep_effect (hstep : speakerStep second s e = some t) :
    SpeakerEffect second s e t := by
  cases e with
  | create =>
    simp only [speakerStep,Option.ite_none_right_eq_some,Option.some.injEq] at hstep
    rw [← hstep.2]
    exact .create hstep.1
  | submit payload =>
    rw [← Option.some.inj hstep]
    exact .submit payload
  | receive got =>
    simp only [speakerStep] at hstep
    split at hstep
    next buffer hjitter =>
      rw [Option.ite_none_right_eq_some] at hstep
      have htaken := hstep.2
      split_ifs at htaken with hnone
      · rw [← Option.some.inj htaken,hnone]
        exact .nothing hstep.1.1
      · rw [← Option.some.inj htaken]
        exact .receive hjitter hstep.1.1 hstep.1.2.1 hstep.1.2.2
    next => cases hstep
  | write =>
    simp only [speakerStep] at hstep
    split at hstep
    next alaw htask =>
      rw [← Option.some.inj hstep]
      exact .write htask
    next => cases hstep
  | report checked stamped =>
    rw [speakerStep,Option.ite_none_right_eq_some] at hstep
    have hreported := hstep.2
    split_ifs at hreported with hdue
    · rw [← Option.some.inj hreported]
      exact .report hstep.1 hdue
    · rw [← Option.some.inj hreported]
      exact .silent hstep.1 hdue

/-- There is no jitter buffer before `task_speaker` creates it. -/
def Speaker.CreatedByTask (s : Speaker) : Prop := s.task = .starting → s.jitter = none

theorem speakerStep_createdByTask (h : s.CreatedByTask) (hstep : speakerStep second s e = some t) :
    t.CreatedByTask := by
  intro ht
  cases speakerStep_effect hstep with
  | submit payload =>
    change (speakerSubmitG711a s.jitter s.dropped payload).2.1 = none
    rw [h ht]
    rfl
  | nothing => exact h ht
  | create | receive | write | report | silent => cases ht

/-- A step moves bytes towards the codec and puts the accepted ones behind them. -/
theorem speakerStep_stream (h : s.CreatedByTask) (hstep : speakerStep second s e = some t) :
    t.stream = s.stream ++ (acceptedBytes [(s,e)]).map g711aDecode := by
  cases speakerStep_effect hstep with
  | create htask =>
    simp [Speaker.stream,Speaker.inHand,Speaker.buffered,acceptedBytes,htask,h htask]
  | submit payload =>
    have hbytes := speakerSubmitG711a_bytes s payload
    simp only [Speaker.stream,Speaker.inHand,Speaker.buffered,acceptedBytes,
      List.flatMap_singleton] at hbytes ⊢
    rw [hbytes]
    simp
  | nothing => simp [acceptedBytes]
  | receive hjitter htask =>
    simp [Speaker.stream,Speaker.inHand,Speaker.buffered,acceptedBytes,htask,hjitter,
      StreamBuffer.receive_bytes]
  | write htask | report htask | silent htask =>
    simp [Speaker.stream,Speaker.inHand,Speaker.buffered,acceptedBytes,htask]

theorem speakerStep_dropped (hstep : speakerStep second s e = some t) :
    (acceptedBytes [(s,e)]).length + t.dropped.toNat ≡
      (submittedBytes [(s,e)]).length + s.dropped.toNat [MOD 2 ^ 32] := by
  cases speakerStep_effect hstep with
  | submit payload =>
    simpa [acceptedBytes,submittedBytes] using speakerSubmitG711a_dropped s payload
  | create | nothing | receive | write | report | silent => exact Nat.ModEq.refl _

end Steps

section Runs

variable {second : UInt32} {s t : Speaker} {es fs : List SpeakerEvent}

private theorem acceptedBytes_append (ms ms' : List (Speaker × SpeakerEvent)) :
    acceptedBytes (ms ++ ms') = acceptedBytes ms ++ acceptedBytes ms' := List.flatMap_append

private theorem submittedBytes_append (ms ms' : List (Speaker × SpeakerEvent)) :
    submittedBytes (ms ++ ms') = submittedBytes ms ++ submittedBytes ms' := List.flatMap_append

theorem stream_accepted (hrun : runEvents (speakerStep second) Speaker.start es = some s) :
    s.stream = (acceptedBytes (moments (speakerStep second) Speaker.start es)).map g711aDecode := by
  induction es, s, hrun using runEvents_induction with
  | nil => rfl
  | concat es s e t hrun hstep ih =>
    have hcreated : s.CreatedByTask :=
      runEvents_invariant (fun _ _ _ => speakerStep_createdByTask) (fun _ => rfl) hrun
    rw [speakerStep_stream hcreated hstep,ih,moments_concat hrun,acceptedBytes_append,
      List.map_append]

theorem dropped_accounts (hrun : runEvents (speakerStep second) Speaker.start es = some s) :
    (acceptedBytes (moments (speakerStep second) Speaker.start es)).length + s.dropped.toNat ≡
      (submittedBytes (moments (speakerStep second) Speaker.start es)).length [MOD 2 ^ 32] := by
  induction es, s, hrun using runEvents_induction with
  | nil => exact Nat.ModEq.refl _
  | concat es s e t hrun hstep ih =>
    have hcall := speakerStep_dropped hstep
    rw [moments_concat hrun,acceptedBytes_append,submittedBytes_append,List.length_append,
      List.length_append]
    calc _ = (acceptedBytes (moments (speakerStep second) Speaker.start es)).length +
          ((acceptedBytes [(s,e)]).length + t.dropped.toNat) := Nat.add_assoc _ _ _
      _ ≡ (acceptedBytes (moments (speakerStep second) Speaker.start es)).length +
          ((submittedBytes [(s,e)]).length + s.dropped.toNat) [MOD 2 ^ 32] := hcall.add_left _
      _ = (acceptedBytes (moments (speakerStep second) Speaker.start es)).length +
          s.dropped.toNat + (submittedBytes [(s,e)]).length := by omega
      _ ≡ _ [MOD 2 ^ 32] := ih.add_right _

theorem NothingDropped.accepted {ms : List (Speaker × SpeakerEvent)} (h : NothingDropped ms) :
    acceptedBytes ms = submittedBytes ms := by
  induction ms with
  | nil => rfl
  | cons m ms ih =>
    have hrest := ih fun m' hm' => h m' (List.mem_cons_of_mem _ hm')
    have hfirst : acceptedBytes [m] = submittedBytes [m] := by
      cases m with
      | mk s e =>
        cases e with
        | submit payload =>
          have hwhole := h _ List.mem_cons_self payload rfl
          simpa [acceptedBytes,submittedBytes] using hwhole
        | create | receive | write | report => rfl
    rw [← List.singleton_append,acceptedBytes_append,submittedBytes_append,hfirst,hrest]

/-- Over every interleaving of calls and reads the codec gets the decode of the accepted prefixes
in order, a call returns true exactly when its payload was accepted whole, and `s_dropped` counts
the rest; with nothing dropped, only the bytes submitted matter, not how they were cut. -/
theorem downlink_stream (hrun : runEvents (speakerStep second) Speaker.start es = some s) :
    s.stream = (acceptedBytes (moments (speakerStep second) Speaker.start es)).map g711aDecode ∧
      (∀ m ∈ moments (speakerStep second) Speaker.start es, ∀ payload, m.2 = .submit payload →
        ((speakerSubmitG711a m.1.jitter m.1.dropped payload).1 = true ↔
          payload ≠ [] ∧ m.1.acceptedPrefix payload = payload)) ∧
      (acceptedBytes (moments (speakerStep second) Speaker.start es)).length + s.dropped.toNat ≡
        (submittedBytes (moments (speakerStep second) Speaker.start es)).length [MOD 2 ^ 32] ∧
      ∀ fs t, runEvents (speakerStep second) Speaker.start fs = some t →
        NothingDropped (moments (speakerStep second) Speaker.start es) →
        NothingDropped (moments (speakerStep second) Speaker.start fs) →
        submittedBytes (moments (speakerStep second) Speaker.start es) =
          submittedBytes (moments (speakerStep second) Speaker.start fs) → s.stream = t.stream := by
  refine ⟨stream_accepted hrun,?_,dropped_accounts hrun,?_⟩
  · intro m _ payload _
    exact speakerSubmitG711a_true m.1 payload
  · intro fs t hrun' hes hfs hsame
    rw [stream_accepted hrun,stream_accepted hrun',hes.accepted,hfs.accepted,hsame]

/-- Three bytes cut as one and two, of which two have been read. -/
theorem downlink_stream_reachable : ∃ s, runEvents (speakerStep 100) Speaker.start
      [.create,.submit [0xD5],.submit [0x55,0x80],.receive 2,.write] = some s ∧
    s.stream = [0xD5,0x55,0x80].map g711aDecode := by
  have hrun : runEvents (speakerStep 100) Speaker.start
      [.create,.submit [0xD5],.submit [0x55,0x80],.receive 2,.write] = some _ := rfl
  exact ⟨_,hrun,(downlink_stream hrun).1⟩

end Runs

end Esp32Ipc
