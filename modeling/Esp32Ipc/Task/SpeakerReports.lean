import Esp32Ipc.Framework.WrappedClock
import Esp32Ipc.Task.Speaker
import Mathlib.Data.UInt

/-!
# Overflow reports

`task_speaker` logs what the jitter buffer dropped, and then sets a deadline on the tick counter
before which it stays silent. The runs here are those of the downlink with the real time, in ticks,
of the two readings that a pass of the loop takes.
-/

namespace Esp32Ipc

open Framework

/-- `xTaskGetTickCount()` when `elapsed` ticks have passed since it read `start`. -/
def xTaskGetTickCount (start : UInt32) (elapsed : Nat) : UInt32 := start + UInt32.ofNat elapsed

/-- A line in the log: when the pass found it due and when it set the next deadline, the amount
printed and the `s_dropped` it was computed from. -/
structure OverflowReport where
  checked : Nat
  stamped : Nat
  amount : UInt32
  dropped : UInt32
  deriving DecidableEq, Repr

/-- The time of the last reading and the reports made, the latest first. -/
structure TimedSpeaker where
  speaker : Speaker
  now : Nat
  reports : List OverflowReport

def TimedSpeaker.start : TimedSpeaker := ⟨Speaker.start,0,[]⟩

/-- `report` is the end of a pass with the times of its readings, `event` anything before it. -/
inductive TimedSpeakerEvent where
  | event (e : SpeakerEvent)
  | report (checked stamped : Nat)
  deriving DecidableEq, Repr

/-- A pass that moves `reported` has logged the difference. -/
def loggedReport (s t : Speaker) (checked stamped : Nat) : List OverflowReport :=
  if t.reported = s.reported then []
  else [⟨checked,stamped,t.reported - s.reported,t.reported⟩]

/-- One step on a counter that reads `start` at time 0. -/
def timedSpeakerStep (second start : UInt32) (s : TimedSpeaker) :
    TimedSpeakerEvent → Option TimedSpeaker
  | .event (.report _ _) => none
  | .event e => (speakerStep second s.speaker e).map fun t => { s with speaker := t }
  | .report checked stamped =>
    if s.now ≤ checked ∧ checked ≤ stamped then
      (speakerStep second s.speaker
        (.report (xTaskGetTickCount start checked) (xTaskGetTickCount start stamped))).map fun t =>
          ⟨t,stamped,loggedReport s.speaker t checked stamped ++ s.reports⟩
    else none

/-- No report lasted into the last second. -/
def TimedSpeaker.Due (second : UInt32) (s : TimedSpeaker) (checked : Nat) : Prop :=
  ∀ r ∈ s.reports, r.stamped + second.toNat ≤ checked

/-- A pass that finds bytes dropped and no report in the last second reports them. -/
def MadeWhenDue (second start : UInt32) (m : TimedSpeaker × TimedSpeakerEvent) : Prop :=
  ∀ checked stamped, m.2 = .report checked stamped → m.1.speaker.dropped ≠ m.1.speaker.reported →
    m.1.Due second checked → ∃ u, timedSpeakerStep second start m.1 m.2 = some u ∧
      u.reports = ⟨checked,stamped,m.1.speaker.dropped - m.1.speaker.reported,
        m.1.speaker.dropped⟩ :: m.1.reports

/-- Reports are a second apart, none is left out, and the amounts add up to `s_dropped` as the last
report read it. -/
structure ReportsOverflow (second start : UInt32) (es : List TimedSpeakerEvent) (t : TimedSpeaker) :
    Prop where
  apart : t.reports.Pairwise fun b a => a.stamped + second.toNat ≤ b.checked
  made : ∀ m ∈ moments (timedSpeakerStep second start) TimedSpeaker.start es,
    MadeWhenDue second start m
  amounts : (t.reports.map OverflowReport.amount).sum =
    (t.reports.head?.map OverflowReport.dropped).getD 0

/-- At a pass with something to report, the counter fits the deadline set by the last report. -/
def CheckFits (second start : UInt32) (m : TimedSpeaker × TimedSpeakerEvent) : Prop :=
  ∀ checked stamped, m.2 = .report checked stamped → m.1.speaker.dropped ≠ m.1.speaker.reported →
    ∀ r ∈ m.1.reports.head?,
      WrapFits (2 ^ 32) (start.toNat + r.stamped + second.toNat) (start.toNat + checked)

section Steps

variable {second start : UInt32} {s t : TimedSpeaker} {e : TimedSpeakerEvent}

theorem speakerStep_reported {s t : Speaker} {e : SpeakerEvent}
    (he : ∀ checked stamped, e ≠ .report checked stamped)
    (hstep : speakerStep second s e = some t) :
    t.reported = s.reported ∧ t.nextReport = s.nextReport := by
  cases speakerStep_effect hstep with
  | create | submit | nothing | receive | write => exact ⟨rfl,rfl⟩
  | report | silent => exact absurd rfl (he _ _)

/-- What the timed steps do to the reports. -/
inductive TimedSpeakerEffect (second start : UInt32) (s : TimedSpeaker) :
    TimedSpeakerEvent → TimedSpeaker → Prop where
  | event {e : SpeakerEvent} {t : Speaker} (hreported : t.reported = s.speaker.reported)
      (hnext : t.nextReport = s.speaker.nextReport) :
      TimedSpeakerEffect second start s (.event e) { s with speaker := t }
  | silent {checked stamped : Nat} (hnow : s.now ≤ checked) (hlater : checked ≤ stamped)
      (hdue : ¬(s.speaker.dropped ≠ s.speaker.reported ∧
        s.speaker.nextReport ≤ xTaskGetTickCount start checked)) :
      TimedSpeakerEffect second start s (.report checked stamped)
        ⟨{ s.speaker with task := .receiving },stamped,s.reports⟩
  | logged {checked stamped : Nat} (hnow : s.now ≤ checked) (hlater : checked ≤ stamped)
      (hdue : s.speaker.dropped ≠ s.speaker.reported ∧
        s.speaker.nextReport ≤ xTaskGetTickCount start checked) :
      TimedSpeakerEffect second start s (.report checked stamped)
        ⟨{ s.speaker with
            task := .receiving
            reported := s.speaker.dropped
            nextReport := xTaskGetTickCount start stamped + second },stamped,
          ⟨checked,stamped,s.speaker.dropped - s.speaker.reported,s.speaker.dropped⟩ :: s.reports⟩

theorem timedSpeakerStep_effect (hstep : timedSpeakerStep second start s e = some t) :
    TimedSpeakerEffect second start s e t := by
  cases e with
  | event e =>
    have he : ∀ checked stamped, e ≠ .report checked stamped := by
      rintro checked stamped rfl
      simp [timedSpeakerStep] at hstep
    have hevent : (speakerStep second s.speaker e).map (fun t => { s with speaker := t }) =
        some t := by
      rw [← hstep,timedSpeakerStep]
      exact he
    obtain ⟨u,hu,rfl⟩ := Option.map_eq_some_iff.mp hevent
    obtain ⟨hreported,hnext⟩ := speakerStep_reported he hu
    exact .event hreported hnext
  | report checked stamped =>
    rw [timedSpeakerStep,Option.ite_none_right_eq_some] at hstep
    obtain ⟨⟨hnow,hlater⟩,hpass⟩ := hstep
    obtain ⟨u,hu,rfl⟩ := Option.map_eq_some_iff.mp hpass
    cases speakerStep_effect hu with
    | report _ hdue =>
      rw [loggedReport,if_neg hdue.1]
      exact .logged hnow hlater hdue
    | silent _ hdue =>
      rw [loggedReport,if_pos rfl]
      exact .silent hnow hlater hdue

end Steps

section Deadline

variable {second start : UInt32} {s t : TimedSpeaker} {e : TimedSpeakerEvent}

theorem xTaskGetTickCount_toNat (start : UInt32) (elapsed : Nat) :
    (xTaskGetTickCount start elapsed).toNat = (start.toNat + elapsed) % 2 ^ 32 :=
  uint32_reading start elapsed

theorem tickCount_deadline_le (start second : UInt32) (stamped checked : Nat) :
    xTaskGetTickCount start stamped + second ≤ xTaskGetTickCount start checked ↔
      ¬(start.toNat + checked) % 2 ^ 32 < (start.toNat + stamped + second.toNat) % 2 ^ 32 := by
  rw [UInt32.le_iff_toNat_le,UInt32.toNat_add,xTaskGetTickCount_toNat,xTaskGetTickCount_toNat,
    Nat.mod_add_mod,Nat.not_lt]

/-- The deadline is the one of the last report, and `reported` is what it read. -/
structure TimedSpeaker.Sound (second start : UInt32) (s : TimedSpeaker) : Prop where
  nextReport : s.speaker.nextReport =
    (s.reports.head?.map fun r => xTaskGetTickCount start r.stamped + second).getD 0
  ordered : s.reports.Pairwise fun b a => a.stamped ≤ b.stamped
  past : ∀ r ∈ s.reports, r.stamped ≤ s.now
  reported : s.speaker.reported = (s.reports.head?.map OverflowReport.dropped).getD 0
  amounts : (s.reports.map OverflowReport.amount).sum = s.speaker.reported

theorem timedSpeaker_sound (h : s.Sound second start)
    (hstep : timedSpeakerStep second start s e = some t) : t.Sound second start := by
  cases timedSpeakerStep_effect hstep with
  | event hreported hnext =>
    exact ⟨hnext.trans h.nextReport,h.ordered,h.past,hreported.trans h.reported,
      h.amounts.trans hreported.symm⟩
  | silent hnow hlater =>
    refine ⟨h.nextReport,h.ordered,fun r hr => ?_,h.reported,h.amounts⟩
    exact (h.past r hr).trans (hnow.trans hlater)
  | @logged checked stamped hnow hlater =>
    have hpast : ∀ r ∈ s.reports, r.stamped ≤ stamped :=
      fun r hr => (h.past r hr).trans (hnow.trans hlater)
    refine ⟨rfl,List.pairwise_cons.mpr ⟨hpast,h.ordered⟩,?_,rfl,?_⟩
    · exact List.forall_mem_cons.mpr ⟨le_rfl,hpast⟩
    · rw [List.map_cons,List.sum_cons,h.amounts]
      exact UInt32.sub_add_cancel _ _

/-- The counter fits exactly when the deadline is found reached as it is in real time. -/
theorem checkFits_iff (h : s.Sound second start) {checked stamped : Nat} (hnow : s.now ≤ checked) :
    CheckFits second start (s,.report checked stamped) ↔
      (s.speaker.dropped ≠ s.speaker.reported →
        (s.speaker.nextReport ≤ xTaskGetTickCount start checked ↔ s.Due second checked)) := by
  have hfits : CheckFits second start (s,.report checked stamped) ↔
      (s.speaker.dropped ≠ s.speaker.reported → ∀ r ∈ s.reports.head?,
        WrapFits (2 ^ 32) (start.toNat + r.stamped + second.toNat) (start.toNat + checked)) := by
    constructor
    · intro hcheck
      exact hcheck checked stamped rfl
    · rintro hcheck _ _ ⟨⟩
      exact hcheck
  rw [hfits]
  refine imp_congr_right fun _ => ?_
  rw [h.nextReport,TimedSpeaker.Due]
  have hordered := h.ordered
  have hpast := h.past
  generalize s.reports = reports at hordered hpast ⊢
  cases reports with
  | nil => simp
  | cons r rs =>
    have hlast := hpast r List.mem_cons_self
    have hsecond := second.toNat_lt
    have hall : (∀ a ∈ r :: rs, a.stamped + second.toNat ≤ checked) ↔
        r.stamped + second.toNat ≤ checked := by
      constructor
      · intro hdue
        exact hdue r List.mem_cons_self
      · intro hdue
        refine List.forall_mem_cons.mpr ⟨hdue,?_⟩
        intro a ha
        have hbefore := (List.pairwise_cons.mp hordered).1 a ha
        omega
    have hlate : r.stamped + second.toNat ≤ checked ↔
        ¬start.toNat + checked < start.toNat + r.stamped + second.toNat := by omega
    simp only [List.head?_cons,Option.mem_def,Option.some.injEq,forall_eq',Option.map_some,
      Option.getD_some]
    rw [hall,hlate,tickCount_deadline_le,wrapFits_iff (by omega),not_iff_not]

end Deadline

section Runs

variable {second start : UInt32} {es : List TimedSpeakerEvent} {s t : TimedSpeaker}
  {e : TimedSpeakerEvent}

private abbrev Apart (second : UInt32) (s : TimedSpeaker) : Prop :=
  s.reports.Pairwise fun b a => a.stamped + second.toNat ≤ b.checked

private theorem checkFits_step (h : s.Sound second start)
    (hstep : timedSpeakerStep second start s e = some t) :
    Apart second t ∧ MadeWhenDue second start (s,e) ↔ Apart second s ∧ CheckFits second start (s,e) := by
  cases timedSpeakerStep_effect hstep with
  | event =>
    refine and_congr_right fun _ => iff_of_true ?_ ?_
    · rintro _ _ ⟨⟩
    · rintro _ _ ⟨⟩
  | @silent checked stamped hnow _ hdue =>
    refine and_congr_right fun _ => ?_
    rw [checkFits_iff h hnow]
    constructor
    · intro hmade hdiffers
      refine iff_of_false (fun hreached => hdue ⟨hdiffers,hreached⟩) fun hlate => ?_
      obtain ⟨u,hu,hreports⟩ := hmade checked stamped rfl hdiffers hlate
      obtain rfl := Option.some.inj (hstep.symm.trans hu)
      exact absurd hreports.symm (List.cons_ne_self _ _)
    · rintro hfits _ _ ⟨⟩ hdiffers hlate
      exact absurd ⟨hdiffers,(hfits hdiffers).mpr hlate⟩ hdue
  | @logged checked stamped hnow _ hdue =>
    rw [checkFits_iff h hnow]
    constructor
    · rintro ⟨hapart,_⟩
      obtain ⟨hlate,hbefore⟩ := List.pairwise_cons.mp hapart
      exact ⟨hbefore,fun _ => iff_of_true hdue.2 hlate⟩
    · rintro ⟨hapart,hfits⟩
      refine ⟨List.pairwise_cons.mpr ⟨(hfits hdue.1).mp hdue.2,hapart⟩,?_⟩
      rintro _ _ ⟨⟩ _ _
      exact ⟨_,hstep,rfl⟩

theorem timedRun_sound
    (hrun : runEvents (timedSpeakerStep second start) TimedSpeaker.start es = some t) :
    t.Sound second start :=
  runEvents_invariant (fun _ _ _ => timedSpeaker_sound)
    ⟨rfl,List.Pairwise.nil,fun _ hr => absurd hr List.not_mem_nil,rfl,rfl⟩ hrun

private theorem apart_made_iff
    (hrun : runEvents (timedSpeakerStep second start) TimedSpeaker.start es = some t) :
    (Apart second t ∧ ∀ m ∈ moments (timedSpeakerStep second start) TimedSpeaker.start es,
        MadeWhenDue second start m) ↔
      ∀ m ∈ moments (timedSpeakerStep second start) TimedSpeaker.start es,
        CheckFits second start m := by
  induction es, t, hrun using runEvents_induction with
  | nil => simp [Apart,TimedSpeaker.start]
  | concat es s e t hrun hstep ih =>
    have hlast := checkFits_step (timedRun_sound hrun) hstep
    rw [moments_concat hrun]
    simp only [List.forall_mem_append,List.forall_mem_singleton]
    constructor
    · rintro ⟨hapart,hmade,hmadeLast⟩
      obtain ⟨hapart,hfits⟩ := hlast.mp ⟨hapart,hmadeLast⟩
      exact ⟨ih.mp ⟨hapart,hmade⟩,hfits⟩
    · rintro ⟨hfits,hfitsLast⟩
      obtain ⟨hapart,hmade⟩ := ih.mpr hfits
      obtain ⟨hapart,hmadeLast⟩ := hlast.mpr ⟨hapart,hfitsLast⟩
      exact ⟨hapart,hmade,hmadeLast⟩

/-- In every run the overflow is reported, at most once a second, exactly when the counter fits the
deadline at every pass that has something to report. -/
theorem speaker_reportsOverflow_iff
    (hrun : runEvents (timedSpeakerStep second start) TimedSpeaker.start es = some t) :
    ReportsOverflow second start es t ↔
      ∀ m ∈ moments (timedSpeakerStep second start) TimedSpeaker.start es,
        CheckFits second start m := by
  have hamounts : (t.reports.map OverflowReport.amount).sum =
      (t.reports.head?.map OverflowReport.dropped).getD 0 :=
    (timedRun_sound hrun).amounts.trans (timedRun_sound hrun).reported
  calc ReportsOverflow second start es t ↔ Apart second t ∧
        ∀ m ∈ moments (timedSpeakerStep second start) TimedSpeaker.start es,
          MadeWhenDue second start m := ⟨fun h => ⟨h.apart,h.made⟩,fun h => ⟨h.1,h.2,hamounts⟩⟩
    _ ↔ _ := apart_made_iff hrun

/-- A payload, and the read and write of one packet. -/
def submitAndWrite (payload : Nat) : List TimedSpeakerEvent :=
  [.event (.submit (List.replicate payload 0)),.event (.receive audioSamplesPerPacket),
    .event .write]

/-- The jitter buffer overflows by one byte, which is reported at time 1. -/
def oneReport : List TimedSpeakerEvent :=
  TimedSpeakerEvent.event .create :: (submitAndWrite 1281 ++ [TimedSpeakerEvent.report 1 1])

/-- The counter wraps between the report and its deadline. -/
theorem speaker_reportsOverflow_iff_overWrap : ∃ t,
    runEvents (timedSpeakerStep 1000 4294966796) TimedSpeaker.start oneReport = some t ∧
    (ReportsOverflow 1000 4294966796 oneReport t ↔
      ∀ m ∈ moments (timedSpeakerStep 1000 4294966796) TimedSpeaker.start oneReport,
        CheckFits 1000 4294966796 m) := by
  have hrun : ((runEvents (timedSpeakerStep 1000 4294966796) TimedSpeaker.start oneReport).map
      TimedSpeaker.reports).isSome := by
    decide +kernel
  rw [Option.isSome_map] at hrun
  obtain ⟨t,ht⟩ := Option.isSome_iff_exists.mp hrun
  exact ⟨t,ht,speaker_reportsOverflow_iff ht⟩

theorem ReportsOverflow.made_last {checked stamped : Nat}
    (h : ReportsOverflow second start (es ++ [.report checked stamped]) t)
    (hrun : runEvents (timedSpeakerStep second start) TimedSpeaker.start es = some s)
    (hlast : runEvents (timedSpeakerStep second start) TimedSpeaker.start
      (es ++ [.report checked stamped]) = some t)
    (hdiffers : s.speaker.dropped ≠ s.speaker.reported) (hdue : s.Due second checked) :
    t.reports.length = s.reports.length + 1 := by
  obtain ⟨s',hs',hstep⟩ := runEvents_concat.mp hlast
  obtain rfl := Option.some.inj (hrun.symm.trans hs')
  have hmem : (s,TimedSpeakerEvent.report checked stamped) ∈
      moments (timedSpeakerStep second start) TimedSpeaker.start
        (es ++ [.report checked stamped]) := by
    rw [moments_concat hrun]
    exact List.mem_append_right _ List.mem_cons_self
  obtain ⟨u,hu,hmade⟩ := h.made _ hmem checked stamped rfl hdiffers hdue
  obtain rfl := Option.some.inj (hstep.symm.trans hu)
  rw [hmade,List.length_cons]

/-- Half a second before the wrap the second report follows the first after one tick, and where the
deadline is the last value before the wrap, a pass two ticks later finds it not reached. -/
theorem speakerReports_atWrap :
    (∃ t, runEvents (timedSpeakerStep 1000 4294966796) TimedSpeaker.start
        (oneReport ++ submitAndWrite 161 ++ [TimedSpeakerEvent.report 2 2]) = some t ∧
      ¬ReportsOverflow 1000 4294966796
        (oneReport ++ submitAndWrite 161 ++ [TimedSpeakerEvent.report 2 2]) t) ∧
    ∃ t, runEvents (timedSpeakerStep 1000 4294966294) TimedSpeaker.start
        (oneReport ++ submitAndWrite 161 ++ [TimedSpeakerEvent.report 1003 1003]) = some t ∧
      ¬ReportsOverflow 1000 4294966294
        (oneReport ++ submitAndWrite 161 ++ [TimedSpeakerEvent.report 1003 1003]) t := by
  constructor
  · have hrun : (runEvents (timedSpeakerStep 1000 4294966796) TimedSpeaker.start
        (oneReport ++ submitAndWrite 161 ++ [TimedSpeakerEvent.report 2 2])).map
          TimedSpeaker.reports = some [⟨2,2,1,2⟩,⟨1,1,1,1⟩] := by
      decide +kernel
    obtain ⟨t,ht,hreports⟩ := Option.map_eq_some_iff.mp hrun
    refine ⟨t,ht,fun h => ?_⟩
    have hapart := h.apart
    rw [hreports] at hapart
    exact absurd hapart (by decide)
  · have hbefore : (runEvents (timedSpeakerStep 1000 4294966294) TimedSpeaker.start
        (oneReport ++ submitAndWrite 161)).map
          (fun s => (s.speaker.dropped,s.speaker.reported,s.reports)) =
        some (2,1,[⟨1,1,1,1⟩]) := by
      decide +kernel
    have hrun : (runEvents (timedSpeakerStep 1000 4294966294) TimedSpeaker.start
        (oneReport ++ submitAndWrite 161 ++ [TimedSpeakerEvent.report 1003 1003])).map
          TimedSpeaker.reports = some [⟨1,1,1,1⟩] := by
      decide +kernel
    obtain ⟨s,hs,hfields⟩ := Option.map_eq_some_iff.mp hbefore
    obtain ⟨t,ht,hreports⟩ := Option.map_eq_some_iff.mp hrun
    obtain ⟨hdropped,hreported,hone⟩ : s.speaker.dropped = 2 ∧ s.speaker.reported = 1 ∧
        s.reports = [⟨1,1,1,1⟩] := by simpa using hfields
    refine ⟨t,ht,fun h => ?_⟩
    have hlength := h.made_last hs ht (by rw [hdropped,hreported]; decide)
      (by rw [TimedSpeaker.Due,hone]; decide)
    rw [hreports,hone] at hlength
    exact absurd hlength (by decide)

end Runs

end Esp32Ipc
