import Esp32Ipc.Task.VideoTasks

/-!
# Keyframe requests

`on_request_keyframe` runs on the peer task and sets `s_keyframe_requested`; the encode task takes the
request by loading the flag and then clearing it, and asks the encoder for an IDR only if the load read
true. The load and the store are steps of their own here, the rest is the run of the video tasks.
-/

namespace Esp32Ipc

open Framework

variable {n m : Nat}

/-- `webrtc_take_keyframe_request` and the test of what it returns: before it, between the load and
the store, and behind the store. -/
inductive TakePoint where
  | idle
  | loaded (requested : Bool)
  | taken (requested : Bool)
  deriving DecidableEq, Repr

/-- `results` is what the calls of `hal_h264_force_idr` have returned, the first one first. -/
structure KeyframeVideo (n m : Nat) where
  tasks : VideoTasks n m
  keyframeRequested : Bool
  take : TakePoint
  results : List EspErr

inductive KeyframeEvent (n m : Nat) where
  | onRequestKeyframe
  | load
  | clear
  | force (granted : Bool)
  | video (event : VideoEvent n m)

def KeyframeVideo.start (n m width height : Nat) : KeyframeVideo n m where
  tasks := .start n m width height
  keyframeRequested := false
  take := .idle
  results := []

/-- The call of `hal_h264_force_idr`, if there is one. -/
def KeyframeVideo.forceIdr (s : KeyframeVideo n m) (requested granted : Bool) : List EspErr :=
  if requested then [(halH264ForceIdr s.tasks.enc granted).1] else []

def keyframeStep (s : KeyframeVideo n m) : KeyframeEvent n m → Option (KeyframeVideo n m)
  | .onRequestKeyframe => some { s with keyframeRequested := true }
  | .load =>
    match s.tasks.encode, s.take with
    | .keyframe _, .idle => some { s with take := .loaded s.keyframeRequested }
    | _, _ => none
  | .clear =>
    match s.take with
    | .loaded requested => some { s with keyframeRequested := false, take := .taken requested }
    | _ => none
  | .force granted =>
    match s.take with
    | .taken requested =>
      (videoStep s.tasks (.keyframe requested granted)).map fun tasks =>
        { s with
          tasks := tasks
          take := .idle
          results := s.results ++ s.forceIdr requested granted }
    | _ => none
  | .video event =>
    match event with
    | .keyframe _ _ => none
    | event => (videoStep s.tasks event).map fun tasks => { s with tasks := tasks }

/-- `hal_h264_force_idr` is called. -/
def ForcesIdr : KeyframeVideo n m × KeyframeEvent n m → Prop
  | (s, .force _) => s.take = .taken true
  | _ => False

/-- What the driver would answer to the control, at a moment that calls `hal_h264_force_idr`. -/
def idrAnswer : KeyframeVideo n m × KeyframeEvent n m → Option Bool
  | (s, .force granted) => if s.take = .taken true then some granted else none
  | _ => none

/-- `ESP_OK` up to the first refusal, which is reported; from then on the driver is not asked. -/
def latchedResults : List Bool → List EspErr
  | [] => []
  | true :: answers => .ok :: latchedResults answers
  | false :: answers => .fail :: answers.map fun _ => .notSupported

section Steps

variable {s t : KeyframeVideo n m} {event : KeyframeEvent n m}

/-- What the steps do to the flag and to the take. -/
inductive KeyframeEffect (s : KeyframeVideo n m) : KeyframeEvent n m → KeyframeVideo n m → Prop where
  | requested : KeyframeEffect s .onRequestKeyframe { s with keyframeRequested := true }
  | loaded (frame : VcapFrame n) (hencode : s.tasks.encode = .keyframe frame) (htake : s.take = .idle) :
      KeyframeEffect s .load { s with take := .loaded s.keyframeRequested }
  | cleared (requested : Bool) (htake : s.take = .loaded requested) :
      KeyframeEffect s .clear { s with keyframeRequested := false, take := .taken requested }
  | forced (requested granted : Bool) (tasks : VideoTasks n m) (htake : s.take = .taken requested)
      (hstep : videoStep s.tasks (.keyframe requested granted) = some tasks) :
      KeyframeEffect s (.force granted)
        { s with
          tasks := tasks
          take := .idle
          results := s.results ++ s.forceIdr requested granted }
  | video (e : VideoEvent n m) (tasks : VideoTasks n m) (hother : ∀ b g, e ≠ .keyframe b g)
      (hstep : videoStep s.tasks e = some tasks) :
      KeyframeEffect s (.video e) { s with tasks := tasks }

theorem keyframeStep_video {e : VideoEvent n m} (hother : ∀ b g, e ≠ .keyframe b g) :
    keyframeStep s (.video e) = (videoStep s.tasks e).map fun tasks => { s with tasks := tasks } := by
  cases e with
  | keyframe b g => exact absurd rfl (hother b g)
  | _ => rfl

theorem keyframeStep_effect (h : keyframeStep s event = some t) : KeyframeEffect s event t := by
  cases event with
  | onRequestKeyframe =>
    cases Option.some.inj h
    exact .requested
  | load =>
    rw [keyframeStep] at h
    split at h
    · rename_i frame hencode htake
      cases Option.some.inj h
      exact .loaded frame hencode htake
    · cases h
  | clear =>
    rw [keyframeStep] at h
    split at h
    · rename_i requested htake
      cases Option.some.inj h
      exact .cleared requested htake
    · cases h
  | force granted =>
    rw [keyframeStep] at h
    split at h
    · rename_i requested htake
      obtain ⟨tasks,hstep,rfl⟩ := Option.map_eq_some_iff.mp h
      exact .forced requested granted tasks htake hstep
    · cases h
  | video e =>
    by_cases hother : ∀ b g, e ≠ .keyframe b g
    · rw [keyframeStep_video hother] at h
      obtain ⟨tasks,hstep,rfl⟩ := Option.map_eq_some_iff.mp h
      exact .video e tasks hother hstep
    · push Not at hother
      obtain ⟨b,g,rfl⟩ := hother
      cases h

/-- The request made is still to be answered: by the take under way, or by the next. -/
def Owed (s : KeyframeVideo n m) : Prop :=
  s.take = .loaded true ∨ s.take = .taken true ∨ s.keyframeRequested = true ∧ s.take ≠ .loaded false

/-- The take under way will call `hal_h264_force_idr`. -/
def Answering (s : KeyframeVideo n m) : Prop := s.take = .loaded true ∨ s.take = .taken true

/-- Nothing is going to be answered. -/
def Forgotten (s : KeyframeVideo n m) : Prop :=
  s.take = .loaded false ∨ s.keyframeRequested = false ∧ ¬Answering s

theorem Owed.step (h : Owed s) (hstep : keyframeStep s event = some t) (hforce : ¬ForcesIdr (s,event)) :
    Owed t := by
  cases keyframeStep_effect hstep with
  | requested =>
    rcases h with h | h | ⟨-,h⟩
    · exact .inl h
    · exact .inr (.inl h)
    · exact .inr (.inr ⟨rfl,h⟩)
  | loaded frame hencode htake =>
    rcases h with h | h | ⟨h,-⟩
    · cases htake.symm.trans h
    · cases htake.symm.trans h
    · exact .inl (congrArg TakePoint.loaded h)
  | cleared requested htake =>
    rcases h with h | h | ⟨-,h⟩
    · cases htake.symm.trans h
      exact .inr (.inl rfl)
    · cases htake.symm.trans h
    · cases requested with
      | true => exact .inr (.inl rfl)
      | false => exact absurd htake h
  | forced requested granted tasks htake hvideo =>
    have hrequested : requested = false := by
      cases requested with
      | true => exact absurd htake hforce
      | false => rfl
    subst requested
    rcases h with h | h | ⟨h,-⟩
    · cases htake.symm.trans h
    · cases htake.symm.trans h
    · exact .inr (.inr ⟨h,fun hload => by cases hload⟩)
  | video e tasks hother hvideo => exact h

theorem Answering.step (h : Answering s) (hstep : keyframeStep s event = some t)
    (hforce : ¬ForcesIdr (s,event)) : Answering t := by
  cases keyframeStep_effect hstep with
  | requested => exact h
  | loaded frame hencode htake =>
    rcases h with h | h <;> cases htake.symm.trans h
  | cleared requested htake =>
    rcases h with h | h
    · cases htake.symm.trans h
      exact .inr rfl
    · cases htake.symm.trans h
  | forced requested granted tasks htake hvideo =>
    rcases h with h | h
    · cases htake.symm.trans h
    · exact absurd h hforce
  | video e tasks hother hvideo => exact h

theorem Forgotten.step (h : Forgotten s) (hstep : keyframeStep s event = some t)
    (hevent : event ≠ .onRequestKeyframe) : Forgotten t ∧ ¬ForcesIdr (s,event) := by
  cases keyframeStep_effect hstep with
  | requested => exact absurd rfl hevent
  | loaded frame hencode htake =>
    rcases h with h | ⟨h,-⟩
    · cases htake.symm.trans h
    · exact ⟨.inl (congrArg TakePoint.loaded h),not_false⟩
  | cleared requested htake =>
    refine ⟨.inr ⟨rfl,?_⟩,not_false⟩
    rintro (hnow | hnow)
    · cases hnow
    · cases hnow
      rcases h with h | ⟨-,h⟩
      · cases htake.symm.trans h
      · exact h (.inl htake)
  | forced requested granted tasks htake hvideo =>
    rcases h with h | ⟨h,hnot⟩
    · cases htake.symm.trans h
    · refine ⟨.inr ⟨h,?_⟩,fun hforce => hnot (.inr hforce)⟩
      rintro (hnow | hnow) <;> cases hnow
  | video e tasks hother hvideo => exact ⟨h,not_false⟩

end Steps

section Runs

variable {s t : KeyframeVideo n m} {post : List (KeyframeEvent n m)}

/-- The video tasks run as before, the take being the answer their keyframe step is given. -/
theorem keyframe_projects (hrun : runEvents keyframeStep s post = some t) :
    Reachable videoStep s.tasks t.tasks := by
  induction post, t, hrun using runEvents_induction with
  | nil => exact ⟨[],rfl⟩
  | concat es t e u hrun hstep ih =>
    obtain ⟨events,hevents⟩ := ih
    cases keyframeStep_effect hstep with
    | requested => exact ⟨events,hevents⟩
    | loaded => exact ⟨events,hevents⟩
    | cleared => exact ⟨events,hevents⟩
    | forced requested granted tasks _ hvideo =>
      exact ⟨events ++ [.keyframe requested granted],runEvents_concat.mpr ⟨_,hevents,hvideo⟩⟩
    | video e tasks _ hvideo => exact ⟨events ++ [e],runEvents_concat.mpr ⟨_,hevents,hvideo⟩⟩

theorem not_answering_of_idle (h : t.take = .idle) : ¬Answering t := by
  rintro (hnow | hnow) <;> cases h.symm.trans hnow

private theorem forgotten_run (hs : Forgotten s) (hnone : .onRequestKeyframe ∉ post) :
    ∀ m' ∈ moments keyframeStep s post, ¬ForcesIdr m' := by
  induction post generalizing s with
  | nil => simp
  | cons e es ih =>
    intro m' hm
    cases he : keyframeStep s e with
    | none =>
      simp only [moments,he,Option.elim_none,List.mem_singleton] at hm
      subst m'
      intro hforce
      cases e with
      | force granted =>
        rcases hs with h | ⟨-,h⟩
        · cases h.symm.trans hforce
        · exact h (.inr hforce)
      | _ => exact hforce
    | some u =>
      obtain ⟨hu,hnow⟩ := hs.step he (fun h => hnone (h ▸ List.mem_cons_self))
      rw [moments_cons he] at hm
      rcases List.mem_cons.mp hm with rfl | hm
      · exact hnow
      · exact ih hu (fun h => hnone (List.mem_cons_of_mem _ h)) m' hm

private theorem owed_run (hs : Owed s) (hrun : runEvents keyframeStep s post = some t)
    (hload : .load ∈ post) (hidle : t.take = .idle) :
    ∃ m' ∈ moments keyframeStep s post, ForcesIdr m' := by
  by_contra hnone
  push Not at hnone
  obtain ⟨before,after,rfl⟩ := List.append_of_mem hload
  rw [runEvents_append] at hrun
  obtain ⟨u,hu,hrest⟩ := Option.bind_eq_some_iff.mp hrun
  obtain ⟨v,hv,hafter⟩ := Option.bind_eq_some_iff.mp hrest
  have hmoments : ∀ es fs w, runEvents keyframeStep s es = some w → es ++ fs = before ++ .load :: after →
      (∀ m' ∈ moments keyframeStep s es, ¬ForcesIdr m') ∧
        ∀ m' ∈ moments keyframeStep w fs, ¬ForcesIdr m' := by
    intro es fs w hw hsplit
    have happend : moments keyframeStep s (es ++ fs) =
        moments keyframeStep s es ++ moments keyframeStep w fs := moments_append hw fs
    rw [hsplit] at happend
    rw [happend] at hnone
    exact ⟨fun m' hm => hnone m' (List.mem_append_left _ hm),
      fun m' hm => hnone m' (List.mem_append_right _ hm)⟩
  have howed : Owed u := runEvents_persists (fun s e t => Owed.step) hs hu (hmoments before _ u hu rfl).1
  have hanswering : Answering v := by
    cases keyframeStep_effect hv with
    | loaded frame hencode htake =>
      rcases howed with h | h | ⟨h,-⟩
      · cases htake.symm.trans h
      · cases htake.symm.trans h
      · exact .inl (congrArg TakePoint.loaded h)
  have hv' : runEvents keyframeStep s (before ++ [.load]) = some v := runEvents_concat.mpr ⟨u,hu,hv⟩
  have hlast := hmoments (before ++ [.load]) after v hv' (by simp)
  exact not_answering_of_idle hidle
    (runEvents_persists (fun s e t => Answering.step) hanswering hafter hlast.2)

/-- In every run, once the encode task has been round to the flag again: a request with none after it
has been answered by a call of `hal_h264_force_idr` exactly when it did not come between the load and
the store of a take that read false. -/
theorem keyframe_answered_iff
    (hrun : runEvents keyframeStep s (.onRequestKeyframe :: post) = some t)
    (hlast : .onRequestKeyframe ∉ post) (hload : .load ∈ post) (hidle : t.take = .idle) :
    (∃ m' ∈ moments keyframeStep s (.onRequestKeyframe :: post), ForcesIdr m') ↔
      s.take ≠ .loaded false := by
  have hstep : keyframeStep s .onRequestKeyframe = some { s with keyframeRequested := true } := rfl
  rw [runEvents_cons,hstep,Option.bind_some] at hrun
  rw [moments_cons hstep]
  constructor
  · rintro ⟨m',hm,hforce⟩ hlost
    rcases List.mem_cons.mp hm with rfl | hm
    · exact hforce
    · have hforgotten : Forgotten { s with keyframeRequested := true } := .inl hlost
      exact forgotten_run hforgotten hlast m' hm hforce
  · intro hnot
    have howed : Owed { s with keyframeRequested := true } := .inr (.inr ⟨rfl,hnot⟩)
    obtain ⟨m',hm,hforce⟩ := owed_run howed hrun hload hidle
    exact ⟨m',List.mem_cons_of_mem _ hm,hforce⟩

/-- A frame is on its way through the encode task when the request comes; the take reads it. -/
def keyframeFrame : List (KeyframeEvent 3 1) :=
  [.video (.dqbuf (some ⟨Fin.last 2,3110400,0⟩)),.video .pace,.video .queueSend,.video .receive]

theorem keyframe_answered_iff_beforeTake : ∃ s t : KeyframeVideo 3 1,
    runEvents keyframeStep (KeyframeVideo.start 3 1 1920 1080) keyframeFrame = some s ∧
    runEvents keyframeStep s [.onRequestKeyframe,.load,.clear,.force false] = some t ∧
    ((∃ m' ∈ moments keyframeStep s [.onRequestKeyframe,.load,.clear,.force false], ForcesIdr m') ↔
      s.take ≠ .loaded false) := by
  have hpre : runEvents keyframeStep (KeyframeVideo.start 3 1 1920 1080) keyframeFrame = some _ := rfl
  exact ⟨_,_,hpre,rfl,keyframe_answered_iff rfl (by simp) (by simp) rfl⟩

end Runs

section Latch

variable {s t : KeyframeVideo n m} {es : List (KeyframeEvent n m)}

theorem videoStep_noForceIdr {tasks tasks' : VideoTasks n m} {e : VideoEvent n m}
    (hother : ∀ b g, e ≠ .keyframe b g) (h : videoStep tasks e = some tasks') :
    tasks'.enc.noForceIdr = tasks.enc.noForceIdr := by
  cases videoStep_effect h with
  | keyframe frame b g => exact absurd rfl (hother b g)
  | encoded frame io =>
    have hexit := halH264Encode_exit tasks.enc frame.index frame.bytesused io
    change (halH264Encode tasks.enc frame.index frame.bytesused io).2.noForceIdr = _
    generalize halH264Encode tasks.enc frame.index frame.bytesused io = result at hexit ⊢
    cases hexit <;> rfl
  | _ => rfl

theorem latchedResults_concat (answers : List Bool) (granted : Bool) :
    latchedResults (answers ++ [granted]) = latchedResults answers ++
      [if false ∈ answers then .notSupported else if granted then .ok else .fail] := by
  induction answers with
  | nil => cases granted <;> rfl
  | cons first answers ih =>
    cases first with
    | true => simp [latchedResults,ih]
    | false => simp [latchedResults]

theorem halH264ForceIdr_result (enc : H264 n m) (granted : Bool) :
    (halH264ForceIdr enc granted).1 =
      if enc.noForceIdr then .notSupported else if granted then .ok else .fail := by
  rw [halH264ForceIdr]
  split
  · rfl
  · split <;> rfl

theorem halH264ForceIdr_latch (enc : H264 n m) (granted : Bool) :
    (halH264ForceIdr enc granted).2.noForceIdr = (enc.noForceIdr || !granted) := by
  cases hlatch : enc.noForceIdr <;> cases granted <;> simp [halH264ForceIdr,hlatch]

/-- The answers so far account for the results and for the latch. -/
structure Latched (s : KeyframeVideo n m) (answers : List Bool) : Prop where
  results : s.results = latchedResults answers
  latch : s.tasks.enc.noForceIdr = decide (false ∈ answers)

theorem Latched.step {answers : List Bool} (h : Latched s answers) {e : KeyframeEvent n m}
    (hstep : keyframeStep s e = some t) : Latched t (answers ++ (idrAnswer (s,e)).toList) := by
  cases keyframeStep_effect hstep with
  | requested => exact ⟨h.results.trans (by simp [idrAnswer]),h.latch.trans (by simp [idrAnswer])⟩
  | loaded => exact ⟨h.results.trans (by simp [idrAnswer]),h.latch.trans (by simp [idrAnswer])⟩
  | cleared => exact ⟨h.results.trans (by simp [idrAnswer]),h.latch.trans (by simp [idrAnswer])⟩
  | forced requested granted tasks htake hvideo =>
    cases videoStep_effect hvideo with
    | keyframe frame =>
      cases requested with
      | false =>
        have hnone : idrAnswer (s,.force granted) = none := by simp [idrAnswer,htake]
        rw [hnone,Option.toList_none,List.append_nil]
        exact ⟨(List.append_nil s.results).trans h.results,h.latch⟩
      | true =>
        have hsome : idrAnswer (s,.force granted) = some granted := by simp [idrAnswer,htake]
        rw [hsome,Option.toList_some]
        constructor
        · change s.results ++ [(halH264ForceIdr s.tasks.enc granted).1] = _
          rw [latchedResults_concat,halH264ForceIdr_result,h.results,h.latch]
          simp only [decide_eq_true_eq]
        · change (halH264ForceIdr s.tasks.enc granted).2.noForceIdr = _
          rw [halH264ForceIdr_latch,h.latch]
          cases granted <;> simp
  | video e tasks hother hvideo =>
    constructor
    · exact h.results.trans (by simp [idrAnswer])
    · change tasks.enc.noForceIdr = _
      rw [videoStep_noForceIdr hother hvideo,h.latch]
      simp [idrAnswer]

/-- Over every run the calls of `hal_h264_force_idr` are granted up to the first one that the driver
refuses, and turned down without asking it from then on. -/
theorem keyframe_asked_until_refused {width height : Nat}
    (hrun : runEvents keyframeStep (KeyframeVideo.start n m width height) es = some s) :
    s.results = latchedResults
      ((moments keyframeStep (KeyframeVideo.start n m width height) es).filterMap idrAnswer) := by
  suffices hlatched : Latched s
      ((moments keyframeStep (KeyframeVideo.start n m width height) es).filterMap idrAnswer) from
    hlatched.results
  induction es, s, hrun using runEvents_induction with
  | nil => exact ⟨rfl,rfl⟩
  | concat es s e t hrun hstep ih =>
    rw [moments_concat hrun,List.filterMap_append]
    have hnext := ih.step hstep
    cases hanswer : idrAnswer (s,e) <;> simpa [hanswer] using hnext

/-- One frame after another, with a request before each. -/
def requestedFrame (captured : Int) (granted : Bool) : List (KeyframeEvent 3 1) :=
  [.video (.dqbuf (some ⟨Fin.last 2,3110400,captured⟩)),.video .pace,.video .queueSend,.video .receive,
    .onRequestKeyframe,.load,.clear,.force granted,.video (.feedDetector .notItsTurn),.video .overlay,
    .video (.encode ⟨true,none,true⟩),.video .encodeRelease]

/-- Granted, refused, and not asked any more. -/
def refusedFrames : List (KeyframeEvent 3 1) :=
  requestedFrame 0 true ++ requestedFrame 90000 false ++ requestedFrame 180000 true

theorem keyframe_asked_until_refused_threeFrames : ∃ s : KeyframeVideo 3 1,
    runEvents keyframeStep (KeyframeVideo.start 3 1 1920 1080) refusedFrames = some s ∧
    s.results = [.ok,.fail,.notSupported] ∧
    s.results = latchedResults
      ((moments keyframeStep (KeyframeVideo.start 3 1 1920 1080) refusedFrames).filterMap idrAnswer) := by
  have hrun : runEvents keyframeStep (KeyframeVideo.start 3 1 1920 1080) refusedFrames = some _ := rfl
  exact ⟨_,hrun,rfl,keyframe_asked_until_refused hrun⟩

end Latch

end Esp32Ipc
