import Esp32Ipc.Core.FramePoolTasks

/-!
# From the encode task to the detector

`feed_detector` and `detect_task` share the feed pool. Each buffer remembers which captured frame
was scaled into it, and the lists of submitted and received elements and of stored results are
kept as history. Both lists of the pool are stacks, so the order survives exactly as long as the
detector never finds two frames waiting.
-/

namespace Esp32Ipc

open Framework

variable {n : Nat}

def detFeedEveryN : Nat := 3

/-- The tasks on the feed pool: `video_encode_task` and `detect_task`. -/
inductive FeedTask where
  | encode
  | detect
  deriving DecidableEq, Repr

/-- `feed_detector` between two of its steps. -/
inductive FeedPoint (n : Nat) where
  | idle
  | acquired (e : Fin n) (frame : Nat)
  | filled (e : Fin n) (frame : Nat)
  deriving DecidableEq

/-- `detect_task` between two of its steps. -/
inductive DetectPoint (n : Nat) where
  | receiving
  | running (e : Fin n)
  | stored (e : Fin n)
  deriving DecidableEq

structure DetectorFeed (n : Nat) where
  sys : PoolSystem FeedTask n
  frameNo : Nat
  feed : FeedPoint n
  detect : DetectPoint n
  buffer : Fin n → Nat
  submitted : List (Fin n × Nat)
  received : List (Fin n × Nat)
  stored : List Nat

namespace DetectorFeed

def start (pool : FramePool n) : DetectorFeed n where
  sys := PoolSystem.start pool
  frameNo := 0
  feed := .idle
  detect := .receiving
  buffer := fun _ => 0
  submitted := []
  received := []
  stored := []

end DetectorFeed

/-- The steps of the two tasks. `ppa` carries the outcome of the conversion. -/
inductive FeedEvent where
  | frame
  | ppa (ok : Bool)
  | submitPush
  | submitGive
  | recvTake
  | recvPop
  | store
  | release
  deriving DecidableEq, Repr

/-- `feed_detector` on the encode task and the loop of `detect_task`, one pool step at a time. The
wait of the detector has no timeout. -/
def detectorFeedStep (s : DetectorFeed n) : FeedEvent → Option (DetectorFeed n)
  | .frame =>
    if s.feed = .idle ∧ s.sys.task .encode = .idle then
      -- `frame_no` is a `uint32_t`
      if s.frameNo % 2 ^ 32 % detFeedEveryN ≠ 0 then some { s with frameNo := s.frameNo + 1 }
      else
        (poolSystemStep s.sys (.acquire .encode)).map fun sys =>
          { s with
            sys := sys
            frameNo := s.frameNo + 1
            feed := (listPop s.sys.pool .free).1.elim .idle fun e => .acquired e s.frameNo }
    else none
  | .ppa ok =>
    match s.feed with
    | .acquired e frame =>
      if ok then some { s with feed := .filled e frame, buffer := Function.update s.buffer e frame }
      else
        (poolSystemStep s.sys (.release .encode (s.sys.pool.element e).index)).map fun sys =>
          { s with sys := sys, feed := .idle }
    | _ => none
  | .submitPush =>
    match s.feed with
    | .filled e _ =>
      (poolSystemStep s.sys (.submitPush .encode e)).map fun sys =>
        { s with
          sys := sys
          feed := .idle
          submitted := if sys.task .encode = .giving then s.submitted ++ [(e,s.buffer e)]
            else s.submitted }
    | _ => none
  | .submitGive => (poolSystemStep s.sys (.submitGive .encode)).map fun sys => { s with sys := sys }
  | .recvTake =>
    if s.detect = .receiving then
      (poolSystemStep s.sys (.recvTake .detect)).map fun sys => { s with sys := sys }
    else none
  | .recvPop =>
    (poolSystemStep s.sys (.recvPop .detect)).map fun sys =>
      match (listPop s.sys.pool .ready).1 with
      | none => { s with sys := sys }
      | some e =>
        { s with
          sys := sys
          detect := .running e
          received := s.received ++ [(e,s.buffer e)] }
  | .store =>
    match s.detect with
    | .running e => some { s with detect := .stored e, stored := s.stored ++ [s.buffer e] }
    | _ => none
  | .release =>
    match s.detect with
    | .stored e =>
      (poolSystemStep s.sys (.release .detect (s.sys.pool.element e).index)).map fun sys =>
        { s with sys := sys, detect := .receiving }
    | _ => none

/-- What a step that was taken found, and what it left. -/
inductive FeedStep (s : DetectorFeed n) : FeedEvent → DetectorFeed n → Prop where
  | skip (idle : s.feed = .idle) (skipped : s.frameNo % 2 ^ 32 % detFeedEveryN ≠ 0) :
      FeedStep s .frame { s with frameNo := s.frameNo + 1 }
  | acquire (sys : PoolSystem FeedTask n) (idle : s.feed = .idle)
      (due : s.frameNo % 2 ^ 32 % detFeedEveryN = 0)
      (acquired : PoolStep s.sys (.acquire .encode) sys) :
      FeedStep s .frame
        { s with
          sys := sys
          frameNo := s.frameNo + 1
          feed := (listPop s.sys.pool .free).1.elim .idle fun e => .acquired e s.frameNo }
  | fill (e : Fin n) (frame : Nat) (holds : s.feed = .acquired e frame) :
      FeedStep s (.ppa true)
        { s with feed := .filled e frame, buffer := Function.update s.buffer e frame }
  | giveBack (e : Fin n) (frame : Nat) (sys : PoolSystem FeedTask n)
      (holds : s.feed = .acquired e frame)
      (released : PoolStep s.sys (.release .encode (s.sys.pool.element e).index) sys) :
      FeedStep s (.ppa false) { s with sys := sys, feed := .idle }
  | submitPush (e : Fin n) (frame : Nat) (sys : PoolSystem FeedTask n)
      (holds : s.feed = .filled e frame) (pushed : PoolStep s.sys (.submitPush .encode e) sys) :
      FeedStep s .submitPush
        { s with
          sys := sys
          feed := .idle
          submitted := if sys.task .encode = .giving then s.submitted ++ [(e,s.buffer e)]
            else s.submitted }
  | submitGive (sys : PoolSystem FeedTask n) (given : PoolStep s.sys (.submitGive .encode) sys) :
      FeedStep s .submitGive { s with sys := sys }
  | recvTake (sys : PoolSystem FeedTask n) (receiving : s.detect = .receiving)
      (took : PoolStep s.sys (.recvTake .detect) sys) : FeedStep s .recvTake { s with sys := sys }
  | recvEmpty (sys : PoolSystem FeedTask n) (popped : PoolStep s.sys (.recvPop .detect) sys)
      (empty : (listPop s.sys.pool .ready).1 = none) : FeedStep s .recvPop { s with sys := sys }
  | recvPop (e : Fin n) (sys : PoolSystem FeedTask n)
      (popped : PoolStep s.sys (.recvPop .detect) sys)
      (first : (listPop s.sys.pool .ready).1 = some e) :
      FeedStep s .recvPop
        { s with
          sys := sys
          detect := .running e
          received := s.received ++ [(e,s.buffer e)] }
  | store (e : Fin n) (holds : s.detect = .running e) :
      FeedStep s .store { s with detect := .stored e, stored := s.stored ++ [s.buffer e] }
  | release (e : Fin n) (sys : PoolSystem FeedTask n) (holds : s.detect = .stored e)
      (released : PoolStep s.sys (.release .detect (s.sys.pool.element e).index) sys) :
      FeedStep s .release { s with sys := sys, detect := .receiving }

theorem feedStep_of {s s' : DetectorFeed n} {event : FeedEvent}
    (hstep : detectorFeedStep s event = some s') : FeedStep s event s' := by
  cases event with
  | frame =>
    simp only [detectorFeedStep,Option.ite_none_right_eq_some] at hstep
    obtain ⟨⟨hidle,_⟩,hstep⟩ := hstep
    split at hstep
    · next hskip =>
      obtain rfl := Option.some.inj hstep
      exact .skip hidle hskip
    · next hdue =>
      obtain ⟨sys,hsys,rfl⟩ := Option.map_eq_some_iff.mp hstep
      exact .acquire sys hidle (not_not.mp hdue) (poolStep_of hsys)
  | ppa ok =>
    unfold detectorFeedStep at hstep
    cases hfeed : s.feed with
    | idle => simp [hfeed] at hstep
    | filled e frame => simp [hfeed] at hstep
    | acquired e frame =>
      cases ok with
      | true =>
        simp only [hfeed,if_true,Option.some.injEq] at hstep
        subst s'
        exact .fill e frame hfeed
      | false =>
        simp only [hfeed,Bool.false_eq_true,if_false,Option.map_eq_some_iff] at hstep
        obtain ⟨sys,hsys,rfl⟩ := hstep
        exact .giveBack e frame sys hfeed (poolStep_of hsys)
  | submitPush =>
    unfold detectorFeedStep at hstep
    cases hfeed : s.feed with
    | idle => simp [hfeed] at hstep
    | acquired e frame => simp [hfeed] at hstep
    | filled e frame =>
      simp only [hfeed,Option.map_eq_some_iff] at hstep
      obtain ⟨sys,hsys,rfl⟩ := hstep
      exact .submitPush e frame sys hfeed (poolStep_of hsys)
  | submitGive =>
    obtain ⟨sys,hsys,rfl⟩ := Option.map_eq_some_iff.mp hstep
    exact .submitGive sys (poolStep_of hsys)
  | recvTake =>
    simp only [detectorFeedStep,Option.ite_none_right_eq_some,Option.map_eq_some_iff] at hstep
    obtain ⟨hreceiving,sys,hsys,rfl⟩ := hstep
    exact .recvTake sys hreceiving (poolStep_of hsys)
  | recvPop =>
    obtain ⟨sys,hsys,rfl⟩ := Option.map_eq_some_iff.mp hstep
    cases hpop : (listPop s.sys.pool .ready).1 with
    | none => exact .recvEmpty sys (poolStep_of hsys) hpop
    | some e => exact .recvPop e sys (poolStep_of hsys) hpop
  | store =>
    unfold detectorFeedStep at hstep
    cases hd : s.detect with
    | receiving => simp [hd] at hstep
    | stored e => simp [hd] at hstep
    | running e =>
      simp only [hd,Option.some.injEq] at hstep
      subst s'
      exact .store e hd
  | release =>
    unfold detectorFeedStep at hstep
    cases hd : s.detect with
    | receiving => simp [hd] at hstep
    | running e => simp [hd] at hstep
    | stored e =>
      simp only [hd,Option.map_eq_some_iff] at hstep
      obtain ⟨sys,hsys,rfl⟩ := hstep
      exact .release e sys hd (poolStep_of hsys)

end Esp32Ipc
