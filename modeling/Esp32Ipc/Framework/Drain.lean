import Esp32Ipc.Framework.Run

/-!
# Queues emptied in a fixed order

Producers append to their queues at any time. A server makes passes over the queues: it serves the
first one until it finds it empty, then the next, and each item it takes goes out at once.
-/

namespace Esp32Ipc.Framework

structure Drain (ι α : Type*) where
  queue : ι → List α
  out : List (ι × α)
  /-- The queues that the pass has not found empty yet, the one being served first. -/
  todo : List ι

inductive DrainEvent (ι α : Type*) where
  | accept (i : ι) (x : α)
  | enter
  | serve

variable {ι α : Type*} [DecidableEq ι]

def drainStep (order : List ι) (s : Drain ι α) : DrainEvent ι α → Option (Drain ι α)
  | .accept i x => some { s with queue := Function.update s.queue i (s.queue i ++ [x]) }
  | .enter =>
    match s.todo with
    | [] => some { s with todo := order }
    | _ :: _ => none
  | .serve =>
    match s.todo with
    | [] => none
    | i :: todo =>
      match s.queue i with
      | [] => some { s with todo := todo }
      | x :: l => some { s with queue := Function.update s.queue i l, out := s.out ++ [(i,x)] }

/-- The items of queue `i` that have gone out. -/
def Drain.outOf (s : Drain ι α) (i : ι) : List α :=
  s.out.filterMap fun p => if p.1 = i then some p.2 else none

def acceptedOf (i : ι) (es : List (DrainEvent ι α)) : List α :=
  es.filterMap fun
    | .accept j x => if j = i then some x else none
    | _ => none

theorem acceptedOf_append (i : ι) (es fs : List (DrainEvent ι α)) :
    acceptedOf i (es ++ fs) = acceptedOf i es ++ acceptedOf i fs := List.filterMap_append

def DrainEvent.isServe : DrainEvent ι α → Bool
  | .serve => true
  | _ => false

def DrainEvent.isEnter : DrainEvent ι α → Bool
  | .enter => true
  | _ => false

section Step

variable {order : List ι} {s t : Drain ι α} {e : DrainEvent ι α} {i : ι}

inductive DrainEffect (order : List ι) (s : Drain ι α) : DrainEvent ι α → Drain ι α → Prop where
  | accept (i : ι) (x : α) :
      DrainEffect order s (.accept i x) { s with queue := Function.update s.queue i (s.queue i ++ [x]) }
  | enter (hidle : s.todo = []) : DrainEffect order s .enter { s with todo := order }
  | empty (i : ι) (todo : List ι) (htodo : s.todo = i :: todo) (hempty : s.queue i = []) :
      DrainEffect order s .serve { s with todo := todo }
  | serve (i : ι) (todo : List ι) (x : α) (l : List α) (htodo : s.todo = i :: todo)
      (hqueue : s.queue i = x :: l) :
      DrainEffect order s .serve
        { s with queue := Function.update s.queue i l, out := s.out ++ [(i,x)] }

theorem drainStep_effect (h : drainStep order s e = some t) : DrainEffect order s e t := by
  cases e with
  | accept i x => exact Option.some.inj h ▸ .accept i x
  | enter =>
    cases htodo : s.todo with
    | nil =>
      simp only [drainStep,htodo] at h
      exact Option.some.inj h ▸ .enter htodo
    | cons j todo => simp [drainStep,htodo] at h
  | serve =>
    cases htodo : s.todo with
    | nil => simp [drainStep,htodo] at h
    | cons j todo =>
      cases hqueue : s.queue j with
      | nil =>
        simp only [drainStep,htodo,hqueue] at h
        exact Option.some.inj h ▸ .empty j todo htodo hqueue
      | cons x l =>
        have heffect : DrainEffect order s .serve _ := .serve j todo x l htodo hqueue
        simp only [drainStep,htodo,hqueue] at h
        rwa [htodo,Option.some.inj h] at heffect

theorem outOf_append (s : Drain ι α) (p : ι × α) (queue : ι → List α) :
    ({ s with queue := queue, out := s.out ++ [p] } : Drain ι α).outOf i =
      s.outOf i ++ if p.1 = i then [p.2] else [] := by
  rw [Drain.outOf,List.filterMap_append]
  apply congrArg
  by_cases hp : p.1 = i <;> simp [hp]

theorem drainStep_conserves (h : drainStep order s e = some t) (i : ι) :
    t.outOf i ++ t.queue i = s.outOf i ++ s.queue i ++ acceptedOf i [e] := by
  cases drainStep_effect h with
  | accept j x =>
    by_cases hj : j = i
    · subst hj
      simp [acceptedOf,Drain.outOf]
    · simp [acceptedOf,Drain.outOf,hj,Function.update_of_ne (Ne.symm hj)]
  | enter hidle => simp [acceptedOf,Drain.outOf]
  | empty j todo htodo hempty => simp [acceptedOf,Drain.outOf]
  | serve j todo x l htodo hqueue =>
    rw [outOf_append]
    by_cases hj : j = i
    · subst hj
      simp [acceptedOf,hqueue]
    · simp [acceptedOf,hj,Function.update_of_ne (Ne.symm hj)]

theorem drainStep_grows (h : drainStep order s e = some t) (i : ι) : s.outOf i <+: t.outOf i := by
  cases drainStep_effect h with
  | accept j x => exact List.prefix_rfl
  | enter hidle => exact List.prefix_rfl
  | empty j todo htodo hempty => exact List.prefix_rfl
  | serve j todo x l htodo hqueue =>
    rw [outOf_append]
    exact List.prefix_append _ _

theorem drainStep_leaves (h : drainStep order s e = some t) (hin : i ∈ s.todo) (hleft : i ∉ t.todo) :
    s.queue i = [] := by
  cases drainStep_effect h with
  | accept j x => exact absurd hin hleft
  | enter hidle =>
    rw [hidle] at hin
    exact absurd hin List.not_mem_nil
  | empty j todo htodo hempty =>
    rw [htodo] at hin
    rcases List.mem_cons.mp hin with rfl | hin
    · exact hempty
    · exact absurd hin hleft
  | serve j todo x l htodo hqueue => exact absurd hin hleft

theorem drainStep_counts (h : drainStep order s e = some t) (hinside : e.isEnter = false) :
    [e].countP DrainEvent.isServe + s.out.length + t.todo.length = t.out.length + s.todo.length := by
  cases drainStep_effect h with
  | accept j x => exact congrArg (· + s.todo.length) (Nat.zero_add _)
  | enter hidle => cases hinside
  | empty j todo htodo hempty =>
    simp only [htodo,List.countP_singleton,DrainEvent.isServe,List.length_cons,if_true]
    omega
  | serve j todo x l htodo hqueue =>
    simp only [List.countP_singleton,DrainEvent.isServe,List.length_append,List.length_singleton,if_true]
    omega

end Step

section Runs

variable {order : List ι} {s t : Drain ι α} {es : List (DrainEvent ι α)} {i : ι}

/-- Whatever the passes and the producers do, what has gone out and what waits is what was taken in,
in order. -/
theorem drain_conserves (h : runEvents (drainStep order) s es = some t) (i : ι) :
    t.outOf i ++ t.queue i = s.outOf i ++ s.queue i ++ acceptedOf i es := by
  induction es, t, h using runEvents_induction with
  | nil => exact (List.append_nil _).symm
  | concat es t e u hrun hstep ih =>
    rw [drainStep_conserves hstep,ih,acceptedOf_append,List.append_assoc _ (acceptedOf i es)]

/-- Once a queue is off the pass, all that it held when the pass had it before it has gone out. -/
theorem drain_flushes (h : runEvents (drainStep order) s es = some t) (hin : i ∈ s.todo)
    (hleft : i ∉ t.todo) : s.outOf i ++ s.queue i <+: t.outOf i := by
  suffices hrun : i ∈ t.todo ∨ s.outOf i ++ s.queue i <+: t.outOf i from hrun.resolve_left hleft
  clear hleft
  induction es, t, h using runEvents_induction with
  | nil => exact .inl hin
  | concat es t e u hrun hstep ih =>
    rcases ih with hin | hout
    · by_cases hleft : i ∈ u.todo
      · exact .inl hleft
      · have hqueue := drainStep_leaves hstep hin hleft
        have hconserved := drain_conserves hrun i
        rw [hqueue,List.append_nil] at hconserved
        have hsent : s.outOf i ++ s.queue i <+: t.outOf i := hconserved ▸ List.prefix_append _ _
        exact .inr (hsent.trans (drainStep_grows hstep i))
    · exact .inr (hout.trans (drainStep_grows hstep i))

/-- Within a pass the server has served once for each item it took and each queue it went past. -/
theorem drain_counts (h : runEvents (drainStep order) s es = some t)
    (hinside : ∀ e ∈ es, e.isEnter = false) :
    es.countP DrainEvent.isServe + s.out.length + t.todo.length = t.out.length + s.todo.length := by
  induction es, t, h using runEvents_induction with
  | nil => simp
  | concat es t e u hrun hstep ih =>
    have hbefore := ih fun f hf => hinside f (List.mem_append_left _ hf)
    have hlast := drainStep_counts hstep (hinside e (by simp))
    rw [List.countP_append]
    omega

end Runs

end Esp32Ipc.Framework
