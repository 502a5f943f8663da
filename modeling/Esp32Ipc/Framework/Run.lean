import Mathlib.Data.List.Basic
import Mathlib.Tactic

/-!
# Runs of partial step functions

A component is a partial step function. An event carries every choice the environment makes,
and `none` says that the event is not enabled. A run is a list of events; its moments pair each
event with the state it was taken in, so that a property of a run can speak about what a call
returned without storing the answer in the state.
-/

namespace Esp32Ipc.Framework

variable {σ ε : Type*} {step : σ → ε → Option σ}

/-- Take the events in order, stopping with `none` at the first one that is not enabled. -/
def runEvents (step : σ → ε → Option σ) (s : σ) (es : List ε) : Option σ := es.foldlM step s

def Reachable (step : σ → ε → Option σ) (s t : σ) : Prop := ∃ es, runEvents step s es = some t

/-- Each event of a run with the state it was taken in. -/
def moments (step : σ → ε → Option σ) : σ → List ε → List (σ × ε)
  | _, [] => []
  | s, e :: es => (s,e) :: ((step s e).elim [] fun t => moments step t es)

@[simp] theorem runEvents_nil (s : σ) : runEvents step s [] = some s := rfl

@[simp] theorem runEvents_cons (s : σ) (e : ε) (es : List ε) :
    runEvents step s (e :: es) = (step s e).bind fun t => runEvents step t es := rfl

theorem runEvents_single {s t : σ} {e : ε} (h : step s e = some t) : runEvents step s [e] = some t := by
  rw [runEvents_cons,h]
  rfl

theorem runEvents_append (s : σ) (es fs : List ε) :
    runEvents step s (es ++ fs) = (runEvents step s es).bind fun t => runEvents step t fs := by
  induction es generalizing s with
  | nil => rfl
  | cons e es ih =>
    rw [List.cons_append,runEvents_cons,runEvents_cons]
    cases step s e with
    | none => rfl
    | some t => exact ih t

theorem runEvents_flatMap {κ : Type*} (inner : κ → List ε) (s : σ) (ks : List κ) :
    runEvents (fun s k => runEvents step s (inner k)) s ks = runEvents step s (ks.flatMap inner) := by
  induction ks generalizing s with
  | nil => rfl
  | cons k ks ih =>
    rw [List.flatMap_cons,runEvents_append,runEvents_cons]
    exact congrArg _ (funext ih)

theorem runEvents_concat {s u : σ} {es : List ε} {e : ε} :
    runEvents step s (es ++ [e]) = some u ↔ ∃ t, runEvents step s es = some t ∧ step t e = some u := by
  rw [runEvents_append]
  cases runEvents step s es with
  | none => simp
  | some t => cases h : step t e <;> simp [h]

@[elab_as_elim]
theorem runEvents_induction {s : σ}
    {motive : (es : List ε) → (t : σ) → runEvents step s es = some t → Prop}
    (nil : motive [] s rfl)
    (concat : ∀ es t e u (hrun : runEvents step s es = some t) (hstep : step t e = some u),
      motive es t hrun → motive (es ++ [e]) u (runEvents_concat.mpr ⟨t,hrun,hstep⟩))
    (es : List ε) (t : σ) (h : runEvents step s es = some t) : motive es t h := by
  induction es using List.reverseRecOn generalizing t with
  | nil =>
    cases Option.some.inj h
    exact nil
  | append_singleton es e ih =>
    obtain ⟨u,hu,hstep⟩ := runEvents_concat.mp h
    exact concat es u e t hu hstep (ih u hu)

/-- What holds at the start and survives every step holds in every state reached. -/
theorem runEvents_invariant {I : σ → Prop} (hstep : ∀ s e t, I s → step s e = some t → I t)
    {s t : σ} {es : List ε} (hs : I s) (h : runEvents step s es = some t) : I t := by
  induction es, t, h using runEvents_induction with
  | nil => exact hs
  | concat es t e u _ he ih => exact hstep t e u ih he

theorem Reachable.invariant {I : σ → Prop} (hstep : ∀ s e t, I s → step s e = some t → I t)
    {s t : σ} (hs : I s) (h : Reachable step s t) : I t := by
  obtain ⟨es,hes⟩ := h
  exact runEvents_invariant hstep hs hes

@[simp] theorem moments_nil (s : σ) : moments step s [] = [] := rfl

theorem moments_cons {s t : σ} {e : ε} (h : step s e = some t) (es : List ε) :
    moments step s (e :: es) = (s,e) :: moments step t es := by
  simp [moments,h]

theorem moments_concat {s t : σ} {es : List ε} (h : runEvents step s es = some t) (e : ε) :
    moments step s (es ++ [e]) = moments step s es ++ [(t,e)] := by
  induction es generalizing s with
  | nil =>
    obtain rfl : s = t := Option.some.inj h
    cases he : step s e <;> simp [moments,he]
  | cons f es ih =>
    cases hf : step s f with
    | none => simp [hf] at h
    | some u =>
      have hrun : runEvents step u es = some t := by simpa [hf] using h
      rw [List.cons_append,moments_cons hf,moments_cons hf,ih hrun,List.cons_append]

theorem moments_map_snd {s t : σ} {es : List ε} (h : runEvents step s es = some t) :
    (moments step s es).map Prod.snd = es := by
  induction es generalizing s with
  | nil => rfl
  | cons e es ih =>
    obtain ⟨u,hu,hrest⟩ := Option.bind_eq_some_iff.mp h
    rw [moments_cons hu,List.map_cons,ih hrest]

theorem moments_append {s t : σ} {es : List ε} (h : runEvents step s es = some t) (fs : List ε) :
    moments step s (es ++ fs) = moments step s es ++ moments step t fs := by
  induction es generalizing s with
  | nil => exact Option.some.inj h ▸ rfl
  | cons e es ih =>
    obtain ⟨u,hu,hrest⟩ := Option.bind_eq_some_iff.mp h
    rw [List.cons_append,moments_cons hu,moments_cons hu,ih hrest,List.cons_append]

theorem moments_split {s : σ} {es : List ε} {ms ms' : List (σ × ε)} {m : σ × ε}
    (h : moments step s es = ms ++ m :: ms') :
    ∃ pre post, es = pre ++ m.2 :: post ∧ runEvents step s pre = some m.1 ∧
      ms = moments step s pre ∧ m :: ms' = moments step m.1 (m.2 :: post) := by
  induction ms generalizing s es with
  | nil =>
    cases es with
    | nil => simp at h
    | cons e es =>
      have hm : (s,e) = m := by simpa [moments] using (List.cons.inj h).1
      subst m
      exact ⟨[],es,rfl,rfl,rfl,h.symm⟩
  | cons a ms ih =>
    cases es with
    | nil => simp at h
    | cons e es =>
      cases he : step s e with
      | none => simp [moments,he] at h
      | some t =>
        rw [moments_cons he] at h
        obtain ⟨rfl,htail⟩ := List.cons.inj h
        obtain ⟨pre,post,rfl,hrun,rfl,hrest⟩ := ih htail
        refine ⟨e :: pre,post,rfl,?_,(moments_cons he pre).symm,hrest⟩
        simpa [he] using hrun

theorem mem_moments_reachable {s : σ} {es : List ε} {m : σ × ε} (h : m ∈ moments step s es) :
    Reachable step s m.1 := by
  obtain ⟨ms,ms',hsplit⟩ := List.append_of_mem h
  obtain ⟨pre,_,_,hrun,_⟩ := moments_split hsplit
  exact ⟨pre,hrun⟩

/-- What only certain moments end lasts through a run that has none of them. -/
theorem runEvents_persists {P : σ → Prop} {ends : σ × ε → Prop}
    (hkeep : ∀ s e t, P s → step s e = some t → ¬ends (s,e) → P t)
    {s t : σ} {es : List ε} (hs : P s) (h : runEvents step s es = some t)
    (hnone : ∀ m ∈ moments step s es, ¬ends m) : P t := by
  induction es generalizing s with
  | nil => exact Option.some.inj h ▸ hs
  | cons e es ih =>
    obtain ⟨u,hu,hrest⟩ := Option.bind_eq_some_iff.mp h
    rw [moments_cons hu] at hnone
    apply ih (hkeep s e u hs hu (hnone _ List.mem_cons_self)) hrest
    intro m hm
    exact hnone m (List.mem_cons_of_mem _ hm)

/-- When each step is matched by a stretch of another machine's run, so is a run. -/
theorem runEvents_simulates {τ δ : Type*} {step' : τ → δ → Option τ} {R : σ → τ → Prop}
    {image : σ × ε → List δ}
    (hstep : ∀ s e t a, R s a → step s e = some t → ∃ b, runEvents step' a (image (s,e)) = some b ∧ R t b)
    {s t : σ} {es : List ε} {a : τ} (hs : R s a) (h : runEvents step s es = some t) :
    ∃ b, runEvents step' a ((moments step s es).flatMap image) = some b ∧ R t b := by
  induction es, t, h using runEvents_induction with
  | nil => exact ⟨a,rfl,hs⟩
  | concat es t e u hrun he ih =>
    obtain ⟨b,hb,ht⟩ := ih
    obtain ⟨c,hc,hu⟩ := hstep t e u b ht he
    refine ⟨c,?_,hu⟩
    rw [moments_concat hrun,List.flatMap_append,runEvents_append,hb,List.flatMap_singleton]
    exact hc

theorem runEvents_sublist {α : Type*} (history : σ → List α) (given : ε → Option α)
    (hstep : ∀ s e t, step s e = some t → (history t).Sublist (history s ++ (given e).toList))
    {s t : σ} {es : List ε} (h : runEvents step s es = some t) :
    (history t).Sublist (history s ++ es.filterMap given) := by
  induction es, t, h using runEvents_induction with
  | nil =>
    rw [List.filterMap_nil,List.append_nil]
  | concat es t e u hrun he ih =>
    have hlast : [e].filterMap given = (given e).toList := by cases hgiven : given e <;> simp [hgiven]
    rw [List.filterMap_append,hlast,← List.append_assoc]
    exact (hstep t e u he).trans (ih.append_right _)

/-- `P` holds in every state the run passes through. -/
def Along (step : σ → ε → Option σ) (P : σ → Prop) (s : σ) (es : List ε) : Prop :=
  ∀ pre t, pre <+: es → runEvents step s pre = some t → P t

private theorem along_nil {P : σ → Prop} {s : σ} : Along step P s [] ↔ P s := by
  constructor
  · intro h
    exact h [] s List.prefix_rfl rfl
  · intro h pre t hpre ht
    rw [List.prefix_nil.mp hpre] at ht
    exact Option.some.inj ht ▸ h

private theorem along_concat {P : σ → Prop} {s u : σ} {es : List ε} {e : ε}
    (h : runEvents step s (es ++ [e]) = some u) :
    Along step P s (es ++ [e]) ↔ Along step P s es ∧ P u := by
  constructor
  · intro hall
    exact ⟨fun pre t hpre ht => hall pre t (hpre.trans (List.prefix_append _ _)) ht,
      hall _ u List.prefix_rfl h⟩
  · intro hall pre t hpre ht
    rcases List.prefix_concat_iff.mp hpre with rfl | hpre
    · exact Option.some.inj (ht.symm.trans h) ▸ hall.2
    · exact hall.1 pre t hpre ht

/-- While every event so far was good the state is sound, and the first bad event leads to a state
without `P`: then `P` holds along the run exactly when all its events are good. -/
theorem along_iff_moments (sound : σ → Prop) {I P : σ → Prop} {good : σ × ε → Prop}
    (hI : ∀ s e t, I s → step s e = some t → I t) (hsound : ∀ s, I s → sound s → P s)
    (hgood : ∀ s e t, I s → sound s → step s e = some t → good (s,e) → sound t)
    (hbad : ∀ s e t, I s → sound s → step s e = some t → ¬good (s,e) → ¬P t)
    {s t : σ} {es : List ε} (hs : I s) (hstart : sound s) (h : runEvents step s es = some t) :
    Along step P s es ↔ ∀ m ∈ moments step s es, good m := by
  suffices hboth : (Along step P s es ↔ ∀ m ∈ moments step s es, good m) ∧
      ((∀ m ∈ moments step s es, good m) → sound t) from hboth.1
  induction es, t, h using runEvents_induction with
  | nil => exact ⟨iff_of_true (along_nil.mpr (hsound s hs hstart)) (by simp),fun _ => hstart⟩
  | concat es u e v hrun he ih =>
    have hu : I u := runEvents_invariant hI hs hrun
    rw [moments_concat hrun e,along_concat (runEvents_concat.mpr ⟨u,hrun,he⟩),ih.1]
    simp only [List.mem_append,List.mem_singleton,or_imp,forall_and,forall_eq]
    refine ⟨and_congr_right fun hall => ⟨?_,?_⟩,fun hall => hgood u e v hu (ih.2 hall.1) he hall.2⟩
    · intro hv
      by_contra hnot
      exact hbad u e v hu (ih.2 hall) he hnot hv
    · intro hlast
      exact hsound v (hI u e v hu he) (hgood u e v hu (ih.2 hall) he hlast)

private theorem held_until {I held : σ → Prop} {puts : σ × ε → Prop}
    (hI : ∀ s e t, I s → step s e = some t → I t)
    (hkeep : ∀ s e t, I s → step s e = some t → held s → ¬puts (s,e) → held t)
    {s : σ} {es : List ε} {ms ms' : List (σ × ε)} {m : σ × ε} (hs : I s) (hheld : held s)
    (h : moments step s es = ms ++ m :: ms') (hput : ∀ m ∈ ms, ¬puts m) : I m.1 ∧ held m.1 := by
  induction ms generalizing s es with
  | nil =>
    obtain ⟨pre,post,_,hrun,hpre,_⟩ := moments_split h
    cases pre with
    | nil =>
      cases Option.some.inj hrun
      exact ⟨hs,hheld⟩
    | cons e pre => simp [moments] at hpre
  | cons a ms ih =>
    cases es with
    | nil => simp at h
    | cons e es =>
      cases he : step s e with
      | none => simp [moments,he] at h
      | some t =>
        rw [moments_cons he] at h
        obtain ⟨rfl,htail⟩ := List.cons.inj h
        exact ih (hI s e t hs he) (hkeep s e t hs he hheld (hput _ (by simp))) htail
          fun m hm => hput m (List.mem_cons_of_mem _ hm)

/-- Something that can be taken only while it is free, and freed only by being put back, is put
back between any two takings. -/
theorem put_between_takes {I held : σ → Prop} {takes puts : σ × ε → Prop}
    (hI : ∀ s e t, I s → step s e = some t → I t)
    (htake : ∀ s e, I s → takes (s,e) → ¬held s ∧ ∀ t, step s e = some t → held t)
    (hkeep : ∀ s e t, I s → step s e = some t → held s → ¬puts (s,e) → held t)
    {s : σ} {es : List ε} {before between after : List (σ × ε)} {a b : σ × ε} (hs : I s)
    (h : moments step s es = before ++ a :: between ++ b :: after)
    (ha : takes a) (hb : takes b) : ∃ m ∈ between, puts m := by
  by_contra hnone
  push Not at hnone
  have hsplit : moments step s es = before ++ a :: (between ++ b :: after) := by
    rw [h,List.append_assoc,List.cons_append]
  obtain ⟨pre,post,_,hrun,_,hrest⟩ := moments_split hsplit
  have hIa : I a.1 := runEvents_invariant hI hs hrun
  cases he : step a.1 a.2 with
  | none => simp [moments,he] at hrest
  | some t =>
    rw [moments_cons he] at hrest
    have hafter : moments step t post = between ++ b :: after := (List.cons.inj hrest).2.symm
    have hheld : held t := (htake a.1 a.2 hIa ha).2 t he
    obtain ⟨hIb,hheldb⟩ := held_until hI hkeep (hI _ _ _ hIa he) hheld hafter hnone
    exact (htake b.1 b.2 hIb hb).1 hheldb

theorem moments_between {s t : σ} {es : List ε} {before between after : List (σ × ε)} {a b : σ × ε}
    (hrun : runEvents step s es = some t)
    (h : moments step s es = before ++ a :: between ++ b :: after) :
    ∃ pre u mid v, runEvents step s pre = some a.1 ∧ step a.1 a.2 = some u ∧
      runEvents step u mid = some b.1 ∧ between = moments step u mid ∧ step b.1 b.2 = some v := by
  have hsplit : moments step s es = before ++ a :: (between ++ b :: after) := by
    rw [h,List.append_assoc,List.cons_append]
  obtain ⟨pre,post,rfl,hpre,_,hrest⟩ := moments_split hsplit
  rw [runEvents_append,hpre,Option.bind_some,runEvents_cons] at hrun
  obtain ⟨u,hu,hpost⟩ := Option.bind_eq_some_iff.mp hrun
  rw [moments_cons hu] at hrest
  obtain ⟨mid,last,rfl,hmid,hbetween,_⟩ := moments_split (List.cons.inj hrest).2.symm
  rw [runEvents_append,hmid,Option.bind_some,runEvents_cons] at hpost
  obtain ⟨v,hv,_⟩ := Option.bind_eq_some_iff.mp hpost
  exact ⟨pre,u,mid,v,hpre,hu,hmid,hbetween,hv⟩

section Alternation

variable {I held : σ → Prop} {takes puts : σ × ε → Prop} [DecidablePred puts]

private theorem no_put_until_take (hI : ∀ s e t, I s → step s e = some t → I t)
    (hput : ∀ s e t, I s → step s e = some t → puts (s,e) → held s ∧ ¬held t)
    (hother : ∀ s e t, I s → step s e = some t → ¬takes (s,e) → ¬puts (s,e) → (held t ↔ held s))
    {s t : σ} {es : List ε} (hs : I s) (hfree : ¬held s) (hrun : runEvents step s es = some t)
    (hnone : ∀ m ∈ moments step s es, ¬takes m) : (moments step s es).countP puts = 0 := by
  induction es generalizing s with
  | nil => rfl
  | cons e es ih =>
    obtain ⟨u,hu,hrest⟩ := Option.bind_eq_some_iff.mp hrun
    rw [moments_cons hu] at hnone ⊢
    have hputs : ¬puts (s,e) := fun hp => hfree (hput s e u hs hu hp).1
    have hfree' : ¬held u := by
      rw [hother s e u hs hu (hnone _ List.mem_cons_self) hputs]
      exact hfree
    rw [List.countP_cons_of_neg (by simpa using hputs)]
    exact ih (hI s e u hs hu) hfree' hrest fun m hm => hnone m (List.mem_cons_of_mem _ hm)

private theorem one_put_until_free (hI : ∀ s e t, I s → step s e = some t → I t)
    (hput : ∀ s e t, I s → step s e = some t → puts (s,e) → held s ∧ ¬held t)
    (hother : ∀ s e t, I s → step s e = some t → ¬takes (s,e) → ¬puts (s,e) → (held t ↔ held s))
    {s t : σ} {es : List ε} (hs : I s) (hheld : held s) (hrun : runEvents step s es = some t)
    (hnone : ∀ m ∈ moments step s es, ¬takes m) (hfree : ¬held t) :
    (moments step s es).countP puts = 1 := by
  induction es generalizing s with
  | nil =>
    cases Option.some.inj hrun
    exact absurd hheld hfree
  | cons e es ih =>
    obtain ⟨u,hu,hrest⟩ := Option.bind_eq_some_iff.mp hrun
    rw [moments_cons hu] at hnone ⊢
    have hnone' : ∀ m ∈ moments step u es, ¬takes m := fun m hm => hnone m (List.mem_cons_of_mem _ hm)
    by_cases hputs : puts (s,e)
    · rw [List.countP_cons_of_pos (by simpa using hputs),
        no_put_until_take hI hput hother (hI s e u hs hu) (hput s e u hs hu hputs).2 hrest hnone']
    · have hheld' : held u := (hother s e u hs hu (hnone _ List.mem_cons_self) hputs).mpr hheld
      rw [List.countP_cons_of_neg (by simpa using hputs)]
      exact ih (hI s e u hs hu) hheld' hrest hnone'

/-- Something that only taking and putting back move is put back exactly once between two
consecutive takings. -/
theorem put_once_between_takes (held : σ → Prop) (hI : ∀ s e t, I s → step s e = some t → I t)
    (htake : ∀ s e t, I s → step s e = some t → takes (s,e) → ¬held s ∧ held t)
    (hput : ∀ s e t, I s → step s e = some t → puts (s,e) → held s ∧ ¬held t)
    (hother : ∀ s e t, I s → step s e = some t → ¬takes (s,e) → ¬puts (s,e) → (held t ↔ held s))
    {s t : σ} {es : List ε} {before between after : List (σ × ε)} {a b : σ × ε} (hs : I s)
    (hrun : runEvents step s es = some t)
    (h : moments step s es = before ++ a :: between ++ b :: after) (ha : takes a) (hb : takes b)
    (hnone : ∀ m ∈ between, ¬takes m) : between.countP puts = 1 := by
  obtain ⟨pre,u,mid,v,hpre,hu,hmid,rfl,hv⟩ := moments_between hrun h
  have hIa : I a.1 := runEvents_invariant hI hs hpre
  have hIu : I u := hI _ _ _ hIa hu
  have hIb : I b.1 := runEvents_invariant hI hIu hmid
  exact one_put_until_free hI hput hother hIu (htake _ _ _ hIa hu ha).2 hmid hnone
    (htake _ _ _ hIb hv hb).1

end Alternation

end Esp32Ipc.Framework
