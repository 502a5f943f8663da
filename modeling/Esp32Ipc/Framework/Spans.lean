import Mathlib.Data.List.TakeWhile
import Mathlib.Tactic

/-!
# Sets of integers as separated spans

A list of closed spans that are in order and leave at least one integer free between neighbours is
determined by the set it covers. Inserting a span absorbs those it touches and keeps this form.
-/

namespace Esp32Ipc.Framework

structure Span where
  first : Int
  last : Int
  deriving DecidableEq, Repr

namespace Span

def Has (s : Span) (y : Int) : Prop := s.first ≤ y ∧ y ≤ s.last

instance (s : Span) (y : Int) : Decidable (s.Has y) :=
  inferInstanceAs (Decidable (s.first ≤ y ∧ y ≤ s.last))

def join (r s : Span) : Span := ⟨min r.first s.first,max r.last s.last⟩

end Span

theorem Span.Has.join_left {r s : Span} {y : Int} (h : r.Has y) : (r.join s).Has y :=
  ⟨(min_le_left _ _).trans h.1,h.2.trans (le_max_left _ _)⟩

theorem Span.Has.join_right {r s : Span} {y : Int} (h : s.Has y) : (r.join s).Has y :=
  ⟨(min_le_right _ _).trans h.1,h.2.trans (le_max_right _ _)⟩

/-- The set a list of spans stands for. -/
def Covers (l : List Span) (y : Int) : Prop := ∃ r ∈ l, r.Has y

/-- No span is empty, and neighbours are in order with a gap between them. -/
structure Separated (l : List Span) : Prop where
  nonempty : ∀ r ∈ l, r.first ≤ r.last
  apart : l.Pairwise fun r s => r.last + 1 < s.first

variable {l l' : List Span} {r s : Span} {y : Int}

@[simp] theorem covers_nil : ¬Covers [] y := by simp [Covers]

@[simp] theorem covers_cons : Covers (r :: l) y ↔ r.Has y ∨ Covers l y := by simp [Covers]

@[simp] theorem covers_append : Covers (l ++ l') y ↔ Covers l y ∨ Covers l' y := by
  simp [Covers,or_and_right,exists_or]

theorem Separated.nil : Separated [] := ⟨by simp,List.Pairwise.nil⟩

theorem separated_cons :
    Separated (r :: l) ↔ r.first ≤ r.last ∧ (∀ s ∈ l, r.last + 1 < s.first) ∧ Separated l := by
  constructor
  · intro h
    obtain ⟨hhead,htail⟩ := List.pairwise_cons.mp h.apart
    exact ⟨h.nonempty r List.mem_cons_self,hhead,
      fun s hs => h.nonempty s (List.mem_cons_of_mem _ hs),htail⟩
  · intro ⟨hne,hhead,htail⟩
    refine ⟨?_,List.pairwise_cons.mpr ⟨hhead,htail.apart⟩⟩
    intro s hs
    rcases List.mem_cons.mp hs with rfl | hs
    · exact hne
    · exact htail.nonempty s hs

theorem separated_append : Separated (l ++ l') ↔
    Separated l ∧ Separated l' ∧ ∀ r ∈ l, ∀ s ∈ l', r.last + 1 < s.first := by
  constructor
  · intro h
    obtain ⟨hl,hl',hcross⟩ := List.pairwise_append.mp h.apart
    exact ⟨⟨fun r hr => h.nonempty r (List.mem_append_left _ hr),hl⟩,
      ⟨fun r hr => h.nonempty r (List.mem_append_right _ hr),hl'⟩,hcross⟩
  · intro ⟨hl,hl',hcross⟩
    refine ⟨?_,List.pairwise_append.mpr ⟨hl.apart,hl'.apart,hcross⟩⟩
    intro r hr
    rcases List.mem_append.mp hr with hr | hr
    · exact hl.nonempty r hr
    · exact hl'.nonempty r hr

section Canonical

private theorem lt_of_covers_tail (h : Separated (r :: l)) (hy : Covers l y) : r.last + 1 < y := by
  obtain ⟨s,hs,hfirst,_⟩ := hy
  have hgap := (separated_cons.mp h).2.1 s hs
  omega

private theorem le_of_covers (h : Separated (r :: l)) (hy : Covers (r :: l) y) : r.first ≤ y := by
  rcases covers_cons.mp hy with hhas | htail
  · exact hhas.1
  · have hgap := lt_of_covers_tail h htail
    have hne := (separated_cons.mp h).1
    omega

private theorem covers_first (h : Separated (r :: l)) : Covers (r :: l) r.first :=
  covers_cons.mpr (.inl ⟨le_refl _,(separated_cons.mp h).1⟩)

private theorem last_le (h : Separated (r :: l)) (hfirst : r.first = s.first)
    (hcovers : ∀ y, Covers (s :: l') y → Covers (r :: l) y) : s.last ≤ r.last := by
  by_contra hlt
  have hr := (separated_cons.mp h).1
  have hnext : Covers (r :: l) (r.last + 1) :=
    hcovers _ (covers_cons.mpr (.inl ⟨by omega,by omega⟩))
  rcases covers_cons.mp hnext with hhas | htail
  · have hle := hhas.2
    omega
  · exact absurd (lt_of_covers_tail h htail) (lt_irrefl _)

private theorem covers_tail (h : Separated (r :: l)) :
    Covers l y ↔ Covers (r :: l) y ∧ r.last < y := by
  constructor
  · intro hy
    have hgap := lt_of_covers_tail h hy
    exact ⟨covers_cons.mpr (.inr hy),by omega⟩
  · intro ⟨hy,hlt⟩
    rcases covers_cons.mp hy with hhas | htail
    · exact absurd hhas.2 (by omega)
    · exact htail

/-- Separated spans that cover the same set are the same list. -/
theorem Separated.eq_of_covers (h : Separated l) (h' : Separated l')
    (hcovers : ∀ y, Covers l y ↔ Covers l' y) : l = l' := by
  induction l generalizing l' with
  | nil =>
    cases l' with
    | nil => rfl
    | cons s l' => exact absurd ((hcovers _).mpr (covers_first h')) covers_nil
  | cons r l ih =>
    cases l' with
    | nil => exact absurd ((hcovers _).mp (covers_first h)) covers_nil
    | cons s l' =>
      have hfirst : r.first = s.first := by
        have hle := le_of_covers h ((hcovers _).mpr (covers_first h'))
        have hge := le_of_covers h' ((hcovers _).mp (covers_first h))
        omega
      have hlast : r.last = s.last := by
        have hle := last_le h hfirst fun y => (hcovers y).mpr
        have hge := last_le h' hfirst.symm fun y => (hcovers y).mp
        omega
      have hhead : r = s := by
        cases r
        cases s
        simp_all
      subst s
      congr 1
      apply ih (separated_cons.mp h).2.2 (separated_cons.mp h').2.2
      intro y
      rw [covers_tail h,covers_tail h',hcovers]

theorem Separated.countP_has (h : Separated l) (hy : Covers l y) :
    l.countP (fun r => decide (r.Has y)) = 1 := by
  induction l with
  | nil => exact absurd hy covers_nil
  | cons r l ih =>
    rw [List.countP_cons]
    by_cases htail : Covers l y
    · have hgap := lt_of_covers_tail h htail
      have hnot : ¬r.Has y := fun hhas => absurd hhas.2 (by omega)
      rw [ih (separated_cons.mp h).2.2 htail,if_neg (by simpa using hnot)]
    · have hhead := (covers_cons.mp hy).resolve_right htail
      rw [if_pos (by simpa using hhead),List.countP_eq_zero.mpr]
      intro s hs hhas
      exact htail ⟨s,hs,by simpa using hhas⟩

end Canonical

section Insert

/-- Join `s` with the spans at the front that overlap or abut it. -/
def absorb (s : Span) : List Span → Span × List Span
  | [] => (s, [])
  | r :: rest => if r.first ≤ s.last + 1 then absorb (r.join s) rest else (s, r :: rest)

/-- The span lies before `s` with a gap. -/
def Span.before (s r : Span) : Bool := decide (r.last + 1 < s.first)

def insertSpan (s : Span) (l : List Span) : List Span :=
  l.takeWhile s.before ++
    (absorb s (l.dropWhile s.before)).1 :: (absorb s (l.dropWhile s.before)).2

theorem absorb_suffix (s : Span) (l : List Span) : (absorb s l).2 <:+ l := by
  induction l generalizing s with
  | nil => exact List.suffix_refl _
  | cons r l ih =>
    rw [absorb]
    split
    · exact (ih _).trans (List.suffix_cons r l)
    · exact List.suffix_refl _

theorem absorb_length (s : Span) (l : List Span) : (absorb s l).2.length ≤ l.length :=
  (absorb_suffix s l).length_le

theorem absorb_eq_of_length (h : (absorb s l).2.length = l.length) : absorb s l = (s,l) := by
  cases l with
  | nil => rfl
  | cons r l =>
    rw [absorb] at h ⊢
    split
    next htouch =>
      rw [if_pos htouch] at h
      have hle := absorb_length (r.join s) l
      rw [h,List.length_cons] at hle
      omega
    next => rfl

theorem insertSpan_length (s : Span) (l : List Span) :
    (insertSpan s l).length ≤ l.length + 1 := by
  have habsorb := absorb_length s (l.dropWhile s.before)
  have hsplit := congrArg List.length (List.takeWhile_append_dropWhile (p := s.before) (l := l))
  rw [List.length_append] at hsplit
  rw [insertSpan,List.length_append,List.length_cons]
  omega

theorem insertSpan_length_of_absorbed
    (h : (absorb s (l.dropWhile s.before)).2.length ≠ (l.dropWhile s.before).length) :
    (insertSpan s l).length ≤ l.length := by
  have habsorb := absorb_length s (l.dropWhile s.before)
  have hsplit := congrArg List.length (List.takeWhile_append_dropWhile (p := s.before) (l := l))
  rw [List.length_append] at hsplit
  rw [insertSpan,List.length_append,List.length_cons]
  omega

section AnyOrder

/-! Whatever the order of the list, no integer it covers is lost, and every span keeps what joining
keeps. -/

theorem absorb_keeps (s : Span) (l : List Span) (h : s.Has y ∨ Covers l y) :
    (absorb s l).1.Has y ∨ Covers (absorb s l).2 y := by
  induction l generalizing s with
  | nil => exact h
  | cons r l ih =>
    rw [absorb]
    split
    · apply ih
      rcases h with hs | hl
      · exact .inl hs.join_right
      · exact (covers_cons.mp hl).imp_left Span.Has.join_left
    · exact h

theorem insertSpan_keeps (h : s.Has y ∨ Covers l y) : Covers (insertSpan s l) y := by
  rw [insertSpan,covers_append,covers_cons]
  rw [← List.takeWhile_append_dropWhile (p := s.before) (l := l),covers_append] at h
  rcases h with hs | hpre | hrest
  · exact .inr (absorb_keeps s _ (.inl hs))
  · exact .inl hpre
  · exact .inr (absorb_keeps s _ (.inr hrest))

variable {P : Span → Prop} (hjoin : ∀ r s, P r → P s → P (r.join s))

include hjoin

theorem absorb_forall (hs : P s) (hl : ∀ r ∈ l, P r) : P (absorb s l).1 := by
  induction l generalizing s with
  | nil => exact hs
  | cons r l ih =>
    rw [absorb]
    split
    · exact ih (hjoin r s (hl r List.mem_cons_self) hs) fun t ht => hl t (List.mem_cons_of_mem _ ht)
    · exact hs

theorem insertSpan_forall (hs : P s) (hl : ∀ r ∈ l, P r) : ∀ r ∈ insertSpan s l, P r := by
  intro r hr
  rw [insertSpan,List.mem_append,List.mem_cons] at hr
  have hdrop : ∀ t ∈ l.dropWhile s.before, P t :=
    fun t ht => hl t ((List.dropWhile_suffix s.before).subset ht)
  rcases hr with hpre | rfl | hpost
  · exact hl r ((List.takeWhile_prefix s.before).subset hpre)
  · exact absorb_forall hjoin hs hdrop
  · exact hdrop r ((absorb_suffix s _).subset hpost)

end AnyOrder

/-- What joining with the spans at the front leaves. -/
private structure Absorbed (s : Span) (l : List Span) (m : Span) (post : List Span) : Prop where
  nonempty : m.first ≤ m.last
  first_le : m.first ≤ s.first
  first_ge : ∀ z, z < s.first → (∀ r ∈ l, z < r.first) → z < m.first
  apart : ∀ r ∈ post, m.last + 1 < r.first
  separated : Separated post
  covers : ∀ y, m.Has y ∨ Covers post y ↔ s.Has y ∨ Covers l y

private theorem absorbed (hs : s.first ≤ s.last) (hl : Separated l)
    (htouch : ∀ r ∈ l, s.first ≤ r.last + 1) : Absorbed s l (absorb s l).1 (absorb s l).2 := by
  induction l generalizing s with
  | nil => exact ⟨hs,le_refl _,fun z hz _ => hz,by simp [absorb],hl,fun y => Iff.rfl⟩
  | cons r l ih =>
    obtain ⟨hr,hgap,htail⟩ := separated_cons.mp hl
    have hrTouch := htouch r List.mem_cons_self
    rw [absorb]
    by_cases hle : r.first ≤ s.last + 1
    · rw [if_pos hle]
      have hjoin : (r.join s).first ≤ (r.join s).last := by
        simp only [Span.join]
        omega
      have h := ih hjoin htail (by
        intro t ht
        have hrt := hgap t ht
        have ht := htail.nonempty t ht
        simp only [Span.join]
        omega)
      refine ⟨h.nonempty,?_,?_,h.apart,h.separated,?_⟩
      · have hfirst : (r.join s).first ≤ s.first := min_le_right _ _
        exact h.first_le.trans hfirst
      · intro z hz hall
        apply h.first_ge z
        · have hzr := hall r List.mem_cons_self
          simp only [Span.join]
          omega
        · exact fun t ht => hall t (List.mem_cons_of_mem _ ht)
      · intro y
        have hhas : (r.join s).Has y ↔ s.Has y ∨ r.Has y := by
          simp only [Span.join,Span.Has]
          omega
        rw [h.covers y,hhas,covers_cons,or_assoc]
    · rw [if_neg hle]
      refine ⟨hs,le_refl _,fun z hz _ => hz,?_,hl,fun y => Iff.rfl⟩
      intro t ht
      change s.last + 1 < t.first
      rcases List.mem_cons.mp ht with rfl | ht
      · omega
      · have hrt := hgap t ht
        omega

private theorem touch_of_dropWhile (hl : Separated l) :
    ∀ r ∈ l.dropWhile s.before, s.first ≤ r.last + 1 := by
  induction l with
  | nil => simp
  | cons r l ih =>
    obtain ⟨hr,hgap,htail⟩ := separated_cons.mp hl
    by_cases hbefore : s.before r = true
    · rw [List.dropWhile_cons_of_pos hbefore]
      exact ih htail
    · rw [List.dropWhile_cons_of_neg hbefore]
      have hle : s.first ≤ r.last + 1 := by
        simp only [Span.before,decide_eq_true_eq] at hbefore
        omega
      intro t ht
      rcases List.mem_cons.mp ht with rfl | ht
      · exact hle
      · have hrt := hgap t ht
        have ht := htail.nonempty t ht
        omega

private theorem insert_absorbed (hs : s.first ≤ s.last) (hl : Separated l) :
    Absorbed s (l.dropWhile s.before) (absorb s (l.dropWhile s.before)).1
      (absorb s (l.dropWhile s.before)).2 := by
  have hsplit : Separated (l.takeWhile s.before ++ l.dropWhile s.before) := by
    rwa [List.takeWhile_append_dropWhile]
  exact absorbed hs (separated_append.mp hsplit).2.1 (touch_of_dropWhile hl)

theorem insertSpan_separated (hs : s.first ≤ s.last) (hl : Separated l) :
    Separated (insertSpan s l) := by
  have h := insert_absorbed hs hl
  have hsplit : Separated (l.takeWhile s.before ++ l.dropWhile s.before) := by
    rwa [List.takeWhile_append_dropWhile]
  obtain ⟨hpre,_,hcross⟩ := separated_append.mp hsplit
  refine separated_append.mpr ⟨hpre,separated_cons.mpr ⟨h.nonempty,h.apart,h.separated⟩,?_⟩
  intro r hr
  have hbefore : r.last + 1 < s.first := by
    simpa [Span.before] using List.mem_takeWhile_imp hr
  have hm := h.first_ge (r.last + 1) hbefore fun t ht => hcross r hr t ht
  intro t ht
  rcases List.mem_cons.mp ht with rfl | ht
  · exact hm
  · have hmt := h.apart t ht
    have hne := h.nonempty
    omega

theorem insertSpan_covers (hs : s.first ≤ s.last) (hl : Separated l) (y : Int) :
    Covers (insertSpan s l) y ↔ s.Has y ∨ Covers l y := by
  have h := insert_absorbed hs hl
  have hparts : Covers l y ↔ Covers (l.takeWhile s.before) y ∨ Covers (l.dropWhile s.before) y := by
    rw [← covers_append,List.takeWhile_append_dropWhile]
  rw [insertSpan,covers_append,covers_cons,h.covers y,hparts]
  tauto

end Insert

end Esp32Ipc.Framework
