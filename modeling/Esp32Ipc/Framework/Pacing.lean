import Mathlib.Algebra.Order.Floor.Ring
import Mathlib.Data.Rat.Floor
import Mathlib.Tactic

/-!
# A pacing grid

A pacer lets a call through when its time has reached the grid point, and moves the point one step
on, or one step past the call where that would not catch up. However late or bunched the calls are
it lets no more of them through than the grid has points, and calls no more than a step apart keep
it on one grid.
-/

namespace Esp32Ipc.Framework

/-- A call of a pacer, with the grid point it leaves. -/
structure PacedCall where
  now : Int
  passed : Bool
  next : Int
  deriving DecidableEq, Repr

/-- What a call may do when the grid point is `next`. -/
inductive PacedCall.From (step next : Int) (c : PacedCall) : Prop
  | held (passed : c.passed = false) (early : c.now < next) (same : c.next = next)
  | onTime (passed : c.passed = true) (due : next ≤ c.now) (early : c.now < next + step)
      (moved : c.next = next + step)
  | late (passed : c.passed = true) (due : next + step ≤ c.now) (moved : c.next = c.now + step)

/-- A run of calls from the grid point `next`. -/
def PacedRun (step : Int) : Int → List PacedCall → Prop
  | _, [] => True
  | next, c :: calls => c.From step next ∧ PacedRun step c.next calls

def passedCalls (calls : List PacedCall) : List PacedCall := calls.filter (·.passed)

variable {step next t : Int} {c d : PacedCall} {calls calls' : List PacedCall}

theorem PacedRun.from_mem (h : PacedRun step next (calls ++ c :: calls')) :
    (∃ next', c.From step next') ∧ PacedRun step c.next calls' := by
  induction calls generalizing next with
  | nil => exact ⟨⟨next,h.1⟩,h.2⟩
  | cons d calls ih => exact ih h.2

theorem PacedRun.take (h : PacedRun step next (calls ++ calls')) : PacedRun step next calls := by
  induction calls generalizing next with
  | nil => trivial
  | cons d calls ih => exact ⟨h.1,ih h.2⟩

section NoBurst

variable (hstep : 0 ≤ step)

include hstep

theorem PacedCall.From.next_le (h : c.From step next) : next ≤ c.next := by
  cases h with
  | held _ _ hsame => omega
  | onTime _ _ _ hmoved => omega
  | late _ hdue hmoved => omega

theorem PacedCall.From.passed (h : c.From step next) (hc : c.passed = true) :
    next ≤ c.now ∧ next + step ≤ c.next := by
  cases h with
  | held hheld _ _ => simp [hheld] at hc
  | onTime _ hdue _ hmoved => omega
  | late _ hdue hmoved => omega

theorem PacedRun.passed (h : PacedRun step next calls) :
    ∀ c ∈ passedCalls calls, next ≤ c.now ∧ next + step ≤ c.next := by
  induction calls generalizing next with
  | nil => simp [passedCalls]
  | cons d calls ih =>
    intro c hc
    have hnext := h.1.next_le hstep
    rw [passedCalls,List.filter_cons] at hc
    split at hc
    next hd =>
      rcases List.mem_cons.mp hc with rfl | hc
      · exact h.1.passed hstep hd
      · have hlater := ih h.2 c hc
        omega
    next hd =>
      have hlater := ih h.2 c hc
      omega

theorem PacedRun.spaced (h : PacedRun step next calls) :
    (passedCalls calls).Pairwise fun c d => c.next ≤ d.now ∧ c.next + step ≤ d.next := by
  induction calls generalizing next with
  | nil => exact List.Pairwise.nil
  | cons c calls ih =>
    rw [passedCalls,List.filter_cons]
    split
    · exact List.pairwise_cons.mpr ⟨h.2.passed hstep,ih h.2⟩
    · exact ih h.2

omit hstep in
theorem spaced_getLast
    (h : (c :: calls).Pairwise fun c d => c.next ≤ d.now ∧ c.next + step ≤ d.next)
    (hne : calls ≠ []) : c.next + (calls.length - 1) * step ≤ (calls.getLast hne).now := by
  induction calls generalizing c with
  | nil => exact absurd rfl hne
  | cons d calls ih =>
    obtain ⟨hhead,htail⟩ := List.pairwise_cons.mp h
    have hcd := hhead d List.mem_cons_self
    cases calls with
    | nil => simpa using hcd.1
    | cons e calls =>
      have hlast := ih htail (by simp)
      rw [List.getLast_cons (by simp)]
      have hlen : (((d :: e :: calls).length : Int) - 1) * step =
          step + (((e :: calls).length : Int) - 1) * step := by
        simp only [List.length_cons]
        push_cast
        ring
      omega

end NoBurst

section Burst

theorem PacedRun.now_lt (hstep : 0 < step) (h : PacedRun step next calls) :
    ∀ c ∈ passedCalls calls, c.now < c.next := by
  intro c hc
  obtain ⟨hmem,hpassed⟩ := List.mem_filter.mp hc
  obtain ⟨before,after,rfl⟩ := List.append_of_mem hmem
  obtain ⟨next',hfrom⟩ := h.from_mem.1
  cases hfrom with
  | held hheld _ _ => simp [hheld] at hpassed
  | onTime _ _ hearly hmoved => omega
  | late _ _ hmoved => omega

/-- Any calls let through are at most one more than the steps they are apart, rounded up. -/
theorem PacedRun.burst (hstep : 0 < step) (h : PacedRun step next calls) {rest : List PacedCall}
    (hsub : (c :: rest).Sublist (passedCalls calls)) :
    ((c :: rest).length : Int) ≤
      ⌈((((c :: rest).getLast (List.cons_ne_nil c rest)).now - c.now : Int) : ℚ) / step⌉ + 1 := by
  have hnow := h.now_lt hstep c (hsub.subset List.mem_cons_self)
  have hrat : (0 : ℚ) < step := by exact_mod_cast hstep
  cases rest with
  | nil => simp
  | cons d rest =>
    have hlast := spaced_getLast ((h.spaced hstep.le).sublist hsub) (List.cons_ne_nil d rest)
    rw [List.getLast_cons (List.cons_ne_nil d rest)]
    generalize ((d :: rest).getLast (List.cons_ne_nil d rest)).now = last at hlast ⊢
    have hlt : ((rest.length : Int) : ℚ) < ((last - c.now : Int) : ℚ) / step := by
      rw [lt_div_iff₀ hrat]
      simp only [List.length_cons,Nat.cast_succ,add_sub_cancel_right] at hlast
      exact_mod_cast (by omega : (rest.length : Int) * step < last - c.now)
    have hceil := Int.lt_ceil.mpr hlt
    simp only [List.length_cons,Nat.cast_succ]
    omega

end Burst

section Steady

def InPace (step t next : Int) : Prop := next - step ≤ t ∧ t < next

/-- No call comes before the last one or more than a step after it. -/
def Steady (step : Int) (calls : List PacedCall) : Prop :=
  calls.IsChain fun a b => a.now ≤ b.now ∧ b.now ≤ a.now + step

theorem steady_of_sorted (hsorted : (calls.map (·.now)).Pairwise (· ≤ ·))
    (hgaps : calls.IsChain fun a b => b.now ≤ a.now + step) : Steady step calls := by
  rw [List.isChain_iff_getElem] at hgaps
  rw [Steady,List.isChain_iff_getElem]
  intro i hi
  have hle := List.pairwise_iff_getElem.mp (List.pairwise_map.mp hsorted) i (i + 1) (by omega) hi
    (Nat.lt_succ_self i)
  exact ⟨hle,hgaps i hi⟩

/-- The call passes in slot `m` of the grid from `g`. -/
def PacedCall.inSlot (step g : Int) (m : Nat) (c : PacedCall) : Bool :=
  c.passed && decide (g + m * step ≤ c.now ∧ c.now < g + (m + 1) * step)

theorem PacedCall.From.inPace_of_passed (hstep : 0 < step) (h : c.From step next) (hc : c.passed = true) :
    InPace step c.now c.next := by
  cases h with
  | held hheld _ _ => simp [hheld] at hc
  | onTime _ hdue hearly hmoved => exact ⟨by omega,by omega⟩
  | late _ _ hmoved => exact ⟨by omega,by omega⟩

theorem PacedCall.From.inPace (h : c.From step next) (hpace : InPace step t next)
    (hle : t ≤ c.now) (hgap : c.now ≤ t + step) :
    InPace step c.now c.next ∧ c.now < next + step ∧
      (c.passed = true ∧ next ≤ c.now ∧ c.next = next + step ∨
        c.passed = false ∧ c.next = next) := by
  obtain ⟨hlow,hhigh⟩ := hpace
  unfold InPace
  cases h with
  | held hheld hearly hsame => exact ⟨by omega,by omega,.inr ⟨hheld,hsame⟩⟩
  | onTime hpassed hdue hearly hmoved => exact ⟨by omega,by omega,.inl ⟨hpassed,hdue,hmoved⟩⟩
  | late _ hdue _ => omega

/-- Steady calls never restart the grid. -/
theorem PacedRun.onGrid (h : PacedRun step c.next calls) (hpace : InPace step c.now c.next)
    (hsteady : Steady step (c :: calls)) :
    (c :: calls).IsChain fun a b => ¬a.next + step ≤ b.now := by
  induction calls generalizing c with
  | nil => exact List.isChain_singleton c
  | cons d calls ih =>
    obtain ⟨⟨hle,hgap⟩,hsteady⟩ := List.isChain_cons_cons.mp hsteady
    obtain ⟨hpace',hearly,_⟩ := h.1.inPace hpace hle hgap
    exact List.isChain_cons_cons.mpr ⟨by omega,ih h.2 hpace' hsteady⟩

theorem PacedRun.last_inPace (h : PacedRun step c.next calls) (hpace : InPace step c.now c.next)
    (hsteady : Steady step (c :: calls)) :
    InPace step ((c :: calls).getLast (List.cons_ne_nil c calls)).now
      (c.next + calls.countP (·.passed) * step) := by
  induction calls generalizing c with
  | nil => simpa using hpace
  | cons d calls ih =>
    obtain ⟨⟨hle,hgap⟩,hsteady⟩ := List.isChain_cons_cons.mp hsteady
    obtain ⟨hpace',_,hmove⟩ := h.1.inPace hpace hle hgap
    have hlast := ih h.2 hpace' hsteady
    rw [List.getLast_cons (List.cons_ne_nil d calls)]
    rcases hmove with ⟨hpassed,_,hmoved⟩ | ⟨hheld,hsame⟩
    · have hcount : c.next + ((d :: calls).countP (·.passed) : Nat) * step =
          d.next + (calls.countP (·.passed) : Nat) * step := by
        rw [List.countP_cons_of_pos hpassed,hmoved]
        push_cast
        ring
      rwa [hcount]
    · rw [List.countP_cons_of_neg (by simp [hheld]),← hsame]
      exact hlast

/-- Each slot the grid has left behind let one call through. -/
theorem PacedRun.slots (hstep : 0 < step) (h : PacedRun step c.next calls)
    (hpace : InPace step c.now c.next) (hsteady : Steady step (c :: calls)) {m : Nat} (hm : m < calls.countP (·.passed)) :
    calls.countP (·.inSlot step c.next m) = 1 := by
  induction calls generalizing c m with
  | nil => simp at hm
  | cons d calls ih =>
    obtain ⟨⟨hle,hgap⟩,hsteady⟩ := List.isChain_cons_cons.mp hsteady
    obtain ⟨hpace',hearly,hmove⟩ := h.1.inPace hpace hle hgap
    rcases hmove with ⟨hpassed,hdue,hmoved⟩ | ⟨hheld,hsame⟩
    · cases m with
      | zero =>
        -- the slot of `d` itself: everything later is past it
        have hrest : calls.countP (·.inSlot step c.next 0) = 0 := by
          rw [List.countP_eq_zero]
          intro e he hslot
          simp only [PacedCall.inSlot,Bool.and_eq_true,decide_eq_true_eq] at hslot
          have hlater := h.2.passed hstep.le e (List.mem_filter.mpr ⟨he,hslot.1⟩)
          push_cast at hslot
          omega
        rw [List.countP_cons_of_pos,hrest]
        simp [PacedCall.inSlot,hpassed,hdue,hearly]
      | succ m =>
        rw [List.countP_cons_of_pos hpassed] at hm
        have hshift : ∀ e : PacedCall, e.inSlot step c.next (m + 1) = e.inSlot step d.next m := by
          intro e
          rw [PacedCall.inSlot,PacedCall.inSlot,hmoved]
          congr 3
          · push_cast
            ring_nf
          · push_cast
            ring_nf
        have hbefore : d.inSlot step c.next (m + 1) = false := by
          have hslot : step ≤ ((m + 1 : Nat) : Int) * step := le_mul_of_one_le_left hstep.le (by omega)
          simp only [PacedCall.inSlot,Bool.and_eq_false_iff,decide_eq_false_iff_not]
          exact .inr (by omega)
        rw [List.countP_cons_of_neg (by simp [hbefore])]
        simp only [hshift]
        exact ih h.2 hpace' hsteady (Nat.lt_of_succ_lt_succ hm)
    · rw [List.countP_cons_of_neg (by simp [hheld])] at hm
      rw [List.countP_cons_of_neg (by simp [PacedCall.inSlot,hheld]),← hsame]
      exact ih h.2 hpace' hsteady hm

theorem PacedRun.slot_behind (hstep : 0 < step) (h : PacedRun step c.next calls)
    (hpace : InPace step c.now c.next) (hsteady : Steady step (c :: calls)) {m : Nat}
    (hm : c.next + (m + 1) * step ≤ ((c :: calls).getLast (List.cons_ne_nil c calls)).now) :
    (c :: calls).countP (·.inSlot step c.next m) = 1 := by
  have hlast := (h.last_inPace hpace hsteady).2
  have hlt : ((m + 1 : Nat) : Int) * step < (calls.countP (·.passed) : Nat) * step := by
    push_cast
    omega
  have hm' := Int.lt_of_mul_lt_mul_right hlt hstep.le
  have hfirst : c.inSlot step c.next m = false := by
    have hslot : 0 ≤ (m : Int) * step := Int.mul_nonneg (by omega) hstep.le
    have hnow := hpace.2
    simp only [PacedCall.inSlot,Bool.and_eq_false_iff,decide_eq_false_iff_not]
    exact .inr (by omega)
  rw [List.countP_cons_of_neg (by simp [hfirst])]
  exact h.slots hstep hpace hsteady (by omega)

/-- At every call the number let through is less than two off the time in steps. -/
theorem PacedRun.drift (hstep : 0 < step) (h : PacedRun step c.next calls) (hc : c.passed = true)
    (hpace : InPace step c.now c.next) (hsteady : Steady step (c :: calls)) {seen : List PacedCall}
    (hsplit : c :: calls = seen ++ d :: calls') :
    |((seen ++ [d]).countP (·.passed) : ℚ) - ((d.now - c.now : Int) : ℚ) / step| < 2 := by
  obtain ⟨start,hfirsts,hrest⟩ : ∃ start, seen ++ [d] = c :: start ∧ calls = start ++ calls' := by
    cases seen with
    | nil => exact ⟨[],by simp_all,by simp_all⟩
    | cons e seen => exact ⟨seen ++ [d],by simp_all,by simp_all⟩
  subst hrest
  have hsteady' : Steady step (c :: start) := by
    rw [Steady,← List.cons_append] at hsteady
    exact hsteady.left_of_append
  have hlast := h.take.last_inPace hpace hsteady'
  have hend : ((c :: start).getLast (List.cons_ne_nil c start)).now = d.now := by
    simp only [← hfirsts,List.getLast_concat]
  rw [hend] at hlast
  have hrat : (0 : ℚ) < step := by exact_mod_cast hstep
  obtain ⟨hlow,hhigh⟩ := hlast
  obtain ⟨hfirst,hnext⟩ := hpace
  rw [hfirsts,List.countP_cons_of_pos hc]
  generalize start.countP (·.passed) = n at hlow hhigh ⊢
  have hupper : ((d.now - c.now : Int) : ℚ) / step ≤ ((n + 1 : Nat) : ℚ) := by
    rw [div_le_iff₀ hrat]
    exact_mod_cast (by push_cast; linarith : d.now - c.now ≤ ((n + 1 : Nat) : Int) * step)
  have hlower : ((n + 1 : Nat) : ℚ) - 2 < ((d.now - c.now : Int) : ℚ) / step := by
    rw [lt_div_iff₀ hrat]
    exact_mod_cast (by push_cast; linarith : (((n + 1 : Nat) : Int) - 2) * step < d.now - c.now)
  rw [abs_lt]
  constructor <;> linarith

end Steady

end Esp32Ipc.Framework
