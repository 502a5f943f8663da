import Mathlib.Algebra.BigOperators.Group.Finset.Basic
import Mathlib.Data.Fintype.Card
import Mathlib.Tactic

/-!
# How many tasks stand at a point

Tasks are any finite type. When one task moves, the count of every point changes by that task alone.
-/

namespace Esp32Ipc.Framework

variable {ι κ : Type*} [Fintype ι] [DecidableEq κ]

/-- The number of tasks at point `k`. -/
def census (place : ι → κ) (k : κ) : Nat := (Finset.univ.filter fun t => place t = k).card

theorem census_pos {place : ι → κ} {t : ι} {k : κ} (ht : place t = k) : 0 < census place k :=
  Finset.card_pos.mpr ⟨t,by simp [ht]⟩

theorem census_eq_zero {place : ι → κ} {k : κ} (h : ∀ t, place t ≠ k) : census place k = 0 := by
  simp [census,h]

variable [DecidableEq ι]

theorem census_update (place : ι → κ) (t : ι) (v k : κ) :
    census (Function.update place t v) k + (if place t = k then 1 else 0) =
      census place k + (if v = k then 1 else 0) := by
  have hrest : ∑ u ∈ Finset.univ.erase t, (if Function.update place t v u = k then 1 else 0) =
      ∑ u ∈ Finset.univ.erase t, (if place u = k then 1 else 0) := by
    apply Finset.sum_congr rfl
    intro u hu
    rw [Function.update_of_ne (Finset.ne_of_mem_erase hu)]
  simp only [census,Finset.card_filter]
  rw [← Finset.add_sum_erase _ _ (Finset.mem_univ t),hrest,
    ← Finset.add_sum_erase _ (fun u => if place u = k then 1 else 0) (Finset.mem_univ t),
    Function.update_self]
  omega

theorem census_move {place : ι → κ} {t : ι} {a b : κ} (ht : place t = a) (hab : a ≠ b) :
    census (Function.update place t b) a + 1 = census place a ∧
      census (Function.update place t b) b = census place b + 1 := by
  have ha := census_update place t b a
  have hb := census_update place t b b
  simp only [ht,if_true,if_neg hab,if_neg hab.symm,add_zero] at ha hb
  exact ⟨ha,hb⟩

theorem census_move_other {place : ι → κ} {t : ι} {a b c : κ} (ht : place t = a) (hac : a ≠ c)
    (hbc : b ≠ c) : census (Function.update place t b) c = census place c := by
  have h := census_update place t b c
  simpa [ht,hac,hbc] using h

end Esp32Ipc.Framework
