import Mathlib.Data.List.Basic
import Mathlib.Tactic

/-!
# Times on a grid

A list of times holds one time in each slot of a grid: its last entry is in the slot that ends at
`next`, the one before in the slot before, and so on. Two entries are then as far apart as their
positions say, up to one step, however long the list is.
-/

namespace Esp32Ipc.Framework

/-- Entry `k` of `ts` lies in its slot of a grid with this step, whose slots end at `next`. -/
def InSlots (step next : Int) (ts : List Int) : Prop :=
  ∀ k (h : k < ts.length), next - (ts.length - k) * step ≤ ts[k] ∧
    ts[k] < next - (ts.length - k) * step + step

namespace InSlots

variable {step next t : Int} {ts : List Int}

theorem nil : InSlots step next [] := by
  intro k h
  simp at h

theorem concat (h : InSlots step next ts) (hle : next ≤ t) (hlt : t < next + step) :
    InSlots step (next + step) (ts ++ [t]) := by
  intro k hk
  have hlen : ((ts ++ [t]).length : Int) = ts.length + 1 := by simp
  have hshift : next + step - (((ts ++ [t]).length : Int) - k) * step =
      next - (ts.length - k) * step := by rw [hlen]; ring
  rw [hshift]
  rcases Nat.lt_or_ge k ts.length with hold | hnew
  · rw [List.getElem_append_left hold]
    exact h k hold
  · obtain rfl : k = ts.length := by
      rw [List.length_append,List.length_singleton] at hk
      omega
    rw [List.getElem_append_right (le_refl _)]
    simpa using ⟨hle,hlt⟩

theorem gap (h : InSlots step next ts) {i j : Nat} (hi : i < ts.length) (hj : j < ts.length) :
    -step < ts[j] - ts[i] - (j - i) * step ∧ ts[j] - ts[i] - (j - i) * step < step := by
  obtain ⟨hi₁,hi₂⟩ := h i hi
  obtain ⟨hj₁,hj₂⟩ := h j hj
  have hsplit : ((ts.length : Int) - i) * step = (ts.length - j) * step + (j - i) * step := by ring
  constructor <;> linarith

variable (hstep : 0 ≤ step)

include hstep

theorem sorted (h : InSlots step next ts) : ts.Pairwise (· < ·) := by
  rw [List.pairwise_iff_getElem]
  intro i j hi hj hij
  have hgap := (h.gap hi hj).1
  have hapart : step ≤ ((j : Int) - i) * step := le_mul_of_one_le_left hstep (by omega)
  linarith

end InSlots

theorem countP_lt_getElem {ts : List Int} (h : ts.Pairwise (· < ·)) {k : Nat} (hk : k < ts.length) :
    ts.countP (· < ts[k]) = k := by
  induction ts generalizing k with
  | nil => simp at hk
  | cons t ts ih =>
    rw [List.pairwise_cons] at h
    cases k with
    | zero =>
      rw [List.countP_eq_zero]
      intro a ha
      rcases List.mem_cons.mp ha with rfl | ha
      · simp
      · simpa using (h.1 a ha).le
    | succ k =>
      rw [List.length_cons,Nat.succ_lt_succ_iff] at hk
      have hlt : t < ts[k] := h.1 _ (List.getElem_mem hk)
      rw [List.getElem_cons_succ,List.countP_cons_of_pos (by simpa using hlt),ih h.2 hk]

theorem countP_lt_add {x y : Int} (hxy : x ≤ y) (ts : List Int) :
    ts.countP (· < y) = ts.countP (· < x) + ts.countP (fun t => x ≤ t ∧ t < y) := by
  induction ts with
  | nil => rfl
  | cons t ts ih =>
    have hcase : (if t < y then 1 else 0) =
        (if t < x then 1 else 0) + (if x ≤ t ∧ t < y then 1 else 0) := by
      split_ifs <;> omega
    simp only [List.countP_cons,decide_eq_true_eq,ih]
    omega

end Esp32Ipc.Framework
