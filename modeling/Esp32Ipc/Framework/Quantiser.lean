import Mathlib.Tactic

/-!
# Quantising to the middle of a cell

The numbers are cut into cells, each as wide as `width` says at all of its members, and a number is
replaced by the middle of its cell.
-/

namespace Esp32Ipc.Framework

variable {width : Nat → Nat} {m n : Nat}

def cellStart (width : Nat → Nat) (m : Nat) : Nat := m / width m * width m

def cellMiddle (width : Nat → Nat) (m : Nat) : Nat := cellStart width m + width m / 2

/-- The cells do not cut each other: the width is the same all over a cell. -/
structure Cells (width : Nat → Nat) : Prop where
  pos : ∀ m, 0 < width m
  width_eq : ∀ m n, cellStart width m ≤ n → n < cellStart width m + width m → width n = width m

theorem cellStart_le (width : Nat → Nat) (m : Nat) : cellStart width m ≤ m :=
  Nat.div_mul_le_self _ _

theorem le_cellStart {a : Nat} (hdvd : width m ∣ a) (h : a ≤ m) : a ≤ cellStart width m := by
  obtain ⟨c,rfl⟩ := hdvd
  rw [cellStart,Nat.mul_comm]
  rcases Nat.eq_zero_or_pos (width m) with hzero | hpos
  · simp [hzero]
  · apply Nat.mul_le_mul_right
    rw [Nat.le_div_iff_mul_le hpos,Nat.mul_comm]
    exact h

theorem cellEnd_le {b : Nat} (hdvd : width m ∣ b) (h : m < b) :
    cellStart width m + width m ≤ b := by
  obtain ⟨c,rfl⟩ := hdvd
  rw [cellStart,← Nat.succ_mul,Nat.mul_comm (width m) c]
  apply Nat.mul_le_mul_right
  exact Nat.div_lt_of_lt_mul h

namespace Cells

theorem lt_end (h : Cells width) (m : Nat) : m < cellStart width m + width m := by
  have hrest := Nat.mod_lt m (h.pos m)
  have hdiv := Nat.div_add_mod' m (width m)
  rw [cellStart]
  omega

theorem cellStart_eq (h : Cells width) (hstart : cellStart width m ≤ n)
    (hend : n < cellStart width m + width m) : cellStart width n = cellStart width m := by
  have hwidth := h.width_eq m n hstart hend
  have hdiv : n / width m = m / width m := by
    apply Nat.div_eq_of_lt_le hstart
    rw [Nat.succ_mul]
    exact hend
  rw [cellStart,cellStart,hwidth,hdiv]

theorem cellMiddle_eq (h : Cells width) (hstart : cellStart width m ≤ n)
    (hend : n < cellStart width m + width m) : cellMiddle width n = cellMiddle width m := by
  rw [cellMiddle,cellMiddle,h.cellStart_eq hstart hend,h.width_eq m n hstart hend]

theorem middle_lt_end (h : Cells width) (m : Nat) :
    cellMiddle width m < cellStart width m + width m := by
  have hpos := h.pos m
  rw [cellMiddle]
  omega

theorem dist_le (h : Cells width) (m : Nat) :
    m ≤ cellMiddle width m + (width m - 1) / 2 ∧ cellMiddle width m ≤ m + width m / 2 := by
  have hstart := cellStart_le width m
  have hend := h.lt_end m
  rw [cellMiddle]
  omega

theorem end_le_start (h : Cells width) (hmn : m ≤ n) (hend : cellStart width m + width m ≤ n) :
    cellStart width m + width m ≤ cellStart width n := by
  by_contra hcut
  have hn := h.lt_end n
  have hm := cellStart_le width m
  by_cases hbefore : cellStart width n ≤ m
  · -- `m` is in the cell of `n`
    have hsame := h.cellStart_eq hbefore (lt_of_le_of_lt hmn hn)
    have hwidth := h.width_eq n m hbefore (lt_of_le_of_lt hmn hn)
    omega
  · -- the cell of `n` starts in that of `m`
    have hsame := h.cellStart_eq (m := m) (n := cellStart width n) (by omega) (by omega)
    have hwidth := h.width_eq m (cellStart width n) (by omega) (by omega)
    have hself := h.width_eq n (cellStart width n) le_rfl (by have := h.pos n; omega)
    have hstart := h.cellStart_eq (m := n) (n := cellStart width n) le_rfl (by have := h.pos n; omega)
    omega

theorem cellMiddle_mono (h : Cells width) (hmn : m ≤ n) :
    cellMiddle width m ≤ cellMiddle width n := by
  by_cases hend : n < cellStart width m + width m
  · exact (h.cellMiddle_eq ((cellStart_le width m).trans hmn) hend).ge
  · calc cellMiddle width m ≤ cellStart width m + width m := (h.middle_lt_end m).le
      _ ≤ cellStart width n := h.end_le_start hmn (Nat.not_lt.mp hend)
      _ ≤ cellMiddle width n := Nat.le_add_right _ _

end Cells

/-- Cells that are wider by octaves: `2 ^ e` steps to each, none below a width of `2 ^ k`. -/
def octaveWidth (k e m : Nat) : Nat := 2 ^ max k (Nat.log 2 m - e)

theorem octaveWidth_cells (k e : Nat) : Cells (octaveWidth k e) where
  pos := fun _ => Nat.two_pow_pos _
  width_eq := by
    intro m n hstart hend
    rcases Nat.lt_or_ge k (Nat.log 2 m - e) with hhigh | hlow
    · have hne : m ≠ 0 := by
        rintro rfl
        simp at hhigh
      have hwidth : octaveWidth k e m = 2 ^ (Nat.log 2 m - e) := by
        rw [octaveWidth,Nat.max_eq_right hhigh.le]
      have hdvd : octaveWidth k e m ∣ 2 ^ Nat.log 2 m := by
        rw [hwidth]
        exact Nat.pow_dvd_pow 2 (Nat.sub_le _ _)
      have hlow := le_cellStart hdvd (Nat.pow_log_le_self 2 hne)
      have hbound := cellEnd_le (hdvd.trans (Nat.pow_dvd_pow 2 (Nat.le_succ _)))
        (Nat.lt_pow_succ_log_self (by decide) m)
      have hlog : Nat.log 2 n = Nat.log 2 m :=
        Nat.log_eq_of_pow_le_of_lt_pow (by omega) (by omega)
      rw [octaveWidth,octaveWidth,hlog]
    · -- below the first octave with wider steps
      have hwidth : octaveWidth k e m = 2 ^ k := by rw [octaveWidth,Nat.max_eq_left hlow]
      have hm : m < 2 ^ (k + e + 1) := by
        apply Nat.lt_pow_of_log_lt (by decide)
        omega
      have hdvd : octaveWidth k e m ∣ 2 ^ (k + e + 1) := by
        rw [hwidth]
        exact Nat.pow_dvd_pow 2 (by omega)
      have hbound := cellEnd_le hdvd hm
      have hn : Nat.log 2 n < k + e + 1 := Nat.log_lt_of_lt_pow' (by omega) (by omega)
      rw [hwidth,octaveWidth,Nat.max_eq_left (by omega)]

end Esp32Ipc.Framework
