import Mathlib.Tactic

/-!
# Deadlines on a clock that wraps

A clock of `m` values reads `now % m`. Comparing such readings with `<` answers as the times do
only while no wrap separates the two.
-/

namespace Esp32Ipc.Framework

variable {m due now : Nat}

/-- No wrap lies between a time before the deadline and the deadline, and a time past it does not
read less after a wrap. -/
def WrapFits (m due now : Nat) : Prop :=
  if now < due then now / m = due / m else due % m ≤ now % m

theorem wrapFits_early (h : now < due) : WrapFits m due now ↔ now / m = due / m := by
  rw [WrapFits,if_pos h]

theorem wrapFits_due (h : due ≤ now) : WrapFits m due now ↔ due % m ≤ now % m := by
  rw [WrapFits,if_neg (Nat.not_lt.mpr h)]

theorem mod_lt_iff_div_eq (hearly : now < due) (hnear : due < now + m) :
    now % m < due % m ↔ now / m = due / m := by
  have hnow := Nat.div_add_mod now m
  have hdue := Nat.div_add_mod due m
  constructor
  · intro hread
    apply Nat.le_antisymm (Nat.div_le_div_right hearly.le)
    by_contra hwrap
    have hquot : m * (now / m + 1) ≤ m * (due / m) := Nat.mul_le_mul_left m (by omega)
    rw [Nat.mul_add,Nat.mul_one] at hquot
    omega
  · intro hsame
    rw [hsame] at hnow
    omega

/-- Plain less-than on the readings answers right exactly when the clock fits. -/
theorem wrapFits_iff (hnear : due < now + m) :
    WrapFits m due now ↔ (now % m < due % m ↔ now < due) := by
  rcases Nat.lt_or_ge now due with hearly | hdue
  · rw [wrapFits_early hearly,iff_true_right hearly]
    exact (mod_lt_iff_div_eq hearly hnear).symm
  · rw [wrapFits_due hdue,iff_false_right (Nat.not_lt.mpr hdue)]
    exact Nat.not_lt.symm

theorem uint32_reading (start : UInt32) (elapsed : Nat) :
    (start + UInt32.ofNat elapsed).toNat = (start.toNat + elapsed) % 2 ^ 32 := by
  rw [UInt32.toNat_add,UInt32.toNat_ofNat',Nat.add_mod_mod]

end Esp32Ipc.Framework
