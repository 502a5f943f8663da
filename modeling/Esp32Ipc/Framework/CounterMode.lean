import Mathlib.Data.List.Basic
import Mathlib.Logic.Function.Iterate
import Mathlib.Tactic

/-!
# Counter mode

A block function turns each counter into a block of keystream, which is mixed into the data entry
by entry. The state keeps the unused rest of the current block, so data may come in pieces of any
length: entry `p` after a start from counter `c` meets entry `p % n` of the block of the
`p / n`-th counter after `c`.
-/

namespace Esp32Ipc.Framework

variable {γ α : Type*} {n : Nat}

/-- The next counter, the current block of keystream and the place in it, zero when a new block is
needed. -/
structure CounterMode (γ α : Type*) (n : Nat) where
  counter : γ
  block : Vector α n
  used : Fin n

namespace CounterMode

section Definitions

variable (keyBlock : γ → Vector α n) (next : γ → γ) (mix : α → α → α)

/-- A new block of keystream, if the current one is used up. -/
def refill (s : CounterMode γ α n) : CounterMode γ α n :=
  if s.used.val = 0 then { s with counter := next s.counter, block := keyBlock s.counter } else s

def mixOne (s : CounterMode γ α n) (x : α) : α × CounterMode γ α n :=
  let s := refill keyBlock next s
  (mix x (s.block.get s.used), { s with used := ⟨(s.used.val + 1) % n,Nat.mod_lt _ s.used.pos⟩ })

def mixAll (s : CounterMode γ α n) : List α → List α × CounterMode γ α n
  | [] => ([],s)
  | x :: xs =>
    ((mixOne keyBlock next mix s x).1 :: (mixAll (mixOne keyBlock next mix s x).2 xs).1,
      (mixAll (mixOne keyBlock next mix s x).2 xs).2)

/-- The counters the block function is applied to. -/
def counters (s : CounterMode γ α n) : List α → List γ
  | [] => []
  | x :: xs =>
    (if s.used.val = 0 then [s.counter] else []) ++ counters (mixOne keyBlock next mix s x).2 xs

/-- Entry `p` of the keystream from `c`. -/
def keystream (hn : 0 < n) (c : γ) (p : Nat) : α :=
  (keyBlock (next^[p / n] c)).get ⟨p % n,Nat.mod_lt _ hn⟩

/-- The state is `p` entries behind a start from `c`. -/
structure At (c : γ) (p : Nat) (s : CounterMode γ α n) : Prop where
  used : s.used.val = p % n
  fresh : p % n = 0 → s.counter = next^[p / n] c
  counter : p % n ≠ 0 → s.counter = next^[p / n + 1] c
  block : p % n ≠ 0 → s.block = keyBlock (next^[p / n] c)

end Definitions

variable {keyBlock : γ → Vector α n} {next : γ → γ} (mix : α → α → α)
variable {c : γ} {p : Nat} {s : CounterMode γ α n}

theorem at_zero (hcounter : s.counter = c) (hused : s.used.val = 0) : At keyBlock next c 0 s where
  used := by rw [hused,Nat.zero_mod]
  fresh := fun _ => by rw [hcounter,Nat.zero_div,Function.iterate_zero_apply]
  counter := fun h => absurd (Nat.zero_mod n) h
  block := fun h => absurd (Nat.zero_mod n) h

private theorem refill_at (h : At keyBlock next c p s) :
    (refill keyBlock next s).used = s.used ∧
      (refill keyBlock next s).counter = next^[p / n + 1] c ∧
      (refill keyBlock next s).block = keyBlock (next^[p / n] c) := by
  unfold refill
  split
  next hzero =>
    have hcounter := h.fresh (h.used.symm.trans hzero)
    refine ⟨rfl,?_,by rw [hcounter]⟩
    rw [hcounter,Function.iterate_succ_apply']
  next hrest =>
    have hne : p % n ≠ 0 := by rwa [← h.used]
    exact ⟨rfl,h.counter hne,h.block hne⟩

theorem mixOne_at (hn : 0 < n) (h : At keyBlock next c p s) (x : α) :
    (mixOne keyBlock next mix s x).1 = mix x (keystream keyBlock next hn c p) ∧
      At keyBlock next c (p + 1) (mixOne keyBlock next mix s x).2 := by
  have hrefill := refill_at h
  have hused : (refill keyBlock next s).used.val = p % n := by rw [hrefill.1,h.used]
  constructor
  · have hfin : (refill keyBlock next s).used = ⟨p % n,Nat.mod_lt _ hn⟩ := Fin.ext hused
    change mix x ((refill keyBlock next s).block.get (refill keyBlock next s).used) = _
    rw [hrefill.2.2,hfin,keystream]
  · have hplace : ((refill keyBlock next s).used.val + 1) % n = (p + 1) % n := by
      rw [hused,Nat.mod_add_mod]
    refine ⟨hplace,?_,?_,?_⟩
    · intro hwhole
      rw [Nat.succ_div_of_dvd (Nat.dvd_of_mod_eq_zero hwhole)]
      exact hrefill.2.1
    · intro hpart
      rw [Nat.succ_div_of_not_dvd (fun hd => hpart (Nat.mod_eq_zero_of_dvd hd))]
      exact hrefill.2.1
    · intro hpart
      rw [Nat.succ_div_of_not_dvd (fun hd => hpart (Nat.mod_eq_zero_of_dvd hd))]
      exact hrefill.2.2

theorem mixAll_at (hn : 0 < n) (h : At keyBlock next c p s) (xs : List α) :
    (mixAll keyBlock next mix s xs).1 =
        xs.mapIdx (fun i x => mix x (keystream keyBlock next hn c (p + i))) ∧
      At keyBlock next c (p + xs.length) (mixAll keyBlock next mix s xs).2 := by
  induction xs generalizing p s with
  | nil => exact ⟨rfl,h⟩
  | cons x xs ih =>
    have hone := mixOne_at mix hn h x
    have hrest := ih hone.2
    constructor
    · rw [List.mapIdx_cons,mixAll,hone.1,hrest.1]
      simp only [Nat.add_zero,Nat.add_assoc,Nat.add_comm 1]
    · rw [List.length_cons,Nat.add_comm xs.length,← Nat.add_assoc]
      exact hrest.2

theorem counters_at (hn : 0 < n) (h : At keyBlock next c p s) {xs : List α} {d : γ}
    (hd : d ∈ counters keyBlock next mix s xs) : ∃ j, j * n < p + xs.length ∧ d = next^[j] c := by
  induction xs generalizing p s with
  | nil => cases hd
  | cons x xs ih =>
    rw [counters,List.mem_append] at hd
    cases hd with
    | inl hd =>
      split_ifs at hd with hzero
      · refine ⟨p / n,?_,?_⟩
        · have hle := Nat.div_mul_le_self p n
          rw [List.length_cons]
          omega
        · rw [List.mem_singleton.mp hd]
          exact h.fresh (h.used.symm.trans hzero)
      · cases hd
    | inr hd =>
      have hrest := ih (mixOne_at mix hn h x).2 hd
      rwa [Nat.add_assoc,Nat.add_comm 1] at hrest

theorem mapIdx_mix_mix (hmix : ∀ x y, mix (mix x y) y = x) (f : Nat → α) (xs : List α) :
    (xs.mapIdx fun i x => mix x (f i)).mapIdx (fun i x => mix x (f i)) = xs := by
  apply List.ext_getElem
  · rw [List.length_mapIdx,List.length_mapIdx]
  · intro i hi hi'
    rw [List.getElem_mapIdx,List.getElem_mapIdx,hmix]

end CounterMode

end Esp32Ipc.Framework
