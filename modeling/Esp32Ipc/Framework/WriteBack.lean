import Mathlib.Data.Set.Basic
import Mathlib.Tactic

/-!
# A memory behind a write-back cache

The processor reads and stores through the cache, other masters read and write the memory itself.
The cache loads, writes back and evicts lines when it likes. Where the processor sees `v` in a set of
cells, only the lines that it stored to since they were last written back can hold something the
memory does not, and a set that another master writes to is safe as long as no such line is left.
-/

namespace Esp32Ipc.Framework

/-- What the cache holds of a line, by the address of the cell. -/
structure CacheLine (α β : Type*) where
  data : α → β
  dirty : Bool

structure WriteBack (α κ β : Type*) where
  mem : α → β
  line : κ → Option (CacheLine α β)

variable {α κ β : Type*}

namespace WriteBack

/-- The line as the processor sees it. -/
def copy (c : WriteBack α κ β) (k : κ) : α → β := (c.line k).elim c.mem CacheLine.data

/-- A read by the processor. -/
def load (lineOf : α → κ) (c : WriteBack α κ β) (a : α) : β := c.copy (lineOf a) a

/-- The lines of `p` are invalidated: what they hold is lost. -/
def drop (c : WriteBack α κ β) (p : κ → Bool) : WriteBack α κ β :=
  { c with line := fun k => if p k then none else c.line k }

/-- Another master writes a cell. -/
def dma [DecidableEq α] (c : WriteBack α κ β) (a : α) (b : β) : WriteBack α κ β :=
  { c with mem := Function.update c.mem a b }

theorem drop_line (c : WriteBack α κ β) (p : κ → Bool) (k : κ) :
    (c.drop p).line k = if p k then none else c.line k := rfl

@[simp] theorem dma_mem [DecidableEq α] (c : WriteBack α κ β) (a : α) (b : β) :
    (c.dma a b).mem = Function.update c.mem a b := rfl

variable [DecidableEq κ] (lineOf : α → κ)

def setLine (c : WriteBack α κ β) (k : κ) (l : Option (CacheLine α β)) : WriteBack α κ β :=
  { c with line := Function.update c.line k l }

def fill (c : WriteBack α κ β) (k : κ) : WriteBack α κ β :=
  match c.line k with
  | some _ => c
  | none => c.setLine k (some ⟨c.mem,false⟩)

/-- The memory with the cells of a line taken from the cache. -/
def memWith (c : WriteBack α κ β) (k : κ) (data : α → β) : α → β :=
  fun a => if lineOf a = k then data a else c.mem a

/-- The line is written back and stays. -/
def clean (c : WriteBack α κ β) (k : κ) : WriteBack α κ β :=
  match c.line k with
  | some ⟨data,true⟩ => { c with mem := c.memWith lineOf k data }.setLine k (some ⟨data,false⟩)
  | _ => c

def evict (c : WriteBack α κ β) (k : κ) : WriteBack α κ β := (c.clean lineOf k).setLine k none

/-- A store by the processor: the line is loaded first if it has to be. -/
def store [DecidableEq α] (c : WriteBack α κ β) (a : α) (b : β) : WriteBack α κ β :=
  c.setLine (lineOf a) (some ⟨Function.update (c.copy (lineOf a)) a b,true⟩)

section SetLine

variable (c : WriteBack α κ β) (k : κ) (l : Option (CacheLine α β))

@[simp] theorem setLine_mem : (c.setLine k l).mem = c.mem := rfl

@[simp] theorem setLine_line : (c.setLine k l).line k = l := Function.update_self _ _ _

theorem setLine_other {x : κ} (h : x ≠ k) : (c.setLine k l).line x = c.line x :=
  Function.update_of_ne h _ _

theorem fill_cases : c.fill k = c ∨ c.line k = none ∧ c.fill k = c.setLine k (some ⟨c.mem,false⟩) := by
  rw [fill]
  cases c.line k with
  | some l => exact .inl rfl
  | none => exact .inr ⟨rfl,rfl⟩

theorem clean_cases : (c.clean lineOf k = c ∧ ∀ l, c.line k = some l → l.dirty = false) ∨
    ∃ data, c.line k = some ⟨data,true⟩ ∧ c.clean lineOf k =
      { c with mem := c.memWith lineOf k data }.setLine k (some ⟨data,false⟩) := by
  rw [clean]
  rcases hl : c.line k with _ | ⟨data,_ | _⟩
  · exact .inl ⟨rfl,nofun⟩
  · exact .inl ⟨rfl,fun l h => Option.some.inj h ▸ rfl⟩
  · exact .inr ⟨data,rfl,rfl⟩

end SetLine

end WriteBack

/-- What the cache does on its own, or on the request of a driver that writes something back. -/
inductive CacheOp (κ : Type*) where
  | fill (k : κ)
  | clean (k : κ)
  | evict (k : κ)
  deriving DecidableEq

def WriteBack.move [DecidableEq κ] (lineOf : α → κ) (c : WriteBack α κ β) : CacheOp κ → WriteBack α κ β
  | .fill k => c.fill k
  | .clean k => c.clean lineOf k
  | .evict k => c.evict lineOf k

/-- The set is made of whole lines. -/
def WholeLines (lineOf : α → κ) (S : Set α) : Prop := ∀ a b, lineOf a = lineOf b → a ∈ S → b ∈ S

/-- In the cells of `S` the processor sees `v`, and what the memory does not have of it is in lines of
`D`. -/
structure Tracks (lineOf : α → κ) (c : WriteBack α κ β) (S : Set α) (v : α → β) (D : Set κ) : Prop where
  seen : ∀ a ∈ S, ∀ l, c.line (lineOf a) = some l → l.data a = v a
  kept : ∀ a ∈ S, c.mem a = v a ∨ ∃ l, c.line (lineOf a) = some l ∧ l.dirty = true
  within : ∀ a ∈ S, ∀ l, c.line (lineOf a) = some l → l.dirty = true → lineOf a ∈ D

/-- Another master has written `v` to the cells of `S`, and the cache has nothing to write back to
them. -/
structure Untouched (lineOf : α → κ) (c : WriteBack α κ β) (S : Set α) (v : α → β) : Prop where
  mem : ∀ a ∈ S, c.mem a = v a
  clean : ∀ a ∈ S, ∀ l, c.line (lineOf a) = some l → l.dirty = false

section Rules

variable {lineOf : α → κ} {c : WriteBack α κ β} {S : Set α} {v : α → β} {D D' : Set κ} {a : α} {b : β}
  {k : κ} {p : κ → Bool}

theorem Tracks.mono (h : Tracks lineOf c S v D) (hsub : D ⊆ D') : Tracks lineOf c S v D' :=
  ⟨h.seen,h.kept,fun a ha l hl hdirty => hsub (h.within a ha l hl hdirty)⟩

theorem Tracks.untouched (h : Tracks lineOf c S v ∅) : Untouched lineOf c S v := by
  have hclean : ∀ a ∈ S, ∀ l, c.line (lineOf a) = some l → l.dirty = false := by
    intro a ha l hl
    exact Bool.eq_false_iff.mpr fun hdirty => h.within a ha l hl hdirty
  refine ⟨?_,hclean⟩
  intro a ha
  rcases h.kept a ha with hmem | ⟨l,hl,hdirty⟩
  · exact hmem
  · exact absurd hdirty (Bool.eq_false_iff.mp (hclean a ha l hl))

theorem Tracks.load (h : Tracks lineOf c S v D) (ha : a ∈ S) : c.load lineOf a = v a := by
  unfold WriteBack.load WriteBack.copy
  cases hl : c.line (lineOf a) with
  | some l => exact h.seen a ha l hl
  | none =>
    rcases h.kept a ha with hmem | ⟨l,hsome,_⟩
    · exact hmem
    · exact absurd (hl.symm.trans hsome) nofun

theorem Tracks.congr {c' : WriteBack α κ β} {v' : α → β} (h : Tracks lineOf c S v D)
    (hline : ∀ a ∈ S, c'.line (lineOf a) = c.line (lineOf a)) (hmem : ∀ a ∈ S, c'.mem a = c.mem a)
    (hv : ∀ a ∈ S, v' a = v a) : Tracks lineOf c' S v' D := by
  constructor
  · intro a ha l hl
    rw [hv a ha]
    exact h.seen a ha l (hline a ha ▸ hl)
  · intro a ha
    rw [hline a ha,hmem a ha,hv a ha]
    exact h.kept a ha
  · intro a ha l hl
    exact h.within a ha l (hline a ha ▸ hl)

theorem Untouched.congr {c' : WriteBack α κ β} {v' : α → β} (h : Untouched lineOf c S v)
    (hline : ∀ a ∈ S, c'.line (lineOf a) = c.line (lineOf a)) (hmem : ∀ a ∈ S, c'.mem a = c.mem a)
    (hv : ∀ a ∈ S, v' a = v a) : Untouched lineOf c' S v' := by
  constructor
  · intro a ha
    rw [hmem a ha,hv a ha]
    exact h.mem a ha
  · intro a ha l hl
    exact h.clean a ha l (hline a ha ▸ hl)

theorem drop_line_none (hp : ∀ a ∈ S, p (lineOf a) = true) (ha : a ∈ S) :
    (c.drop p).line (lineOf a) = none := by
  rw [WriteBack.drop_line,if_pos (hp a ha)]

theorem Untouched.drop (h : Untouched lineOf c S v) (hp : ∀ a ∈ S, p (lineOf a) = true) :
    Tracks lineOf (c.drop p) S v ∅ := by
  constructor
  · intro a ha l hl
    exact absurd ((drop_line_none hp ha).symm.trans hl) nofun
  · intro a ha
    exact .inl (h.mem a ha)
  · intro a ha l hl
    exact absurd ((drop_line_none hp ha).symm.trans hl) nofun

/-- An invalidation before the other master begins: stores that were not written back are lost. -/
theorem untouched_drop (hp : ∀ a ∈ S, p (lineOf a) = true) : Untouched lineOf (c.drop p) S c.mem := by
  refine ⟨fun _ _ => rfl,?_⟩
  intro a ha l hl
  exact absurd ((drop_line_none hp ha).symm.trans hl) nofun

theorem drop_line_other (hp : ∀ a ∈ S, p (lineOf a) = false) :
    ∀ a ∈ S, (c.drop p).line (lineOf a) = c.line (lineOf a) := by
  intro a ha
  rw [WriteBack.drop_line,if_neg (by simp [hp a ha])]

section Dma

variable [DecidableEq α]

theorem update_other {γ : Type*} (f : α → γ) (b : γ) (ha : a ∉ S) :
    ∀ x ∈ S, Function.update f a b x = f x := by
  intro x hx
  apply Function.update_of_ne
  rintro rfl
  exact ha hx

theorem Untouched.dma (h : Untouched lineOf c S v) (a : α) (b : β) :
    Untouched lineOf (c.dma a b) S (Function.update v a b) := by
  refine ⟨?_,h.clean⟩
  intro x hx
  rw [WriteBack.dma_mem]
  by_cases hxa : x = a
  · rw [hxa,Function.update_self,Function.update_self]
  · rw [Function.update_of_ne hxa,Function.update_of_ne hxa]
    exact h.mem x hx

theorem Tracks.dma_other (h : Tracks lineOf c S v D) (ha : a ∉ S) :
    Tracks lineOf (c.dma a b) S (Function.update v a b) D :=
  h.congr (fun _ _ => rfl) (update_other _ _ ha) (update_other _ _ ha)

theorem Untouched.dma_other (h : Untouched lineOf c S v) (ha : a ∉ S) :
    Untouched lineOf (c.dma a b) S (Function.update v a b) :=
  h.congr (fun _ _ => rfl) (update_other _ _ ha) (update_other _ _ ha)

end Dma

theorem Tracks.mem_of_clean (h : Tracks lineOf c S v D) (ha : a ∈ S)
    (hclean : ∀ l, c.line (lineOf a) = some l → l.dirty = false) : c.mem a = v a := by
  rcases h.kept a ha with hmem | ⟨l,hl,hdirty⟩
  · exact hmem
  · exact absurd hdirty (Bool.eq_false_iff.mp (hclean l hl))

theorem Tracks.change {c' : WriteBack α κ β} {v' : α → β} (h : Tracks lineOf c S v D) (k : κ)
    (hline : ∀ x, x ≠ k → c'.line x = c.line x) (hmem : ∀ a ∈ S, lineOf a ≠ k → c'.mem a = c.mem a)
    (hv : ∀ a ∈ S, lineOf a ≠ k → v' a = v a) (hD : ∀ x ∈ D, x ≠ k → x ∈ D')
    (hseen : ∀ l, c'.line k = some l → (∀ a ∈ S, lineOf a = k → l.data a = v' a) ∧ (l.dirty = true → k ∈ D'))
    (hkept : ∀ a ∈ S, lineOf a = k → c'.mem a = v' a ∨ ∃ l, c'.line k = some l ∧ l.dirty = true) :
    Tracks lineOf c' S v' D' := by
  constructor
  · intro a ha l hl
    by_cases hk : lineOf a = k
    · exact (hseen l (hk ▸ hl)).1 a ha hk
    · rw [hv a ha hk]
      exact h.seen a ha l ((hline _ hk).symm.trans hl)
  · intro a ha
    by_cases hk : lineOf a = k
    · rw [hk]
      exact hkept a ha hk
    · rw [hline _ hk,hmem a ha hk,hv a ha hk]
      exact h.kept a ha
  · intro a ha l hl hdirty
    by_cases hk : lineOf a = k
    · exact hk ▸ (hseen l (hk ▸ hl)).2 hdirty
    · exact hD _ (h.within a ha l ((hline _ hk).symm.trans hl) hdirty) hk

section Cache

variable [DecidableEq κ]

theorem Tracks.fill (h : Tracks lineOf c S v D) (k : κ) : Tracks lineOf (c.fill k) S v D := by
  rcases c.fill_cases k with hfill | ⟨hnone,hfill⟩ <;> rw [hfill]
  · exact h
  have hmem : ∀ a ∈ S, lineOf a = k → c.mem a = v a := by
    intro a ha hk
    apply h.mem_of_clean ha
    rw [hk,hnone]
    exact nofun
  apply h.change k (fun x => c.setLine_other k _) (fun _ _ _ => rfl) (fun _ _ _ => rfl) (fun x hx _ => hx)
  · intro l hl
    rw [WriteBack.setLine_line,Option.some.injEq] at hl
    subst l
    exact ⟨hmem,nofun⟩
  · intro a ha hk
    exact .inl (hmem a ha hk)

theorem Tracks.clean (h : Tracks lineOf c S v D) (k : κ) :
    Tracks lineOf (c.clean lineOf k) S v (D \ {k}) := by
  rcases c.clean_cases lineOf k with ⟨hclean,hnot⟩ | ⟨data,hdata,hclean⟩ <;> rw [hclean]
  · refine ⟨h.seen,h.kept,?_⟩
    intro a ha l hl hdirty
    refine ⟨h.within a ha l hl hdirty,?_⟩
    intro hk
    exact absurd hdirty (Bool.eq_false_iff.mp (hnot l (Set.mem_singleton_iff.mp hk ▸ hl)))
  have hseen : ∀ a ∈ S, lineOf a = k → data a = v a := fun a ha hk => h.seen a ha _ (hk ▸ hdata)
  apply h.change k
  · exact fun x hx => WriteBack.setLine_other _ k _ hx
  · exact fun a _ hk => if_neg hk
  · exact fun _ _ _ => rfl
  · exact fun x hx hk => ⟨hx,hk⟩
  · intro l hl
    rw [WriteBack.setLine_line,Option.some.injEq] at hl
    subst l
    exact ⟨hseen,nofun⟩
  · intro a ha hk
    exact .inl ((if_pos hk).trans (hseen a ha hk))

theorem Tracks.evict (h : Tracks lineOf c S v D) (k : κ) : Tracks lineOf (c.evict lineOf k) S v D := by
  have hclean := h.clean k
  apply hclean.change k (fun x => WriteBack.setLine_other _ k _) (fun _ _ _ => rfl) (fun _ _ _ => rfl)
  · exact fun x hx _ => hx.1
  · intro l hl
    exact absurd ((WriteBack.setLine_line _ _ _).symm.trans hl) nofun
  · intro a ha hk
    apply Or.inl
    apply hclean.mem_of_clean ha
    intro l hl
    exact Bool.eq_false_iff.mpr fun hdirty => (hclean.within a ha l hl hdirty).2 hk

/-- Nothing the cache does on its own changes what the processor sees or leaves more to write back. -/
theorem Tracks.move (h : Tracks lineOf c S v D) (op : CacheOp κ) : Tracks lineOf (c.move lineOf op) S v D := by
  cases op with
  | fill k => exact h.fill k
  | clean k => exact (h.clean k).mono Set.sdiff_subset
  | evict k => exact h.evict k

theorem Untouched.setLine (h : Untouched lineOf c S v) (k : κ) {l : Option (CacheLine α β)}
    (hl : ∀ l', l = some l' → l'.dirty = false) : Untouched lineOf (c.setLine k l) S v := by
  refine ⟨h.mem,?_⟩
  intro a ha l' hl'
  by_cases hk : lineOf a = k
  · rw [hk,WriteBack.setLine_line] at hl'
    exact hl l' hl'
  · rw [WriteBack.setLine_other _ _ _ hk] at hl'
    exact h.clean a ha l' hl'

theorem Untouched.writeBack (h : Untouched lineOf c S v) (k : κ) : Untouched lineOf (c.clean lineOf k) S v := by
  rcases c.clean_cases lineOf k with ⟨hclean,-⟩ | ⟨data,hdata,hclean⟩ <;> rw [hclean]
  · exact h
  have hother : ∀ a ∈ S, lineOf a ≠ k := by
    intro a ha hk
    cases h.clean a ha _ (hk ▸ hdata)
  apply h.congr
  · intro a ha
    exact WriteBack.setLine_other _ _ _ (hother a ha)
  · intro a ha
    exact if_neg (hother a ha)
  · exact fun _ _ => rfl

/-- Another master's cells stay as it wrote them whatever the cache does. -/
theorem Untouched.move (h : Untouched lineOf c S v) (op : CacheOp κ) :
    Untouched lineOf (c.move lineOf op) S v := by
  cases op with
  | fill k =>
    rcases c.fill_cases k with hfill | ⟨-,hfill⟩ <;> rw [WriteBack.move,hfill]
    · exact h
    · exact h.setLine k fun l' hl' => Option.some.inj hl' ▸ rfl
  | clean k => exact h.writeBack k
  | evict k => exact (h.writeBack k).setLine k (by simp)

variable [DecidableEq α]

theorem Tracks.store (h : Tracks lineOf c S v D) (a : α) (b : β) (hD : lineOf a ∈ D) :
    Tracks lineOf (c.store lineOf a b) S (Function.update v a b) D := by
  apply h.change (lineOf a) (fun x => WriteBack.setLine_other _ _ _) (fun _ _ _ => rfl)
  · intro x _ hk
    exact Function.update_of_ne (fun hxa => hk (congrArg lineOf hxa)) _ _
  · exact fun x hx _ => hx
  · intro l hl
    obtain rfl := Option.some.inj ((WriteBack.setLine_line _ _ _).symm.trans hl)
    refine ⟨?_,fun _ => hD⟩
    intro x hx hk
    change Function.update (c.copy (lineOf a)) a b x = Function.update v a b x
    by_cases hxa : x = a
    · rw [hxa,Function.update_self,Function.update_self]
    · rw [Function.update_of_ne hxa,Function.update_of_ne hxa,← hk]
      exact h.load hx
  · intro x _ _
    exact .inr ⟨_,WriteBack.setLine_line _ _ _,rfl⟩

theorem store_line_other (hS : WholeLines lineOf S) (ha : a ∉ S) :
    ∀ x ∈ S, (c.store lineOf a b).line (lineOf x) = c.line (lineOf x) := by
  intro x hx
  exact WriteBack.setLine_other _ _ _ fun hk => ha (hS x a hk hx)

theorem Tracks.store_other (h : Tracks lineOf c S v D) (hS : WholeLines lineOf S) (ha : a ∉ S) :
    Tracks lineOf (c.store lineOf a b) S (Function.update v a b) D :=
  h.congr (store_line_other hS ha) (fun _ _ => rfl) (update_other _ _ ha)

theorem Untouched.store_other (h : Untouched lineOf c S v) (hS : WholeLines lineOf S) (ha : a ∉ S) :
    Untouched lineOf (c.store lineOf a b) S (Function.update v a b) :=
  h.congr (store_line_other hS ha) (fun _ _ => rfl) (update_other _ _ ha)

end Cache

end Rules

end Esp32Ipc.Framework
