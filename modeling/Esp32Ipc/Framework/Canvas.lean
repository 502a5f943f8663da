import Mathlib.Data.Set.Basic
import Mathlib.Tactic

/-!
# Painting a memory

When every store puts the colour that belongs to its cell, the order of the stores and their number
do not matter: the result is determined by the set of cells that were painted.
-/

namespace Esp32Ipc.Framework

/-- A memory and the history of the cells stored to. -/
structure Canvas (α β : Type*) where
  cell : α → β
  stored : List α

variable {α β : Type*}

def Canvas.store [DecidableEq α] (c : Canvas α β) (a : α) (b : β) : Canvas α β :=
  ⟨Function.update c.cell a b,a :: c.stored⟩

/-- The stores `w`, one after the other. -/
def Canvas.replay [DecidableEq α] (c : Canvas α β) (w : List (α × β)) : Canvas α β :=
  w.foldl (fun c s => c.store s.1 s.2) c

/-- The cells stored to, in order, with what they hold now. -/
def Canvas.stores (c : Canvas α β) : List (α × β) := c.stored.reverse.map fun a => (a,c.cell a)

/-- The cells of `S` are stored to, and each holds what `R` allows it. -/
structure Writes (R : α → β → Prop) (S : Set α) (c c' : Canvas α β) : Prop where
  inside : ∀ a ∈ S, R a (c'.cell a)
  outside : ∀ a ∉ S, c'.cell a = c.cell a
  stored : ∀ a, a ∈ c'.stored ↔ a ∈ S ∨ a ∈ c.stored

/-- `c'` is `c` with the cells of `S` in their colours. -/
structure Paints (colour : α → β) (S : Set α) (c c' : Canvas α β) : Prop where
  inside : ∀ a ∈ S, c'.cell a = colour a
  outside : ∀ a ∉ S, c'.cell a = c.cell a
  stored : ∀ a, a ∈ c'.stored ↔ a ∈ S ∨ a ∈ c.stored

section Writes

variable {R : α → β → Prop} {S T : Set α} {c c' c'' : Canvas α β}

theorem Writes.none : Writes R ∅ c c := ⟨by simp,by simp,by simp⟩

theorem Writes.store [DecidableEq α] {a : α} {b : β} (h : R a b) : Writes R {a} c (c.store a b) where
  inside := by
    intro x hx
    have hself : (c.store a b).cell a = b := Function.update_self _ _ _
    rw [Set.mem_singleton_iff.mp hx,hself]
    exact h
  outside := by
    intro x hx
    exact Function.update_of_ne hx _ _
  stored := by simp [Canvas.store]

theorem Writes.trans (h : Writes R S c c') (h' : Writes R T c' c'') : Writes R (S ∪ T) c c'' where
  inside := by
    intro a ha
    by_cases hT : a ∈ T
    · exact h'.inside a hT
    · rw [h'.outside a hT]
      exact h.inside a (ha.resolve_right hT)
  outside := by
    intro a ha
    rw [Set.mem_union,not_or] at ha
    rw [h'.outside a ha.2,h.outside a ha.1]
  stored := by
    intro a
    rw [h'.stored,h.stored,Set.mem_union]
    tauto

theorem Writes.congr (h : Writes R S c c') (hST : S = T) : Writes R T c c' := hST ▸ h

theorem Writes.foldl {ι : Type*} {f : Canvas α β → ι → Canvas α β} {S : ι → Set α} (l : List ι)
    (h : ∀ i ∈ l, ∀ c, Writes R (S i) c (f c i)) (c : Canvas α β) :
    Writes R {a | ∃ i ∈ l, a ∈ S i} c (l.foldl f c) := by
  induction l generalizing c with
  | nil => exact Writes.none.congr (by simp)
  | cons i l ih =>
    have hi := h i List.mem_cons_self c
    have hl := ih (fun j hj => h j (List.mem_cons_of_mem _ hj)) (f c i)
    apply (hi.trans hl).congr
    ext a
    simp

end Writes

theorem paints_iff {colour : α → β} {S : Set α} {c c' : Canvas α β} :
    Paints colour S c c' ↔ Writes (fun a b => b = colour a) S c c' :=
  ⟨fun h => ⟨h.inside,h.outside,h.stored⟩,fun h => ⟨h.inside,h.outside,h.stored⟩⟩

theorem Paints.unique {colour : α → β} {S : Set α} {c c' c'' : Canvas α β}
    (h : Paints colour S c c') (h' : Paints colour S c c'') : c'.cell = c''.cell := by
  funext a
  by_cases ha : a ∈ S
  · rw [h.inside a ha,h'.inside a ha]
  · rw [h.outside a ha,h'.outside a ha]

section Replay

variable [DecidableEq α] {c d : Canvas α β} {a : α} {w : List (α × β)} {f g : Canvas α β → Canvas α β}

@[simp] theorem Canvas.replay_nil (c : Canvas α β) : c.replay [] = c := rfl

theorem Canvas.replay_cons (c : Canvas α β) (s : α × β) (w : List (α × β)) :
    c.replay (s :: w) = (c.store s.1 s.2).replay w := rfl

theorem Canvas.replay_append (c : Canvas α β) (w w' : List (α × β)) :
    c.replay (w ++ w') = (c.replay w).replay w' := List.foldl_append

theorem Canvas.replay_concat (c : Canvas α β) (w : List (α × β)) (s : α × β) :
    c.replay (w ++ [s]) = (c.replay w).store s.1 s.2 := c.replay_append w [s]

theorem Canvas.replay_concat_cell (c : Canvas α β) (w : List (α × β)) (s : α × β) (a : α) :
    (c.replay (w ++ [s])).cell a = if a = s.1 then s.2 else (c.replay w).cell a := by
  rw [Canvas.replay_concat]
  exact Function.update_apply _ _ _ _

theorem Canvas.replay_stored (c : Canvas α β) (w : List (α × β)) :
    (c.replay w).stored = (w.map Prod.fst).reverse ++ c.stored := by
  induction w using List.reverseRecOn with
  | nil => rfl
  | append_singleton w s ih =>
    rw [Canvas.replay_concat,Canvas.store,ih]
    simp

theorem Canvas.replay_cell_of_notMem (h : a ∉ w.map Prod.fst) : (c.replay w).cell a = c.cell a := by
  induction w using List.reverseRecOn with
  | nil => rfl
  | append_singleton w s ih =>
    rw [List.map_append,List.mem_append,not_or] at h
    rw [Canvas.replay_concat_cell,if_neg (by simpa using h.2)]
    exact ih h.1

theorem Canvas.replay_cell_of_mem (h : a ∈ w.map Prod.fst) :
    (c.replay w).cell a = (d.replay w).cell a := by
  induction w using List.reverseRecOn with
  | nil => cases h
  | append_singleton w s ih =>
    rw [Canvas.replay_concat_cell,Canvas.replay_concat_cell]
    by_cases ha : a = s.1
    · rw [if_pos ha,if_pos ha]
    · rw [if_neg ha,if_neg ha]
      apply ih
      simpa [ha] using h

theorem Canvas.replay_cell_congr (h : c.cell a = d.cell a) (w : List (α × β)) :
    (c.replay w).cell a = (d.replay w).cell a := by
  by_cases ha : a ∈ w.map Prod.fst
  · exact Canvas.replay_cell_of_mem ha
  · rw [Canvas.replay_cell_of_notMem ha,Canvas.replay_cell_of_notMem ha,h]

theorem Canvas.replay_map_cell {γ : Type*} [DecidableEq γ] {e : α → γ} (he : Function.Injective e)
    (f : γ → β) (w : List (α × β)) (a : α) :
    ((⟨f,[]⟩ : Canvas γ β).replay (w.map fun s => (e s.1,s.2))).cell (e a) =
      ((⟨fun x => f (e x),[]⟩ : Canvas α β).replay w).cell a := by
  induction w using List.reverseRecOn with
  | nil => rfl
  | append_singleton w s ih =>
    rw [List.map_append,List.map_singleton,Canvas.replay_concat_cell,Canvas.replay_concat_cell,ih]
    by_cases ha : a = s.1
    · rw [if_pos ha,if_pos (congrArg e ha)]
    · rw [if_neg ha,if_neg fun h => ha (he h)]

theorem Canvas.replay_cell_fixed {v : α → β} (h : ∀ s ∈ w, s.2 = v s.1) (ha : a ∈ w.map Prod.fst) :
    (c.replay w).cell a = v a := by
  induction w using List.reverseRecOn with
  | nil => cases ha
  | append_singleton w s ih =>
    rw [Canvas.replay_concat_cell]
    by_cases has : a = s.1
    · rw [if_pos has,has]
      exact h s (List.mem_append_right _ (List.mem_singleton_self s))
    · rw [if_neg has]
      apply ih (fun s' hs' => h s' (List.mem_append_left _ hs'))
      simpa [has] using ha

/-- `f` is a fixed list of stores. -/
def Replays (f : Canvas α β → Canvas α β) : Prop := ∃ w, ∀ c, f c = c.replay w

theorem Replays.none : Replays (fun c : Canvas α β => c) := ⟨[],fun _ => rfl⟩

theorem Replays.store (a : α) (b : β) : Replays fun c : Canvas α β => c.store a b :=
  ⟨[(a,b)],fun _ => rfl⟩

theorem Replays.comp (hf : Replays f) (hg : Replays g) : Replays fun c => g (f c) := by
  obtain ⟨w,hw⟩ := hf
  obtain ⟨w',hw'⟩ := hg
  refine ⟨w ++ w',?_⟩
  intro c
  dsimp only
  rw [hw',hw,Canvas.replay_append]

theorem Replays.foldl {ι : Type*} {f : Canvas α β → ι → Canvas α β} (l : List ι)
    (h : ∀ i ∈ l, Replays fun c => f c i) : Replays fun c => l.foldl f c := by
  induction l with
  | nil => exact Replays.none
  | cons i l ih =>
    exact (h i List.mem_cons_self).comp (ih fun j hj => h j (List.mem_cons_of_mem _ hj))

/-- What such an `f` does can be read off an empty canvas. -/
theorem Replays.eq_stores (h : Replays f) (v : α → β) (c : Canvas α β) :
    f c = c.replay (f ⟨v,[]⟩).stores := by
  obtain ⟨w,hw⟩ := h
  have hstores : (f ⟨v,[]⟩).stores = (w.map Prod.fst).map fun a => (a,(f ⟨v,[]⟩).cell a) := by
    rw [Canvas.stores,hw,Canvas.replay_stored,List.append_nil,List.reverse_reverse]
  have hfst : (f ⟨v,[]⟩).stores.map Prod.fst = w.map Prod.fst := by
    rw [hstores,List.map_map]
    exact List.map_id _
  have hcell : (f c).cell = (c.replay (f ⟨v,[]⟩).stores).cell := by
    funext a
    by_cases ha : a ∈ w.map Prod.fst
    · rw [hw,Canvas.replay_cell_of_mem (d := ⟨v,[]⟩) ha,← hw]
      refine (Canvas.replay_cell_fixed (v := (f ⟨v,[]⟩).cell) ?_ (hfst ▸ ha)).symm
      intro s hs
      rw [hstores] at hs
      obtain ⟨x,-,rfl⟩ := List.mem_map.mp hs
      rfl
    · rw [hw,Canvas.replay_cell_of_notMem ha,Canvas.replay_cell_of_notMem (by rw [hfst]; exact ha)]
  have hstored : (f c).stored = (c.replay (f ⟨v,[]⟩).stores).stored := by
    rw [hw c,Canvas.replay_stored,Canvas.replay_stored,hfst]
  exact congrArg₂ Canvas.mk hcell hstored

end Replay

end Esp32Ipc.Framework
