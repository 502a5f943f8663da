import Mathlib.Data.List.Basic
import Mathlib.Data.List.Nodup
import Mathlib.Logic.Function.Basic
import Mathlib.Tactic

/-!
# Singly linked lists threaded through their cells

The links are one function from a cell to its successor, shared by every list, as in an
intrusive list whose node field lives in the element. `Linked` reads the cells of one list off
that function; such a list is finite and ends, so it can neither be cyclic nor meet a cell twice.
-/

namespace Esp32Ipc.Framework

variable {ι : Type*} {next next' : ι → Option ι} {head : Option ι} {cells : List ι}

/-- Following `next` from `head` meets exactly `cells`, in order, and then stops. -/
def Linked (next : ι → Option ι) : Option ι → List ι → Prop
  | head, [] => head = none
  | head, a :: cells => head = some a ∧ Linked next (next a) cells

/-- The cell met after `k` links. -/
def follow (next : ι → Option ι) : Nat → Option ι → Option ι
  | 0, p => p
  | k + 1, p => follow next k (p.bind next)

@[simp] theorem linked_nil : Linked next head [] ↔ head = none := Iff.rfl

@[simp] theorem linked_cons {a : ι} :
    Linked next head (a :: cells) ↔ head = some a ∧ Linked next (next a) cells := Iff.rfl

@[simp] theorem follow_none (k : Nat) : follow next k none = none := by
  induction k with
  | zero => rfl
  | succ k ih => exact ih

theorem Linked.follow_eq (h : Linked next head cells) (k : Nat) :
    follow next k head = cells[k]? := by
  induction cells generalizing head k with
  | nil =>
    obtain rfl := linked_nil.mp h
    simp
  | cons a cells ih =>
    obtain ⟨rfl,ht⟩ := linked_cons.mp h
    cases k with
    | zero => rfl
    | succ k => simpa [follow] using ih ht k

theorem Linked.unique {cells' : List ι} (h : Linked next head cells)
    (h' : Linked next head cells') : cells = cells' := by
  apply List.ext_getElem?
  intro k
  rw [← h.follow_eq k,h'.follow_eq k]

theorem Linked.of_append {before after : List ι} {a : ι}
    (h : Linked next head (before ++ a :: after)) : Linked next (some a) (a :: after) := by
  induction before generalizing head with
  | nil => exact ⟨rfl,(linked_cons.mp h).2⟩
  | cons b before ih => exact ih (linked_cons.mp h).2

theorem Linked.nodup (h : Linked next head cells) : cells.Nodup := by
  induction cells generalizing head with
  | nil => exact List.nodup_nil
  | cons a cells ih =>
    have ht := (linked_cons.mp h).2
    refine List.nodup_cons.mpr ⟨?_,ih ht⟩
    intro ha
    obtain ⟨before,after,rfl⟩ := List.append_of_mem ha
    -- The suffix met at the second visit would equal the longer one met at the first.
    have hlong : Linked next (some a) (a :: (before ++ a :: after)) := ⟨rfl,ht⟩
    have hlen := congrArg List.length (hlong.unique ht.of_append)
    simp only [List.length_cons,List.length_append] at hlen
    omega

/-- No cell of a list is met again by following the links out of it. -/
theorem Linked.acyclic (h : Linked next head cells) {a : ι} (ha : a ∈ cells) (k : Nat) :
    follow next (k+1) (some a) ≠ some a := by
  obtain ⟨before,after,rfl⟩ := List.append_of_mem ha
  have hsuffix := h.of_append
  rw [hsuffix.follow_eq (k+1),List.getElem?_cons_succ]
  intro hk
  exact (List.nodup_cons.mp hsuffix.nodup).1 (List.mem_of_getElem? hk)

theorem Linked.congr (h : Linked next head cells) (heq : ∀ a ∈ cells, next' a = next a) :
    Linked next' head cells := by
  induction cells generalizing head with
  | nil => exact h
  | cons a cells ih =>
    obtain ⟨hhead,ht⟩ := linked_cons.mp h
    refine ⟨hhead,?_⟩
    rw [heq a (by simp)]
    exact ih ht fun b hb => heq b (List.mem_cons_of_mem _ hb)

theorem Linked.insertHead [DecidableEq ι] (h : Linked next head cells) {a : ι}
    (ha : a ∉ cells) : Linked (Function.update next a head) (some a) (a :: cells) := by
  refine ⟨rfl,?_⟩
  rw [Function.update_self]
  apply h.congr
  intro b hb
  have hba : b ≠ a := by
    intro heq
    subst heq
    exact ha hb
  exact Function.update_of_ne hba _ _

theorem Linked.update_of_notMem [DecidableEq ι] (h : Linked next head cells) {a : ι}
    (ha : a ∉ cells) (p : Option ι) : Linked (Function.update next a p) head cells := by
  apply h.congr
  intro b hb
  have hba : b ≠ a := by
    intro heq
    subst heq
    exact ha hb
  exact Function.update_of_ne hba _ _

end Esp32Ipc.Framework
