import Esp32Ipc.Core.FramePool

/-!
# What a frame pool is for

The abstract pool is two stacks over which no element occurs twice; an element on neither is
checked out. The intrusive lists and the flags of a pool show such a view, and the two list
operations of the source are push and pop on it.
-/

namespace Esp32Ipc

open Framework

variable {n : Nat} {α : Type*}

/-- Two stacks without a common or repeated element. -/
structure PoolView (α : Type*) where
  cells : FramePoolList → List α
  nodup : (cells .free ++ cells .ready).Nodup

namespace PoolView

/-- On neither list, so some caller owns the element. -/
def CheckedOut (view : PoolView α) (a : α) : Prop := ∀ list, a ∉ view.cells list

def empty : PoolView α := ⟨fun _ => [],List.nodup_nil⟩

def push (view : PoolView α) (list : FramePoolList) (a : α) (ha : view.CheckedOut a) :
    PoolView α where
  cells := Function.update view.cells list (a :: view.cells list)
  nodup := by
    have hnew : (a :: (view.cells .free ++ view.cells .ready)).Nodup := by
      refine List.nodup_cons.mpr ⟨?_,view.nodup⟩
      simp [ha .free,ha .ready]
    cases list
    · simpa using hnew
    · simpa using List.perm_middle.nodup_iff.mpr hnew

def pop (view : PoolView α) (list : FramePoolList) : PoolView α where
  cells := Function.update view.cells list (view.cells list).tail
  nodup := by
    cases list
    · simpa using view.nodup.sublist ((List.tail_sublist _).append_right _)
    · simpa using view.nodup.sublist ((List.tail_sublist _).append_left _)

variable {view : PoolView α} {list : FramePoolList} {a : α}

@[simp] theorem cells_push (ha : view.CheckedOut a) :
    (view.push list a ha).cells = Function.update view.cells list (a :: view.cells list) := rfl

@[simp] theorem cells_pop :
    (view.pop list).cells = Function.update view.cells list (view.cells list).tail := rfl

@[simp] theorem cells_empty : (empty : PoolView α).cells list = [] := rfl

theorem cells_nodup (view : PoolView α) (list : FramePoolList) : (view.cells list).Nodup := by
  cases list
  · exact view.nodup.of_append_left
  · exact view.nodup.of_append_right

theorem cells_disjoint (view : PoolView α) {list list' : FramePoolList} (h : list ≠ list')
    (ha : a ∈ view.cells list) : a ∉ view.cells list' := by
  have hd := List.disjoint_of_nodup_append view.nodup
  intro ha'
  cases list <;> cases list'
  · exact h rfl
  · exact hd ha ha'
  · exact hd ha' ha
  · exact h rfl

theorem checkedOut_push {b : α} (ha : view.CheckedOut a) :
    (view.push list a ha).CheckedOut b ↔ view.CheckedOut b ∧ b ≠ a := by
  constructor
  · intro h
    refine ⟨fun list' hb => ?_,?_⟩
    · apply h list'
      by_cases hl : list' = list
      · subst list'; simp [hb]
      · simpa [Function.update_of_ne hl] using hb
    · intro heq
      subst heq
      exact h list (by simp)
  · rintro ⟨hb,hne⟩ list' hmem
    by_cases hl : list' = list
    · subst list'
      rcases List.mem_cons.mp (by simpa using hmem) with h | h
      · exact hne h
      · exact hb _ h
    · exact hb list' (by simpa [Function.update_of_ne hl] using hmem)

theorem checkedOut_pop {b : α} {rest : List α} (hcells : view.cells list = a :: rest) :
    (view.pop list).CheckedOut b ↔ view.CheckedOut b ∨ b = a := by
  have hnd := view.cells_nodup list
  rw [hcells] at hnd
  constructor
  · intro h
    by_cases hba : b = a
    · exact .inr hba
    · refine .inl fun list' hb => h list' ?_
      by_cases hl : list' = list
      · subst list'
        rw [hcells] at hb
        simpa [hcells,hba] using hb
      · simpa [Function.update_of_ne hl] using hb
  · intro h list' hmem
    have hold : b ∈ view.cells list' := by
      by_cases hl : list' = list
      · subst list'
        exact List.mem_of_mem_tail (by simpa using hmem)
      · simpa [Function.update_of_ne hl] using hmem
    rcases h with h | rfl
    · exact h list' hold
    · by_cases hl : list' = list
      · subst list'
        exact (List.nodup_cons.mp hnd).1 (by simpa [hcells] using hmem)
      · exact view.cells_disjoint hl hold (by simp [hcells])

end PoolView

/-- The lists and flags of a pool are the ones of a view; only the elements built so far are on a
list or may be checked out, and each knows its own position. -/
structure FramePool.Shows (pool : FramePool n) (view : PoolView (Fin n)) : Prop where
  linked : ∀ list, Linked pool.next (pool.first list) (view.cells list)
  flag : ∀ e, pool.checkedOut e = true ↔ e.val < pool.elemNum ∧ view.CheckedOut e
  built : ∀ list, ∀ e ∈ view.cells list, e.val < pool.elemNum
  index : ∀ e, e.val < pool.elemNum → (pool.element e).index = e.val

section ListOperations

variable (pool : FramePool n) (list : FramePoolList) (e : Fin n)

@[simp] theorem listPush_elemNum : (listPush pool list e).2.elemNum = pool.elemNum := by
  unfold listPush slistInsertHead; split <;> simp

@[simp] theorem listPush_readySem : (listPush pool list e).2.readySem = pool.readySem := by
  unfold listPush slistInsertHead; split <;> simp

@[simp] theorem listPop_elemNum : (listPop pool list).2.elemNum = pool.elemNum := by
  unfold listPop slistRemoveHead; split <;> simp

@[simp] theorem listPop_readySem : (listPop pool list).2.readySem = pool.readySem := by
  unfold listPop slistRemoveHead; split <;> simp

@[simp] theorem listPush_index (a : Fin n) :
    ((listPush pool list e).2.element a).index = (pool.element a).index := by
  unfold listPush slistInsertHead
  split
  · rfl
  · by_cases ha : a = e
    · subst a; simp
    · simp [ha]

@[simp] theorem listPop_index (a : Fin n) :
    ((listPop pool list).2.element a).index = (pool.element a).index := by
  unfold listPop slistRemoveHead
  split
  · rfl
  · next e _ =>
    by_cases ha : a = e
    · subst a; simp
    · simp [ha]

variable {pool list e}

theorem listPush_refused (h : pool.checkedOut e = false) :
    listPush pool list e = (.invalidState,pool) := if_pos h

theorem listPush_accepted (list : FramePoolList) (h : pool.checkedOut e = true) :
    (listPush pool list e).1 = .ok ∧
      (listPush pool list e).2.next = Function.update pool.next e (pool.first list) ∧
      (listPush pool list e).2.checkedOut = Function.update pool.checkedOut e false ∧
      ∀ list', (listPush pool list e).2.first list' =
        if list' = list then some e else pool.first list' := by
  have hne : ¬pool.checkedOut e = false := by simp [h]
  unfold listPush
  rw [if_neg hne]
  refine ⟨rfl,?_,?_,?_⟩
  · funext a
    by_cases ha : a = e
    · subst a; simp [slistInsertHead,FramePool.next]
    · simp [slistInsertHead,FramePool.next,ha]
  · funext a
    by_cases ha : a = e
    · subst a; simp [slistInsertHead,FramePool.checkedOut]
    · simp [slistInsertHead,FramePool.checkedOut,ha]
  · intro list'
    simp [slistInsertHead]

theorem listPop_empty (h : pool.first list = none) : listPop pool list = (none,pool) := by
  simp [listPop,h]

/-- Everything a successful pop changes; the link out of the popped element stays behind. -/
theorem listPop_taken (h : pool.first list = some e) :
    (listPop pool list).1 = some e ∧
      (listPop pool list).2.next = pool.next ∧
      (listPop pool list).2.checkedOut = Function.update pool.checkedOut e true ∧
      ∀ list', (listPop pool list).2.first list' =
        if list' = list then pool.next e else pool.first list' := by
  unfold listPop
  rw [h]
  refine ⟨rfl,?_,?_,?_⟩
  · funext a
    by_cases ha : a = e
    · subst a; simp [slistRemoveHead,FramePool.next]
    · simp [slistRemoveHead,FramePool.next,ha]
  · funext a
    by_cases ha : a = e
    · subst a; simp [FramePool.checkedOut]
    · simp [slistRemoveHead,FramePool.checkedOut,ha]
  · intro list'
    simp [slistRemoveHead]

end ListOperations

namespace FramePool.Shows

variable {pool : FramePool n} {view : PoolView (Fin n)} {list : FramePoolList} {e : Fin n}

theorem listPush (list : FramePoolList) (h : pool.Shows view) (hbuilt : e.val < pool.elemNum)
    (he : view.CheckedOut e) :
    (listPush pool list e).1 = .ok ∧
      (Esp32Ipc.listPush pool list e).2.Shows (view.push list e he) := by
  obtain ⟨hok,hnext,hflag,hfirst⟩ := listPush_accepted list ((h.flag e).mpr ⟨hbuilt,he⟩)
  refine ⟨hok,?_,?_,?_,fun a ha => by simpa using h.index a (by simpa using ha)⟩
  · intro list'
    rw [hnext,hfirst]
    by_cases hl : list' = list
    · subst list'
      simpa using (h.linked list).insertHead (he list)
    · simpa [hl] using (h.linked list').update_of_notMem (he list') _
  · intro a
    rw [hflag,listPush_elemNum,PoolView.checkedOut_push he]
    by_cases ha : a = e
    · subst a; simp
    · simp [ha,h.flag a]
  · intro list' a ha
    rw [listPush_elemNum]
    by_cases hl : list' = list
    · subst list'
      rcases List.mem_cons.mp (by simpa using ha) with rfl | ha
      · exact hbuilt
      · exact h.built _ a ha
    · exact h.built list' a (by simpa [hl] using ha)

theorem listPush_refused (list : FramePoolList) (h : pool.Shows view)
    (he : ¬view.CheckedOut e) :
    Esp32Ipc.listPush pool list e = (.invalidState,pool) := by
  apply Esp32Ipc.listPush_refused
  rw [Bool.eq_false_iff]
  intro hflag
  exact he ((h.flag e).mp hflag).2

theorem listPop_nil (h : pool.Shows view) (hcells : view.cells list = []) :
    listPop pool list = (none,pool) := by
  apply listPop_empty
  have hl := h.linked list
  rwa [hcells] at hl

theorem listPop_cons (h : pool.Shows view) {rest : List (Fin n)}
    (hcells : view.cells list = e :: rest) :
    (listPop pool list).1 = some e ∧ (listPop pool list).2.Shows (view.pop list) := by
  have hl := h.linked list
  rw [hcells,linked_cons] at hl
  obtain ⟨hret,hnext,hflag,hfirst⟩ := listPop_taken hl.1
  refine ⟨hret,?_,?_,?_,fun a ha => by simpa using h.index a (by simpa using ha)⟩
  · intro list'
    rw [hnext,hfirst]
    by_cases hlist : list' = list
    · subst list'
      simpa [hcells] using hl.2
    · simpa [hlist] using h.linked list'
  · intro a
    rw [hflag,listPop_elemNum,PoolView.checkedOut_pop hcells]
    by_cases ha : a = e
    · subst a
      simp [h.built list e (by simp [hcells])]
    · simp [ha,h.flag a]
  · intro list' a ha
    rw [listPop_elemNum]
    apply h.built list'
    by_cases hlist : list' = list
    · subst list'
      exact List.mem_of_mem_tail (by simpa using ha)
    · simpa [hlist] using ha

end FramePool.Shows

end Esp32Ipc
