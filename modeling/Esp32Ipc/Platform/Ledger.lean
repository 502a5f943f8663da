import Esp32Ipc.Platform.Rtos
import Mathlib.Data.List.Nodup

/-!
# What a stretch of code has taken from the heap

Between two points of the program some requests were made and some of the blocks granted are still
held. As long as only held blocks are freed no free is a fault, and once nothing is held the heap is
what it was.
-/

namespace Esp32Ipc.Heap

/-- `asked` requests after `heap`, these blocks are held and nothing else has changed. -/
structure Took (heap : Heap) (asked : Nat) (blocks : List Nat) (heap' : Heap) : Prop where
  nodup : blocks.Nodup
  new : ∀ block ∈ blocks, heap.requests ≤ block
  live : heap'.live = heap.live ∪ blocks.toFinset
  requests : heap'.requests = heap.requests + asked
  grants : heap'.grants = heap.grants
  faults : heap'.faults = heap.faults

namespace Took

variable {heap heap' : Heap} {asked block : Nat} {blocks blocks' : List Nat}

theorem refl (heap : Heap) : heap.Took 0 [] heap :=
  ⟨List.nodup_nil,by simp,by simp,rfl,rfl,rfl⟩

theorem perm (h : heap.Took asked blocks heap') (hperm : blocks.Perm blocks') :
    heap.Took asked blocks' heap' where
  nodup := hperm.nodup_iff.mp h.nodup
  new := fun block hb => h.new block (hperm.mem_iff.mpr hb)
  live := by rw [h.live,List.toFinset_eq_of_perm _ _ hperm]
  requests := h.requests
  grants := h.grants
  faults := h.faults

theorem notMem_live (h : heap.Took asked blocks heap') (hb : block ∈ blocks) :
    block ∉ heap.live := by
  intro hlive
  have hlt := heap.live_lt block hlive
  have hle := h.new block hb
  omega

theorem toFinset_eq (h : heap.Took asked blocks heap') :
    blocks.toFinset = heap'.live \ heap.live := by
  ext block
  rw [h.live,Finset.mem_sdiff,Finset.mem_union,List.mem_toFinset]
  constructor
  · intro hb
    exact ⟨.inr hb,h.notMem_live hb⟩
  · rintro ⟨hlive | hb,hnot⟩
    · exact absurd hlive hnot
    · exact hb

theorem trans {heap'' : Heap} {asked' : Nat} (h : heap.Took asked blocks heap')
    (h' : heap'.Took asked' blocks' heap'') : heap.Took (asked + asked') (blocks' ++ blocks) heap'' where
  nodup := by
    refine List.nodup_append'.mpr ⟨h'.nodup,h.nodup,?_⟩
    intro block hnew hold
    exact h'.notMem_live hnew (by simp [h.live,hold])
  new := by
    intro block hb
    rcases List.mem_append.mp hb with hnew | hold
    · have hle := h'.new block hnew
      rw [h.requests] at hle
      omega
    · exact h.new block hold
  live := by
    rw [h'.live,h.live,List.toFinset_append,Finset.union_assoc,Finset.union_comm blocks.toFinset]
  requests := by rw [h'.requests,h.requests,Nat.add_assoc]
  grants := h'.grants.trans h.grants
  faults := h'.faults.trans h.faults

theorem live_eq (h : heap.Took asked [] heap') : heap'.live = heap.live := by
  rw [h.live,List.toFinset_nil,Finset.union_empty]

theorem alloc (h : heap.Took asked blocks heap') :
    if heap.grants (heap.requests + asked) then
      ∃ block heap'', heap'.alloc = (some block,heap'') ∧
        heap.Took (asked + 1) (block :: blocks) heap''
    else ∃ heap'', heap'.alloc = (none,heap'') ∧ heap.Took (asked + 1) blocks heap'' := by
  rw [← h.grants,← h.requests]
  unfold Heap.alloc
  split
  · refine ⟨heap'.requests,_,rfl,List.nodup_cons.mpr ⟨?_,h.nodup⟩,?_,?_,?_,h.grants,h.faults⟩
    · intro hb
      have hlive : heap'.requests ∈ heap'.live := by
        rw [h.live]
        exact Finset.mem_union_right _ (List.mem_toFinset.mpr hb)
      exact absurd (heap'.live_lt _ hlive) (lt_irrefl _)
    · intro block hb
      rcases List.mem_cons.mp hb with rfl | hb
      · rw [h.requests]
        exact Nat.le_add_right _ _
      · exact h.new block hb
    · rw [List.toFinset_cons,Finset.union_insert,← h.live]
    · change heap'.requests + 1 = heap.requests + (asked + 1)
      rw [h.requests,Nat.add_assoc]
  · refine ⟨_,rfl,h.nodup,h.new,h.live,?_,h.grants,h.faults⟩
    change heap'.requests + 1 = heap.requests + (asked + 1)
    rw [h.requests,Nat.add_assoc]

theorem alloc_granted (h : heap.Took asked blocks heap')
    (hgrant : heap.grants (heap.requests + asked) = true) :
    ∃ block heap'', heap'.alloc = (some block,heap'') ∧
      heap.Took (asked + 1) (block :: blocks) heap'' := by
  have halloc := h.alloc
  rwa [if_pos hgrant] at halloc

theorem alloc_refused (h : heap.Took asked blocks heap')
    (hrefuse : heap.grants (heap.requests + asked) = false) :
    ∃ heap'', heap'.alloc = (none,heap'') ∧ heap.Took (asked + 1) blocks heap'' := by
  have halloc := h.alloc
  rwa [if_neg (by simp [hrefuse])] at halloc

theorem of_alloc_none {heap'' : Heap} (h : heap.Took asked blocks heap')
    (halloc : heap'.alloc = (none,heap'')) : heap.Took (asked + 1) blocks heap'' := by
  have hgrant := h.alloc
  rw [halloc] at hgrant
  split at hgrant
  · obtain ⟨block,_,hsome,_⟩ := hgrant
    cases hsome
  · obtain ⟨_,hsame,htook⟩ := hgrant
    cases hsame
    exact htook

theorem of_alloc_some {heap'' : Heap} (h : heap.Took asked blocks heap')
    (halloc : heap'.alloc = (some block,heap'')) :
    heap.Took (asked + 1) (block :: blocks) heap'' ∧ block = heap'.requests := by
  have hgrant := h.alloc
  rw [halloc] at hgrant
  split at hgrant
  · obtain ⟨_,_,hsame,htook⟩ := hgrant
    cases hsame
    refine ⟨htook,?_⟩
    unfold Heap.alloc at halloc
    split at halloc
    · cases halloc
      rfl
    · cases halloc
  · obtain ⟨_,hnone,_⟩ := hgrant
    cases hnone

end Took

section Free

variable {heap : Heap} {blocks : List Nat}

theorem free_of_mem {block : Nat} (h : block ∈ heap.live) :
    (heap.free block).live = heap.live.erase block ∧ (heap.free block).faults = heap.faults ∧
      (heap.free block).requests = heap.requests ∧ (heap.free block).grants = heap.grants := by
  rw [Heap.free,if_pos h]
  exact ⟨rfl,rfl,rfl,rfl⟩

@[simp] theorem free_requests (heap : Heap) (block : Nat) :
    (heap.free block).requests = heap.requests := by
  unfold Heap.free
  split <;> rfl

theorem Took.free {heap' : Heap} {asked block : Nat}
    (h : heap.Took asked (block :: blocks) heap') : heap.Took asked blocks (heap'.free block) := by
  obtain ⟨hnew,hnodup⟩ := List.nodup_cons.mp h.nodup
  have hlive : block ∈ heap'.live := by
    rw [h.live,List.toFinset_cons]
    exact Finset.mem_union_right _ (Finset.mem_insert_self _ _)
  obtain ⟨hfree,hfaults,hrequests,hgrants⟩ := free_of_mem hlive
  refine ⟨hnodup,fun b hb => h.new b (List.mem_cons_of_mem _ hb),?_,hrequests.trans h.requests,
    hgrants.trans h.grants,hfaults.trans h.faults⟩
  rw [hfree,h.live,List.toFinset_cons,Finset.erase_union_distrib,Finset.erase_insert (by simpa),
    Finset.erase_eq_of_notMem (h.notMem_live List.mem_cons_self)]

theorem freeAll (hnodup : blocks.Nodup) (hlive : ∀ block ∈ blocks, block ∈ heap.live) :
    (blocks.foldl Heap.free heap).live = heap.live \ blocks.toFinset ∧
      (blocks.foldl Heap.free heap).faults = heap.faults ∧
      (blocks.foldl Heap.free heap).requests = heap.requests ∧
      (blocks.foldl Heap.free heap).grants = heap.grants := by
  induction blocks generalizing heap with
  | nil => simp
  | cons block blocks ih =>
    obtain ⟨hnew,hnodup⟩ := List.nodup_cons.mp hnodup
    obtain ⟨hfree,hfaults,hrequests,hgrants⟩ := free_of_mem (hlive block List.mem_cons_self)
    have hlive' : ∀ b ∈ blocks, b ∈ (heap.free block).live := by
      intro b hb
      rw [hfree]
      refine Finset.mem_erase.mpr ⟨?_,hlive b (List.mem_cons_of_mem _ hb)⟩
      rintro rfl
      exact hnew hb
    have hrest := ih hnodup hlive'
    rw [List.foldl_cons,List.toFinset_cons]
    refine ⟨?_,hrest.2.1.trans hfaults,hrest.2.2.1.trans hrequests,hrest.2.2.2.trans hgrants⟩
    rw [hrest.1,hfree,Finset.erase_sdiff_comm,Finset.sdiff_insert]

/-- Giving everything back restores the heap. -/
theorem Took.freeAll {heap' : Heap} {asked : Nat} (h : heap.Took asked blocks heap') :
    heap.Took asked [] (blocks.foldl Heap.free heap') := by
  have hlive : ∀ block ∈ blocks, block ∈ heap'.live := by
    intro block hb
    rw [h.live]
    exact Finset.mem_union_right _ (List.mem_toFinset.mpr hb)
  obtain ⟨hfree,hfaults,hrequests,hgrants⟩ := Heap.freeAll h.nodup hlive
  refine ⟨List.nodup_nil,by simp,?_,hrequests.trans h.requests,hgrants.trans h.grants,
    hfaults.trans h.faults⟩
  have hsub : heap.live ⊆ heap'.live := by
    rw [h.live]
    exact Finset.subset_union_left
  rw [hfree,h.toFinset_eq,List.toFinset_nil,Finset.union_empty,Finset.sdiff_sdiff_eq_self hsub]

end Free

end Esp32Ipc.Heap
