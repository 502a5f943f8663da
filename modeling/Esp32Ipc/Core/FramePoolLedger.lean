import Esp32Ipc.Core.FramePoolCalls
import Esp32Ipc.Platform.Ledger

/-!
# The memory of a frame pool

While a pool is built it holds exactly the blocks granted so far, so that `frame_pool_delete` can
take it down again at any element; no call on a complete pool changes what it holds.
-/

namespace Esp32Ipc

open Framework

variable {n : Nat} {pool pool' : FramePool n}

namespace FramePool

/-- The elements whose buffer `frame_pool_delete` frees. -/
def owned (pool : FramePool n) : List (Fin n) :=
  (List.finRange n).filter fun i => i.val < pool.elemNum ∧ (pool.element i).ownsBuffer

/-- The blocks that `frame_pool_delete` frees, in this order. -/
def blocks (pool : FramePool n) : List Nat :=
  pool.owned.filterMap (fun i => (pool.element i).buffer) ++
    [pool.readySem.block,pool.elementBlock,pool.block]

theorem mem_owned {e : Fin n} :
    e ∈ pool.owned ↔ e.val < pool.elemNum ∧ (pool.element e).ownsBuffer = true := by
  simp [owned]

theorem owned_nodup (pool : FramePool n) : pool.owned.Nodup := (List.nodup_finRange n).filter _

/-- Lists, flags and tokens aside, the same pool. -/
structure SameMemory (pool pool' : FramePool n) : Prop where
  block : pool'.block = pool.block
  elementBlock : pool'.elementBlock = pool.elementBlock
  semBlock : pool'.readySem.block = pool.readySem.block
  elemNum : pool'.elemNum = pool.elemNum
  buffer : ∀ e, (pool'.element e).buffer = (pool.element e).buffer
  ownsBuffer : ∀ e, (pool'.element e).ownsBuffer = (pool.element e).ownsBuffer

theorem SameMemory.refl (pool : FramePool n) : pool.SameMemory pool :=
  ⟨rfl,rfl,rfl,rfl,fun _ => rfl,fun _ => rfl⟩

theorem SameMemory.trans {pool'' : FramePool n} (h : pool.SameMemory pool')
    (h' : pool'.SameMemory pool'') : pool.SameMemory pool'' where
  block := h'.block.trans h.block
  elementBlock := h'.elementBlock.trans h.elementBlock
  semBlock := h'.semBlock.trans h.semBlock
  elemNum := h'.elemNum.trans h.elemNum
  buffer := fun e => (h'.buffer e).trans (h.buffer e)
  ownsBuffer := fun e => (h'.ownsBuffer e).trans (h.ownsBuffer e)

theorem SameMemory.blocks_eq (h : pool.SameMemory pool') : pool'.blocks = pool.blocks := by
  simp only [blocks,owned,h.block,h.elementBlock,h.semBlock,h.elemNum,h.buffer,h.ownsBuffer]

theorem sameMemory_setElement (e : Fin n) {element : FramePoolElement n}
    (hbuffer : element.buffer = (pool.element e).buffer)
    (howns : element.ownsBuffer = (pool.element e).ownsBuffer) :
    pool.SameMemory (pool.setElement e element) := by
  refine ⟨rfl,rfl,rfl,rfl,?_,?_⟩
  · intro a
    by_cases ha : a = e
    · subst a
      simpa using hbuffer
    · simp [ha]
  · intro a
    by_cases ha : a = e
    · subst a
      simpa using howns
    · simp [ha]

theorem sameMemory_setFirst (list : FramePoolList) (p : Option (Fin n)) :
    pool.SameMemory (pool.setFirst list p) := by
  cases list <;> exact ⟨rfl,rfl,rfl,rfl,fun _ => rfl,fun _ => rfl⟩

theorem sameMemory_withSem {sem : CountingSem} (h : sem.block = pool.readySem.block) :
    pool.SameMemory { pool with readySem := sem } :=
  ⟨rfl,rfl,h,rfl,fun _ => rfl,fun _ => rfl⟩

end FramePool

open FramePool

section Calls

variable (pool : FramePool n) (list : FramePoolList)

theorem slistInsertHead_sameMemory (e : Fin n) : pool.SameMemory (slistInsertHead pool list e) := by
  have hnode : pool.SameMemory
      (pool.setElement e { pool.element e with node := pool.first list }) :=
    sameMemory_setElement e rfl rfl
  exact hnode.trans (sameMemory_setFirst list (some e))

theorem listPush_sameMemory (e : Fin n) : pool.SameMemory (listPush pool list e).2 := by
  unfold listPush
  split
  · exact .refl pool
  · have hflag : pool.SameMemory (pool.setElement e { pool.element e with checkedOut := false }) :=
      sameMemory_setElement e rfl rfl
    exact hflag.trans (slistInsertHead_sameMemory _ list e)

theorem listPop_sameMemory : pool.SameMemory (listPop pool list).2 := by
  unfold listPop slistRemoveHead
  split
  · exact .refl pool
  next e _ =>
    have hhead : pool.SameMemory (pool.setFirst list (pool.next e)) := sameMemory_setFirst list _
    exact hhead.trans (sameMemory_setElement e rfl rfl)

theorem xSemaphoreGive_block (sem : CountingSem) : (xSemaphoreGive sem).2.block = sem.block := by
  unfold xSemaphoreGive
  split <;> rfl

theorem xSemaphoreTake_block (sem : CountingSem) : (xSemaphoreTake sem).2.block = sem.block := by
  unfold xSemaphoreTake
  split <;> rfl

variable {pool}

theorem poolCall_sameMemory (call : PoolCall n) :
    ∃ pool', (poolCall (some pool) call).2 = some pool' ∧ pool.SameMemory pool' := by
  cases call with
  | acquire => exact ⟨_,rfl,listPop_sameMemory pool .free⟩
  | submit element =>
    cases element with
    | none => exact ⟨pool,rfl,.refl pool⟩
    | some e =>
      have hpush := listPush_sameMemory pool .ready e
      simp only [poolCall,framePoolSubmit]
      split
      next pushed hret =>
        rw [hret] at hpush
        exact ⟨_,rfl,hpush.trans (sameMemory_withSem (xSemaphoreGive_block _))⟩
      next ret pushed _ hret =>
        rw [hret] at hpush
        exact ⟨_,rfl,hpush⟩
  | recv =>
    have htake := xSemaphoreTake_block pool.readySem
    simp only [poolCall,framePoolRecv]
    split
    · exact ⟨pool,rfl,.refl pool⟩
    next sem hret =>
      rw [hret] at htake
      exact ⟨_,rfl,(sameMemory_withSem htake).trans (listPop_sameMemory _ .ready)⟩
  | release index =>
    simp only [poolCall,framePoolRelease]
    split
    · exact ⟨_,rfl,listPush_sameMemory pool .free _⟩
    · exact ⟨pool,rfl,.refl pool⟩

theorem poolCalls_sameMemory {calls : List (PoolCall n)} {handle : Option (FramePool n)}
    (h : runEvents poolStep (some pool) calls = some handle) :
    ∃ pool', handle = some pool' ∧ pool.SameMemory pool' := by
  induction calls, handle, h using runEvents_induction with
  | nil => exact ⟨pool,rfl,.refl pool⟩
  | concat calls handle call handle' _ hstep ih =>
    obtain ⟨pool',rfl,hsame⟩ := ih
    obtain ⟨pool'',hcall,hsame'⟩ := @poolCall_sameMemory _ pool' call
    exact ⟨pool'',(Option.some.inj hstep).symm.trans hcall,hsame.trans hsame'⟩

end Calls

section Delete

theorem framePoolDelete_eq (pool : FramePool n) (heap : Heap) :
    framePoolDelete (some pool) heap = (.ok,pool.blocks.foldl Heap.free heap) := by
  have hbuffers : pool.owned.foldl (fun heap i => heap.freePtr (pool.element i).buffer) heap =
      (pool.owned.filterMap fun i => (pool.element i).buffer).foldl Heap.free heap := by
    rw [List.foldl_filterMap]
    congr 1
    funext heap i
    cases (pool.element i).buffer <;> rfl
  rw [blocks,List.foldl_append,← hbuffers]
  rfl

end Delete

section New

variable {heap heap' heap'' : Heap} {asked : Nat} {cfg : FramePoolCfg} {i : Fin n}

/-- A pool under construction holds what was granted since `heap`; its finished elements own a
buffer and are on a list. -/
structure FramePool.Building (heap : Heap) (asked : Nat) (pool : FramePool n) (heap' : Heap) :
    Prop where
  took : heap.Took asked pool.blocks heap'
  finished : ∀ e, e.val < pool.elemNum → (∃ buffer, (pool.element e).buffer = some buffer) ∧
    (pool.element e).ownsBuffer = true ∧ pool.checkedOut e = false

private theorem blocks_enter (hi : i.val = pool.elemNum) {element : FramePoolElement n}
    {buffer : Nat} (hbuffer : element.buffer = some buffer) (howns : element.ownsBuffer = true) :
    (buffer :: pool.blocks).Perm
      (FramePool.blocks { pool.setElement i element with elemNum := pool.elemNum + 1 }) := by
  have hnew : i ∉ pool.owned := by
    rw [mem_owned]
    omega
  have howned : (i :: pool.owned).Perm
      (FramePool.owned { pool.setElement i element with elemNum := pool.elemNum + 1 }) := by
    apply (List.perm_ext_iff_of_nodup (List.nodup_cons.mpr ⟨hnew,pool.owned_nodup⟩)
      (owned_nodup _)).mpr
    intro e
    rw [List.mem_cons,mem_owned,mem_owned]
    by_cases he : e = i
    · subst e
      simp [howns,hi]
    · have hval : e.val ≠ pool.elemNum := fun hv => he (Fin.ext (hv.trans hi.symm))
      simp only [he,false_or,element_setElement,Function.update_of_ne he,Nat.lt_succ_iff_lt_or_eq,
        hval,or_false]
  have hbuffers := howned.filterMap fun e => ((pool.setElement i element).element e).buffer
  have hold : pool.owned.filterMap (fun e => ((pool.setElement i element).element e).buffer) =
      pool.owned.filterMap fun e => (pool.element e).buffer := by
    apply List.filterMap_congr
    intro e he
    have hne : e ≠ i := by
      rintro rfl
      exact hnew he
    simp [hne]
  rw [List.filterMap_cons_some (by simpa using hbuffer),hold] at hbuffers
  exact hbuffers.append_right [pool.readySem.block,pool.elementBlock,pool.block]

private theorem Building.push (h : pool.Building heap asked heap') (hi : i.val = pool.elemNum)
    (element : FramePoolElement n) {buffer : Nat} (hbuffer : element.buffer = some buffer)
    (howns : element.ownsBuffer = true) (hflag : element.checkedOut = true)
    (htook : heap.Took (asked + 1) (buffer :: pool.blocks) heap'') :
    FramePool.Building heap (asked + 1)
      (listPush { pool.setElement i element with elemNum := pool.elemNum + 1 } .free i).2 heap'' := by
  have hsame := listPush_sameMemory
    { pool.setElement i element with elemNum := pool.elemNum + 1 } .free i
  have hout : FramePool.checkedOut
      { pool.setElement i element with elemNum := pool.elemNum + 1 } i = true := by
    simpa [FramePool.checkedOut] using hflag
  have hflags := (listPush_accepted .free hout).2.2.1
  constructor
  · rw [hsame.blocks_eq]
    exact htook.perm (blocks_enter hi hbuffer howns)
  · intro e he
    rw [hsame.elemNum] at he
    rw [hsame.buffer,hsame.ownsBuffer,hflags]
    by_cases hei : e = i
    · subst e
      simp [hbuffer,howns]
    · have hval : e.val ≠ pool.elemNum := fun hv => hei (Fin.ext (hv.trans hi.symm))
      have hold := h.finished e (by dsimp only at he; omega)
      simpa [hei,FramePool.checkedOut] using hold

private theorem fill_cons {rest : List (Fin n)} {k : Nat}
    (h : (i :: rest).map Fin.val = List.range' k (i :: rest).length) :
    i.val = k ∧ rest.map Fin.val = List.range' (k + 1) rest.length := by
  rw [List.map_cons,List.length_cons,List.range'_succ] at h
  exact List.cons.inj h

private theorem framePoolFill_turn (cfg : FramePoolCfg) (h : pool.Building heap asked heap')
    (hi : i.val = pool.elemNum) (hgrant : heap.grants (heap.requests + asked) = true) :
    ∃ pool₁ heap₁, pool₁.Building heap (asked + 1) heap₁ ∧ pool₁.elemNum = pool.elemNum + 1 ∧
      ∀ rest, framePoolFill cfg (i :: rest) pool heap' = framePoolFill cfg rest pool₁ heap₁ := by
  obtain ⟨buffer,heap₁,halloc,htook⟩ := h.took.alloc_granted hgrant
  have hpush := Building.push h hi { pool.element i with
    buffer := some buffer
    ownsBuffer := true
    index := i
    size := cfg.bufferSize
    checkedOut := true } rfl rfl rfl htook
  refine ⟨_,heap₁,hpush,listPush_elemNum _ _ _,?_⟩
  intro rest
  rw [framePoolFill,halloc]

private theorem finRange_rest (h : pool.elemNum = 0) :
    (List.finRange n).map Fin.val = List.range' pool.elemNum (List.finRange n).length := by
  rw [h,List.length_finRange,List.map_coe_finRange_eq_range,List.range_eq_range']

private theorem framePoolFill_granted (cfg : FramePoolCfg) {rest : List (Fin n)}
    (h : pool.Building heap asked heap')
    (hrest : rest.map Fin.val = List.range' pool.elemNum rest.length)
    (hgrants : ∀ k < rest.length, heap.grants (heap.requests + (asked + k)) = true) :
    ∃ pool' heap'', framePoolFill cfg rest pool heap' = (.ok,some pool',heap'') ∧
      pool'.Building heap (asked + rest.length) heap'' ∧
      pool'.elemNum = pool.elemNum + rest.length := by
  induction rest generalizing pool asked heap' with
  | nil => exact ⟨pool,heap',rfl,h,rfl⟩
  | cons i rest ih =>
    obtain ⟨hi,htail⟩ := fill_cons hrest
    obtain ⟨pool₁,heap₁,hturn,hnum₁,hfill₁⟩ :=
      framePoolFill_turn cfg h hi (hgrants 0 (by simp))
    obtain ⟨pool',heap'',hfill,hbuilt,hnum⟩ := ih hturn (by rw [hnum₁]; exact htail) fun k hk => by
      rw [Nat.add_assoc,Nat.add_comm 1]
      exact hgrants (k + 1) (by simpa using hk)
    refine ⟨pool',heap'',(hfill₁ rest).trans hfill,?_,?_⟩
    · rw [List.length_cons,Nat.add_comm rest.length,← Nat.add_assoc]
      exact hbuilt
    · rw [hnum,hnum₁,List.length_cons]
      omega

private theorem framePoolFill_refused (cfg : FramePoolCfg) {rest : List (Fin n)}
    (h : pool.Building heap asked heap')
    (hrest : rest.map Fin.val = List.range' pool.elemNum rest.length)
    (hrefuse : ∃ k < rest.length, heap.grants (heap.requests + (asked + k)) = false) :
    ∃ asked' heap'', framePoolFill cfg rest pool heap' = (.noMem,none,heap'') ∧
      heap.Took asked' [] heap'' := by
  induction rest generalizing pool asked heap' with
  | nil => simp at hrefuse
  | cons i rest ih =>
    obtain ⟨hi,htail⟩ := fill_cons hrest
    cases hgrant : heap.grants (heap.requests + asked) with
    | false =>
      obtain ⟨heap₁,halloc,htook⟩ := h.took.alloc_refused hgrant
      refine ⟨_,_,?_,htook.freeAll⟩
      rw [framePoolFill,halloc]
      simp only [framePoolDelete_eq]
    | true =>
      obtain ⟨pool₁,heap₁,hturn,hnum₁,hfill₁⟩ := framePoolFill_turn cfg h hi hgrant
      obtain ⟨k,hk,hk'⟩ := hrefuse
      cases k with
      | zero => exact absurd (hgrant.symm.trans hk') (by decide)
      | succ k =>
        obtain ⟨asked',heap'',hfill,htook'⟩ := ih hturn (by rw [hnum₁]; exact htail)
          ⟨k,by simpa using hk,by rw [Nat.add_assoc,Nat.add_comm 1]; exact hk'⟩
        exact ⟨asked',heap'',(hfill₁ rest).trans hfill,htook'⟩

private theorem framePoolNew_start (hpos : 0 < cfg.elemNum)
    (hblock : heap.grants (heap.requests + 0) = true)
    (helement : heap.grants (heap.requests + 1) = true)
    (hsem : heap.grants (heap.requests + 2) = true) :
    ∃ (pool : FramePool cfg.elemNum.toNat) (heap₃ : Heap), pool.Building heap 3 heap₃ ∧
      pool.elemNum = 0 ∧
      framePoolNew cfg heap = framePoolFill cfg (List.finRange cfg.elemNum.toNat) pool heap₃ := by
  obtain ⟨block,heap₁,halloc₁,htook₁⟩ := (Heap.Took.refl heap).alloc_granted hblock
  obtain ⟨elementBlock,heap₂,halloc₂,htook₂⟩ := htook₁.alloc_granted helement
  obtain ⟨sem,heap₃,halloc₃,htook₃⟩ := htook₂.alloc_granted hsem
  have hempty : (FramePool.mk block 0 none none elementBlock (fun _ => zeroedElement)
      ⟨sem,cfg.elemNum.toNat,0⟩ : FramePool cfg.elemNum.toNat).blocks = [sem,elementBlock,block] := by
    simp [blocks,owned]
  refine ⟨_,heap₃,⟨by rw [hempty]; exact htook₃,fun e he => absurd he (Nat.not_lt_zero _)⟩,rfl,?_⟩
  rw [framePoolNew,if_neg (not_not.mpr hpos)]
  simp only [halloc₁,halloc₂,halloc₃,xSemaphoreCreateCounting]

theorem framePoolNew_granted (hpos : 0 < cfg.elemNum)
    (hgrants : ∀ k < 3 + cfg.elemNum.toNat, heap.grants (heap.requests + k) = true) :
    ∃ pool heap', framePoolNew cfg heap = (.ok,some pool,heap') ∧
      pool.Building heap (3 + cfg.elemNum.toNat) heap' ∧ pool.elemNum = cfg.elemNum.toNat := by
  obtain ⟨pool₀,heap₃,hstart,hnum₀,hnew⟩ := framePoolNew_start hpos (hgrants 0 (by omega))
    (hgrants 1 (by omega)) (hgrants 2 (by omega))
  obtain ⟨pool,heap',hfill,hbuilt,hnum⟩ := framePoolFill_granted cfg hstart (finRange_rest hnum₀)
    fun k hk => hgrants (3 + k) (by rw [List.length_finRange] at hk; omega)
  rw [List.length_finRange] at hbuilt hnum
  exact ⟨pool,heap',hnew.trans hfill,hbuilt,by rw [hnum,hnum₀,Nat.zero_add]⟩

/-- Whichever request is refused, everything granted before it is given back. -/
theorem framePoolNew_refused (hpos : 0 < cfg.elemNum)
    (hrefuse : ∃ k < 3 + cfg.elemNum.toNat, heap.grants (heap.requests + k) = false) :
    ∃ asked heap', framePoolNew cfg heap = (.noMem,none,heap') ∧ heap.Took asked [] heap' := by
  have htook := Heap.Took.refl heap
  cases hblock : heap.grants (heap.requests + 0) with
  | false =>
    obtain ⟨heap₁,halloc,htook⟩ := htook.alloc_refused hblock
    refine ⟨_,heap₁,?_,htook⟩
    rw [framePoolNew,if_neg (not_not.mpr hpos)]
    simp only [halloc]
  | true =>
    obtain ⟨block,heap₁,halloc₁,htook₁⟩ := htook.alloc_granted hblock
    cases helement : heap.grants (heap.requests + 1) with
    | false =>
      obtain ⟨heap₂,halloc₂,htook₂⟩ := htook₁.alloc_refused helement
      refine ⟨_,heap₂.free block,?_,htook₂.freeAll⟩
      rw [framePoolNew,if_neg (not_not.mpr hpos)]
      simp only [halloc₁,halloc₂]
    | true =>
      obtain ⟨elementBlock,heap₂,halloc₂,htook₂⟩ := htook₁.alloc_granted helement
      cases hsem : heap.grants (heap.requests + 2) with
      | false =>
        obtain ⟨heap₃,halloc₃,htook₃⟩ := htook₂.alloc_refused hsem
        refine ⟨_,(heap₃.free elementBlock).free block,?_,htook₃.freeAll⟩
        rw [framePoolNew,if_neg (not_not.mpr hpos)]
        simp only [halloc₁,halloc₂,halloc₃,xSemaphoreCreateCounting]
      | true =>
        obtain ⟨pool₀,heap₃,hstart,hnum₀,hnew⟩ := framePoolNew_start hpos hblock helement hsem
        obtain ⟨k,hk,hk'⟩ := hrefuse
        obtain ⟨j,rfl⟩ : ∃ j, k = 3 + j := by
          apply Nat.exists_eq_add_of_le
          by_contra hfirst
          obtain rfl | rfl | rfl : k = 0 ∨ k = 1 ∨ k = 2 := by omega
          · exact absurd (hblock.symm.trans hk') (by decide)
          · exact absurd (helement.symm.trans hk') (by decide)
          · exact absurd (hsem.symm.trans hk') (by decide)
        obtain ⟨asked,heap',hfill,htook'⟩ := framePoolFill_refused cfg hstart (finRange_rest hnum₀)
          ⟨j,by rw [List.length_finRange]; omega,hk'⟩
        exact ⟨asked,heap',hnew.trans hfill,htook'⟩

theorem FramePool.Building.buffers (h : pool.Building heap asked heap') (hnum : pool.elemNum = n) :
    ∃ buffer : Fin n → Nat, Function.Injective buffer ∧
      ∀ e, (pool.element e).buffer = some (buffer e) ∧ buffer e ∈ pool.blocks := by
  have hsome : ∀ e, ∃ buffer, (pool.element e).buffer = some buffer := fun e =>
    (h.finished e (by rw [hnum]; exact e.isLt)).1
  choose buffer hbuffer using hsome
  have howned : ∀ e, e ∈ pool.owned := fun e =>
    mem_owned.mpr ⟨by rw [hnum]; exact e.isLt,(h.finished e (by rw [hnum]; exact e.isLt)).2.1⟩
  have hmap : pool.owned.filterMap (fun e => (pool.element e).buffer) = pool.owned.map buffer := by
    rw [← List.filterMap_eq_map]
    exact List.filterMap_congr fun e _ => hbuffer e
  have hnodup := h.took.nodup.of_append_left
  rw [hmap] at hnodup
  refine ⟨buffer,?_,fun e => ⟨hbuffer e,?_⟩⟩
  · intro e e' heq
    exact List.inj_on_of_nodup_map hnodup (howned e) (howned e') heq
  · rw [blocks,hmap]
    exact List.mem_append_left _ (List.mem_map_of_mem (howned e))

/-- `frame_pool_delete` after any calls on a complete pool, on any heap where its blocks are live. -/
theorem framePoolDelete_frees (h : pool.Building heap asked heap') {calls : List (PoolCall n)}
    {handle : Option (FramePool n)} {later : Heap}
    (hrun : runEvents poolStep (some pool) calls = some handle)
    (hlater : heap'.live \ heap.live ⊆ later.live) :
    ∃ freed, framePoolDelete handle later = (.ok,freed) ∧
      freed.live = later.live \ (heap'.live \ heap.live) ∧ freed.faults = later.faults := by
  obtain ⟨pool',rfl,hsame⟩ := poolCalls_sameMemory hrun
  rw [← h.took.toFinset_eq] at hlater ⊢
  have hheld : ∀ block ∈ pool.blocks, block ∈ later.live := fun block hb =>
    hlater (List.mem_toFinset.mpr hb)
  obtain ⟨hlive,hfaults,_⟩ := Heap.freeAll h.took.nodup hheld
  refine ⟨_,framePoolDelete_eq pool' later,?_,?_⟩
  · rw [hsame.blocks_eq,hlive]
  · rw [hsame.blocks_eq,hfaults]

theorem FramePool.Building.mem_free {view : PoolView (Fin n)} (h : pool.Building heap asked heap')
    (hshows : pool.Shows view) (hready : view.cells .ready = []) (e : Fin n)
    (he : e.val < pool.elemNum) : e ∈ view.cells .free := by
  have hin : ¬view.CheckedOut e := by
    intro hout
    have hflag := (hshows.flag e).mpr ⟨he,hout⟩
    rw [(h.finished e he).2.2] at hflag
    exact absurd hflag (by decide)
  by_contra hfree
  apply hin
  intro list
  cases list with
  | free => exact hfree
  | ready =>
    rw [hready]
    exact List.not_mem_nil

end New

/-- `frame_pool_new` takes everything or nothing: when any of its requests is refused the heap is
what it was and `*ret_pool` stays unwritten; when all are granted the pool is complete, every
element is free, and a later `frame_pool_delete` gives back exactly what was taken. -/
theorem framePoolNew_allOrNothing (cfg : FramePoolCfg) (hpos : 0 < cfg.elemNum) (heap : Heap) :
    ((∃ k < 3 + cfg.elemNum.toNat, heap.grants (heap.requests + k) = false) →
      ∃ heap', framePoolNew cfg heap = (.noMem,none,heap') ∧ heap'.live = heap.live ∧
        heap'.faults = heap.faults) ∧
    ((∀ k < 3 + cfg.elemNum.toNat, heap.grants (heap.requests + k) = true) →
      ∃ pool heap', framePoolNew cfg heap = (.ok,some pool,heap') ∧ heap'.faults = heap.faults ∧
        heap.live ⊆ heap'.live ∧ pool.elemNum = cfg.elemNum.toNat ∧
        (∃ buffer : Fin cfg.elemNum.toNat → Nat, Function.Injective buffer ∧
          ∀ e, (pool.element e).buffer = some (buffer e) ∧ buffer e ∈ heap'.live \ heap.live ∧
            (pool.element e).index = e) ∧
        (∃ free, Linked pool.next pool.freeList free ∧ free.Nodup ∧ ∀ e, e ∈ free) ∧
        ∀ calls handle later, runEvents poolStep (some pool) calls = some handle →
          heap'.live \ heap.live ⊆ later.live →
          ∃ freed, framePoolDelete handle later = (.ok,freed) ∧
            freed.live = later.live \ (heap'.live \ heap.live) ∧ freed.faults = later.faults ∧
            (later.live = heap'.live → freed.live = heap.live)) := by
  refine ⟨fun hrefuse => ?_,fun hgrants => ?_⟩
  · obtain ⟨asked,heap',hnew,htook⟩ := framePoolNew_refused hpos hrefuse
    exact ⟨heap',hnew,htook.live_eq,htook.faults⟩
  · obtain ⟨pool,heap',hnew,hbuilt,hnum⟩ := framePoolNew_granted hpos hgrants
    obtain ⟨view,hshows,hready,_⟩ := framePoolNew_shows hnew
    obtain ⟨buffer,hinj,hbuffer⟩ := hbuilt.buffers hnum
    have hsub : heap.live ⊆ heap'.live := by
      rw [hbuilt.took.live]
      exact Finset.subset_union_left
    have hindex : ∀ e : Fin cfg.elemNum.toNat, e.val < pool.elemNum := by
      intro e
      rw [hnum]
      exact e.isLt
    refine ⟨pool,heap',hnew,hbuilt.took.faults,hsub,hnum,⟨buffer,hinj,?_⟩,
      ⟨view.cells .free,hshows.linked .free,view.cells_nodup .free,?_⟩,?_⟩
    · intro e
      refine ⟨(hbuffer e).1,?_,hshows.index e (hindex e)⟩
      rw [← hbuilt.took.toFinset_eq]
      exact List.mem_toFinset.mpr (hbuffer e).2
    · intro e
      exact hbuilt.mem_free hshows hready e (hindex e)
    · intro calls handle later hrun hlater
      obtain ⟨freed,hdelete,hlive,hfaults⟩ := framePoolDelete_frees hbuilt hrun hlater
      refine ⟨freed,hdelete,hlive,hfaults,?_⟩
      rintro heq
      rw [hlive,heq,Finset.sdiff_sdiff_eq_self hsub]

/-- The second buffer is refused. -/
theorem framePoolNew_allOrNothing_secondBuffer : ∃ heap',
    framePoolNew feedPoolCfg ⟨∅,0,fun k => k ≠ 4,0,by simp⟩ = (.noMem,none,heap') ∧
      heap'.live = ∅ ∧ heap'.faults = 0 :=
  (framePoolNew_allOrNothing feedPoolCfg (by decide) ⟨∅,0,fun k => k ≠ 4,0,by simp⟩).1
    ⟨4,by decide,rfl⟩

end Esp32Ipc
