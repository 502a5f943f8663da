import Esp32Ipc.Framework.LinkedList
import Esp32Ipc.Platform.Rtos
import Mathlib.Data.List.FinRange

/-!
# Frame pool

A fixed array of elements threaded onto two intrusive lists through one node field, a flag on
each element, and a counting semaphore over the ready list. An element is named by its position
in the array, so a pointer to an element of another pool cannot be formed.
-/

namespace Esp32Ipc

open Framework

/-- `frame_pool_cfg_t`. Alignment and capability flags only reach the allocator. -/
structure FramePoolCfg where
  elemNum : Int
  bufferSize : Nat

/-- `struct frame_pool_element`; `node` is `sle_next`. -/
structure FramePoolElement (n : Nat) where
  checkedOut : Bool
  ownsBuffer : Bool
  node : Option (Fin n)
  index : Nat
  buffer : Option Nat
  size : Nat
  deriving DecidableEq

/-- The two `SLIST_HEAD` fields. -/
inductive FramePoolList where
  | free
  | ready
  deriving DecidableEq, Repr

/-- `struct frame_pool`, with the blocks it and its element array occupy. Its value starts to exist
once `ready_sem` does: until then `frame_pool_new` only holds raw blocks. -/
structure FramePool (n : Nat) where
  block : Nat
  elemNum : Nat
  freeList : Option (Fin n)
  readyList : Option (Fin n)
  elementBlock : Nat
  element : Fin n → FramePoolElement n
  readySem : CountingSem

variable {n : Nat}

namespace FramePool

/-- `SLIST_FIRST`. -/
def first (pool : FramePool n) : FramePoolList → Option (Fin n)
  | .free => pool.freeList
  | .ready => pool.readyList

def setFirst (pool : FramePool n) (list : FramePoolList) (p : Option (Fin n)) : FramePool n :=
  match list with
  | .free => { pool with freeList := p }
  | .ready => { pool with readyList := p }

def setElement (pool : FramePool n) (e : Fin n) (element : FramePoolElement n) : FramePool n :=
  { pool with element := Function.update pool.element e element }

/-- The shared link field of all elements. -/
def next (pool : FramePool n) (e : Fin n) : Option (Fin n) := (pool.element e).node

def checkedOut (pool : FramePool n) (e : Fin n) : Bool := (pool.element e).checkedOut

@[simp] theorem first_setElement (pool : FramePool n) (e : Fin n) (el : FramePoolElement n)
    (list : FramePoolList) : (pool.setElement e el).first list = pool.first list := by
  cases list <;> rfl

@[simp] theorem first_setFirst (pool : FramePool n) (list list' : FramePoolList)
    (p : Option (Fin n)) :
    (pool.setFirst list p).first list' = if list' = list then p else pool.first list' := by
  cases list <;> cases list' <;> rfl

@[simp] theorem element_setFirst (pool : FramePool n) (list : FramePoolList)
    (p : Option (Fin n)) : (pool.setFirst list p).element = pool.element := by
  cases list <;> rfl

@[simp] theorem elemNum_setFirst (pool : FramePool n) (list : FramePoolList)
    (p : Option (Fin n)) : (pool.setFirst list p).elemNum = pool.elemNum := by
  cases list <;> rfl

@[simp] theorem readySem_setFirst (pool : FramePool n) (list : FramePoolList)
    (p : Option (Fin n)) : (pool.setFirst list p).readySem = pool.readySem := by
  cases list <;> rfl

@[simp] theorem elemNum_setElement (pool : FramePool n) (e : Fin n) (el : FramePoolElement n) :
    (pool.setElement e el).elemNum = pool.elemNum := rfl

@[simp] theorem readySem_setElement (pool : FramePool n) (e : Fin n) (el : FramePoolElement n) :
    (pool.setElement e el).readySem = pool.readySem := rfl

@[simp] theorem element_setElement (pool : FramePool n) (e : Fin n) (el : FramePoolElement n) :
    (pool.setElement e el).element = Function.update pool.element e el := rfl

end FramePool

def slistInsertHead (pool : FramePool n) (list : FramePoolList) (e : Fin n) : FramePool n :=
  (pool.setElement e { pool.element e with node := pool.first list }).setFirst list (some e)

/-- `SLIST_REMOVE` of the first element, which is `SLIST_REMOVE_HEAD`; no other element is ever
removed. -/
def slistRemoveHead (pool : FramePool n) (list : FramePoolList) (e : Fin n) : FramePool n :=
  pool.setFirst list (pool.next e)

/-- Move an element onto a list. Fails if it is not currently checked out. -/
def listPush (pool : FramePool n) (list : FramePoolList) (e : Fin n) : EspErr × FramePool n :=
  if pool.checkedOut e = false then (.invalidState, pool)
  else
    let pool := pool.setElement e { pool.element e with checkedOut := false }
    (.ok, slistInsertHead pool list e)

/-- Take the head off a list and check it out to the caller. NULL if empty. -/
def listPop (pool : FramePool n) (list : FramePoolList) : Option (Fin n) × FramePool n :=
  match pool.first list with
  | none => (none, pool)
  | some e =>
    let pool := slistRemoveHead pool list e
    (some e, pool.setElement e { pool.element e with checkedOut := true })

/-- `frame_pool_delete`, on the heap that holds the pool. -/
def framePoolDelete (handle : Option (FramePool n)) (heap : Heap) : EspErr × Heap :=
  match handle with
  | none => (.invalidArg, heap)
  | some pool =>
    let owned := (List.finRange n).filter fun i => i.val < pool.elemNum ∧ (pool.element i).ownsBuffer
    let heap := owned.foldl (fun heap i => heap.freePtr (pool.element i).buffer) heap
    (.ok, ((heap.free pool.readySem.block).free pool.elementBlock).free pool.block)

/-- The loop of `frame_pool_new`: one buffer for each remaining element, every element onto the
free list; the first refused buffer takes the whole pool down again. -/
def framePoolFill (cfg : FramePoolCfg) : List (Fin n) → FramePool n → Heap →
    EspErr × Option (FramePool n) × Heap
  | [], pool, heap => (.ok, some pool, heap)
  | i :: rest, pool, heap =>
    match heap.alloc with
    | (none, heap) => (.noMem, none, (framePoolDelete (some pool) heap).2)
    | (some buffer, heap) =>
      -- `checked_out` is set so that the push below is legal.
      let element : FramePoolElement n :=
        { pool.element i with
          buffer := some buffer
          ownsBuffer := true
          index := i
          size := cfg.bufferSize
          checkedOut := true }
      let pool := { pool.setElement i element with elemNum := pool.elemNum + 1 }
      framePoolFill cfg rest (listPush pool .free i).2 heap

/-- What `heap_caps_calloc` leaves in an element. -/
def zeroedElement : FramePoolElement n := ⟨false,false,none,0,none,0⟩

/-- `frame_pool_new`. `none` in the middle is a `*ret_pool` that stays unwritten. -/
def framePoolNew (cfg : FramePoolCfg) (heap : Heap) :
    EspErr × Option (FramePool cfg.elemNum.toNat) × Heap :=
  if ¬0 < cfg.elemNum then (.invalidArg, none, heap)
  else
    match heap.alloc with
    | (none, heap) => (.noMem, none, heap)
    | (some block, heap) =>
      match heap.alloc with
      | (none, heap) => (.noMem, none, heap.free block)
      | (some elementBlock, heap) =>
        match xSemaphoreCreateCounting heap cfg.elemNum.toNat 0 with
        | (none, heap) => (.noMem, none, (heap.free elementBlock).free block)
        | (some sem, heap) =>
          let pool : FramePool cfg.elemNum.toNat :=
            { block := block
              elemNum := 0
              freeList := none
              readyList := none
              elementBlock := elementBlock
              element := fun _ => zeroedElement
              readySem := sem }
          framePoolFill cfg (List.finRange cfg.elemNum.toNat) pool heap

def framePoolAcquire (handle : Option (FramePool n)) : Option (Fin n) × Option (FramePool n) :=
  match handle with
  | none => (none, none)
  | some pool => ((listPop pool .free).1, some (listPop pool .free).2)

/-- `frame_pool_submit`, run to its end: the locked push, then the semaphore. -/
def framePoolSubmit (handle : Option (FramePool n)) (element : Option (Fin n)) :
    EspErr × Option (FramePool n) :=
  match handle, element with
  | some pool, some e =>
    match listPush pool .ready e with
    | (.ok, pool) => (.ok, some { pool with readySem := (xSemaphoreGive pool.readySem).2 })
    | (ret, pool) => (ret, some pool)
  | handle, _ => (.invalidArg, handle)

/-- `frame_pool_recv`. A failed take is a wait that timed out. -/
def framePoolRecv (handle : Option (FramePool n)) : Option (Fin n) × Option (FramePool n) :=
  match handle with
  | none => (none, none)
  | some pool =>
    match xSemaphoreTake pool.readySem with
    | (false, _) => (none, some pool)
    | (true, sem) =>
      let pool := { pool with readySem := sem }
      ((listPop pool .ready).1, some (listPop pool .ready).2)

/-- `frame_pool_release`. In a built pool the array bound is implied by `elem_num`. -/
def framePoolRelease (handle : Option (FramePool n)) (index : Int) :
    EspErr × Option (FramePool n) :=
  match handle with
  | none => (.invalidArg, none)
  | some pool =>
    if h : 0 ≤ index ∧ index < pool.elemNum ∧ index < n then
      ((listPush pool .free ⟨index.toNat,by omega⟩).1,
        some (listPush pool .free ⟨index.toNat,by omega⟩).2)
    else (.invalidArg, some pool)

end Esp32Ipc
