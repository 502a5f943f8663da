import Mathlib.Data.Finset.Basic
import Mathlib.Tactic

/-!
# ESP-IDF and FreeRTOS primitives

Error codes, the heap as a ledger of live blocks, and counting semaphores. The firmware checks
every allocation for NULL, so the ledger carries an oracle that decides which request is
granted; a block is named by the number of the request that created it.
-/

namespace Esp32Ipc

/-- The `esp_err_t` values the firmware returns. -/
inductive EspErr where
  | ok
  | fail
  | noMem
  | invalidArg
  | invalidState
  | notSupported
  | timeout
  deriving DecidableEq, Repr

/-- Live heap blocks. `grants k` decides whether request number `k` is granted and `faults` counts
the frees of something that was not live. -/
structure Heap where
  live : Finset Nat
  requests : Nat
  grants : Nat → Bool
  faults : Nat
  live_lt : ∀ block ∈ live, block < requests

namespace Heap

/-- One request, answered with a new block or NULL. -/
def alloc (heap : Heap) : Option Nat × Heap :=
  if heap.grants heap.requests then
    (some heap.requests,
      { heap with
        live := insert heap.requests heap.live
        requests := heap.requests + 1
        live_lt := by
          intro block hblock
          rcases Finset.mem_insert.mp hblock with rfl | h
          · exact Nat.lt_succ_self _
          · exact Nat.lt_succ_of_lt (heap.live_lt block h) })
  else
    (none,
      { heap with
        requests := heap.requests + 1
        live_lt := fun block h => Nat.lt_succ_of_lt (heap.live_lt block h) })

/-- `free` of a non-NULL pointer. -/
def free (heap : Heap) (block : Nat) : Heap :=
  if block ∈ heap.live then
    { heap with
      live := heap.live.erase block
      live_lt := fun b h => heap.live_lt b (Finset.mem_of_mem_erase h) }
  else { heap with faults := heap.faults + 1 }

def freePtr (heap : Heap) (ptr : Option Nat) : Heap := ptr.elim heap heap.free

def ample : Heap := ⟨∅,0,fun _ => true,0,by simp⟩

end Heap

structure CountingSem where
  block : Nat
  maxCount : Nat
  count : Nat
  deriving DecidableEq, Repr

/-- `xSemaphoreCreateCounting` allocates its control block. -/
def xSemaphoreCreateCounting (heap : Heap) (maxCount initialCount : Nat) :
    Option CountingSem × Heap :=
  match heap.alloc with
  | (none, heap) => (none, heap)
  | (some block, heap) => (some ⟨block,maxCount,initialCount⟩, heap)

/-- `xSemaphoreGive` and its ISR variant: a full semaphore refuses, and the token is lost. -/
def xSemaphoreGive (sem : CountingSem) : Bool × CountingSem :=
  if sem.count < sem.maxCount then (true, { sem with count := sem.count + 1 }) else (false, sem)

/-- The attempt inside `xSemaphoreTake`; `false` is what a timeout returns. -/
def xSemaphoreTake (sem : CountingSem) : Bool × CountingSem :=
  if 0 < sem.count then (true, { sem with count := sem.count - 1 }) else (false, sem)

theorem xSemaphoreGive_of_lt {sem : CountingSem} (h : sem.count < sem.maxCount) :
    xSemaphoreGive sem = (true, { sem with count := sem.count + 1 }) := if_pos h

theorem xSemaphoreTake_of_pos {sem : CountingSem} (h : 0 < sem.count) :
    xSemaphoreTake sem = (true, { sem with count := sem.count - 1 }) := if_pos h

theorem xSemaphoreTake_of_zero {sem : CountingSem} (h : sem.count = 0) :
    xSemaphoreTake sem = (false, sem) := if_neg (by omega)

end Esp32Ipc
