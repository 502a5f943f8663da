import Esp32Ipc.Framework.Run
import Esp32Ipc.Platform.Ledger
import Esp32Ipc.Srtp.AesIcm
import Esp32Ipc.Srtp.Hmac

/-!
# Cipher and authentication handles

Allocating and deallocating the two kinds of context of the libsrtp patch, over a heap in which any
request may be refused. What mbedTLS keeps on the heap is a parameter. A handle keeps the blocks that
belong to it.
-/

namespace Esp32Ipc

open Framework

/-- The calls of mbedTLS that allocate or free: `mbedtls_md_init`, `mbedtls_md_setup` with room for
HMAC, zero on success, `mbedtls_md_free` and `mbedtls_aes_free`. -/
structure MbedtlsHeap (Ctx : Type) where
  mdInit : Ctx
  mdSetup : Heap → Ctx → Int × Ctx × Heap
  mdFree : Heap → Ctx → Heap
  aesFree : Heap → Heap

/-- What mbedTLS documents of them, `blocks` being what a context holds: whether it succeeds or not,
setup keeps nothing but what its context holds, `mbedtls_md_free` gives that back, and an AES context
holds nothing. -/
structure MbedtlsHeap.Documented {Ctx : Type} (mbedtls : MbedtlsHeap Ctx) (blocks : Ctx → List Nat) :
    Prop where
  setup : ∀ heap : Heap, ∃ asked, heap.Took asked (blocks (mbedtls.mdSetup heap mbedtls.mdInit).2.1)
    (mbedtls.mdSetup heap mbedtls.mdInit).2.2
  free : ∀ heap md, mbedtls.mdFree heap md = (blocks md).foldl Heap.free heap
  aes : ∀ heap, mbedtls.aesFree heap = heap

/-- `srtp_cipher_t` with its context. -/
structure SrtpCipher where
  cipher : Nat
  icm : Nat
  keyLen : Int
  keySize : Int
  deriving DecidableEq, Repr

/-- `srtp_auth_t` with its context. -/
structure SrtpAuth (Ctx : Type) where
  pointer : Nat
  md : Ctx
  keyLen : Int
  outLen : Int
  deriving DecidableEq, Repr

inductive SrtpHandle (Ctx : Type) where
  | cipher (c : SrtpCipher)
  | auth (a : SrtpAuth Ctx)
  deriving DecidableEq, Repr

inductive SrtpCall where
  | cipherAlloc (keyLen : Int)
  | authAlloc (keyLen outLen : Int) (info : Bool)
  | dealloc (k : Nat)

structure SrtpHandles (Ctx : Type) where
  heap : Heap
  handles : List (SrtpHandle Ctx)

/-- `srtp_aes_icm_mbedtls_alloc` with both its requests. -/
def aesIcmAlloc (heap : Heap) (keyLen : Int) : SrtpAuthStatus × Option SrtpCipher × Heap :=
  if keyLen ≠ srtpAesIcm128KeyLenWsalt ∧ keyLen ≠ srtpAesIcm256KeyLenWsalt then (.badParam,none,heap)
  else
    match heap.alloc with
    | (none, heap) => (.allocFail,none,heap)
    | (some c, heap) =>
      match heap.alloc with
      | (none, heap) => (.allocFail,none,heap.free c)
      | (some icm, heap) =>
        let keySize := if keyLen = srtpAesIcm256KeyLenWsalt then srtpAes256KeyLen else srtpAes128KeyLen
        (.ok,some ⟨c,icm,keyLen,keySize⟩,heap)

section Calls

variable {Ctx : Type} (mbedtls : MbedtlsHeap Ctx)

def aesIcmDealloc (heap : Heap) (c : SrtpCipher) : Heap :=
  ((mbedtls.aesFree heap).free c.icm).free c.cipher

/-- `info` says whether the build has SHA-1. -/
def srtpHmacMbedtlsAlloc (heap : Heap) (keyLen outLen : Int) (info : Bool) :
    SrtpAuthStatus × Option (SrtpAuth Ctx) × Heap :=
  if keyLen > 20 then (.badParam,none,heap)
  else if outLen > 20 then (.badParam,none,heap)
  else
    match heap.alloc with
    | (none, heap) => (.allocFail,none,heap)
    | (some pointer, heap) =>
      if info = false then (.algoFail,none,heap.free pointer)
      else
        let (ret, md, heap) := mbedtls.mdSetup heap mbedtls.mdInit
        if ret ≠ 0 then (.allocFail,none,(mbedtls.mdFree heap md).free pointer)
        else (.ok,some ⟨pointer,md,keyLen,outLen⟩,heap)

def srtpHmacMbedtlsDealloc (heap : Heap) (a : SrtpAuth Ctx) : Heap :=
  (mbedtls.mdFree heap a.md).free a.pointer

def SrtpHandle.dealloc (heap : Heap) : SrtpHandle Ctx → Heap
  | .cipher c => aesIcmDealloc mbedtls heap c
  | .auth a => srtpHmacMbedtlsDealloc mbedtls heap a

def srtpStep (s : SrtpHandles Ctx) : SrtpCall → Option (SrtpHandles Ctx)
  | .cipherAlloc keyLen =>
    let (_, c, heap) := aesIcmAlloc s.heap keyLen
    some ⟨heap,s.handles ++ c.toList.map .cipher⟩
  | .authAlloc keyLen outLen info =>
    let (_, a, heap) := srtpHmacMbedtlsAlloc mbedtls s.heap keyLen outLen info
    some ⟨heap,s.handles ++ a.toList.map .auth⟩
  | .dealloc k =>
    match s.handles[k]? with
    | none => none
    | some h => some ⟨h.dealloc mbedtls s.heap,s.handles.eraseIdx k⟩

/-- A cipher has the key size of its key length; a tag is no longer than a digest, and its context is
one that was set up. -/
def SrtpHandle.WellFormed : SrtpHandle Ctx → Prop
  | .cipher c => c.keyLen = c.keySize + srtpSaltLen ∧ (c.keySize = 16 ∨ c.keySize = 32)
  | .auth a => a.keyLen ≤ 20 ∧ a.outLen ≤ 20 ∧
    ∃ heap heap', mbedtls.mdSetup heap mbedtls.mdInit = (0,a.md,heap')

end Calls

/-- The blocks of a handle, in the order in which `dealloc` frees them. -/
def SrtpHandle.blocks {Ctx : Type} (mdBlocks : Ctx → List Nat) : SrtpHandle Ctx → List Nat
  | .cipher c => [c.icm, c.cipher]
  | .auth a => mdBlocks a.md ++ [a.pointer]

def SrtpHandles.blocks {Ctx : Type} (mdBlocks : Ctx → List Nat) (s : SrtpHandles Ctx) : List Nat :=
  s.handles.flatMap (SrtpHandle.blocks mdBlocks)

section Ledger

variable {Ctx : Type} {mbedtls : MbedtlsHeap Ctx} {mdBlocks : Ctx → List Nat} {heap heap' : Heap}
  {asked : Nat} {held : List Nat} {s t : SrtpHandles Ctx}

theorem SrtpHandle.dealloc_eq (h : mbedtls.Documented mdBlocks) (d : SrtpHandle Ctx) :
    d.dealloc mbedtls heap = (d.blocks mdBlocks).foldl Heap.free heap := by
  cases d with
  | cipher c =>
    change ((mbedtls.aesFree heap).free c.icm).free c.cipher = _
    rw [h.aes]
    rfl
  | auth a =>
    change (mbedtls.mdFree heap a.md).free a.pointer = _
    rw [h.free,SrtpHandle.blocks,List.foldl_append]
    rfl

theorem Heap.Took.freeList {blocks : List Nat} (h : heap.Took asked (blocks ++ held) heap') :
    heap.Took asked held (blocks.foldl Heap.free heap') := by
  induction blocks generalizing heap' with
  | nil => exact h
  | cons block blocks ih => exact ih h.free

/-- An allocation keeps what its handle says, or nothing. -/
inductive AllocOutcome {α : Type} (mbedtls : MbedtlsHeap Ctx) (mdBlocks : Ctx → List Nat) (heap : Heap)
    (held : List Nat) (toHandle : α → SrtpHandle Ctx) : SrtpAuthStatus × Option α × Heap → Prop where
  | refused {status : SrtpAuthStatus} {heap' : Heap} {asked : Nat} (hstatus : status ≠ .ok)
      (took : heap.Took asked held heap') :
      AllocOutcome mbedtls mdBlocks heap held toHandle (status,none,heap')
  | granted {x : α} {heap' : Heap} {asked : Nat} (wf : (toHandle x).WellFormed mbedtls)
      (took : heap.Took asked (held ++ (toHandle x).blocks mdBlocks) heap') :
      AllocOutcome mbedtls mdBlocks heap held toHandle (.ok,some x,heap')

theorem aesIcmAlloc_outcome (h : heap.Took asked held heap') (keyLen : Int) :
    AllocOutcome mbedtls mdBlocks heap held SrtpHandle.cipher (aesIcmAlloc heap' keyLen) := by
  rw [aesIcmAlloc]
  split
  · exact .refused (by simp) h
  · rename_i hlen
    cases hfirst : heap'.alloc with
    | mk c heap₁ =>
      cases c with
      | none => exact .refused (by simp) (h.of_alloc_none hfirst)
      | some c =>
        have htook := (h.of_alloc_some hfirst).1
        cases hsecond : heap₁.alloc with
        | mk icm heap₂ =>
          cases icm with
          | none =>
            simp only [hsecond]
            exact .refused (by simp) (htook.of_alloc_none hsecond).free
          | some icm =>
            have htook' := (htook.of_alloc_some hsecond).1
            have hperm : ([icm,c] ++ held).Perm (held ++ [icm,c]) := List.perm_append_comm
            simp only [hsecond]
            refine .granted ?_ (htook'.perm hperm)
            simp only [SrtpHandle.WellFormed]
            split <;> simp_all [srtpAesIcm128KeyLenWsalt,srtpAesIcm256KeyLenWsalt,srtpSaltLen,
              srtpAes128KeyLen,srtpAes256KeyLen]

theorem srtpHmacMbedtlsAlloc_outcome (hdoc : mbedtls.Documented mdBlocks)
    (h : heap.Took asked held heap') (keyLen outLen : Int) (info : Bool) :
    AllocOutcome mbedtls mdBlocks heap held SrtpHandle.auth
      (srtpHmacMbedtlsAlloc mbedtls heap' keyLen outLen info) := by
  rw [srtpHmacMbedtlsAlloc]
  by_cases hkey : keyLen > 20
  · rw [if_pos hkey]
    exact .refused (by simp) h
  by_cases hout : outLen > 20
  · rw [if_neg hkey,if_pos hout]
    exact .refused (by simp) h
  rw [if_neg hkey,if_neg hout]
  cases hfirst : heap'.alloc with
  | mk pointer heap₁ =>
    cases pointer with
    | none => exact .refused (by simp) (h.of_alloc_none hfirst)
    | some pointer =>
      have htook := (h.of_alloc_some hfirst).1
      cases info with
      | false => exact .refused (by simp) htook.free
      | true =>
        obtain ⟨ret,md,heap₂,hsetup⟩ : ∃ ret md heap₂, mbedtls.mdSetup heap₁ mbedtls.mdInit =
          (ret,md,heap₂) := ⟨_,_,_,rfl⟩
        obtain ⟨more,hmore⟩ := hdoc.setup heap₁
        rw [hsetup] at hmore
        have hboth := htook.trans hmore
        simp only [hsetup,Bool.true_eq_false,if_false]
        by_cases hret : ret ≠ 0
        · rw [if_pos hret,hdoc.free]
          exact .refused (by simp) hboth.freeList.free
        · rw [if_neg hret]
          cases not_not.mp hret
          have hperm : (mdBlocks md ++ pointer :: held).Perm (held ++ (mdBlocks md ++ [pointer])) := by
            rw [List.append_cons]
            exact List.perm_append_comm
          exact .granted ⟨not_lt.mp hkey,not_lt.mp hout,heap₁,heap₂,hsetup⟩ (hboth.perm hperm)

/-- The blocks of the handles are what was taken from the heap, and every handle is sound. -/
structure SrtpHandles.Sound (mbedtls : MbedtlsHeap Ctx) (mdBlocks : Ctx → List Nat) (heap : Heap)
    (s : SrtpHandles Ctx) : Prop where
  took : ∃ asked, heap.Took asked (s.blocks mdBlocks) s.heap
  wellFormed : ∀ h ∈ s.handles, h.WellFormed mbedtls

theorem SrtpHandles.Sound.start (heap : Heap) :
    SrtpHandles.Sound mbedtls mdBlocks heap ⟨heap,[]⟩ :=
  ⟨⟨0,.refl heap⟩,by simp⟩

private theorem AllocOutcome.sound {α : Type} {toHandle : α → SrtpHandle Ctx}
    {out : SrtpAuthStatus × Option α × Heap} (h : s.Sound mbedtls mdBlocks heap)
    (hout : AllocOutcome mbedtls mdBlocks heap (s.blocks mdBlocks) toHandle out) :
    SrtpHandles.Sound mbedtls mdBlocks heap ⟨out.2.2,s.handles ++ out.2.1.toList.map toHandle⟩ := by
  cases hout with
  | refused _ took => exact ⟨⟨_,by simpa [SrtpHandles.blocks] using took⟩,by simpa using h.wellFormed⟩
  | granted wf took =>
    refine ⟨⟨_,by simpa [SrtpHandles.blocks] using took⟩,?_⟩
    intro d hd
    rcases List.mem_append.mp hd with hd | hd
    · exact h.wellFormed d hd
    · simp only [Option.toList_some,List.map_cons,List.map_nil,List.mem_singleton] at hd
      exact hd ▸ wf

theorem SrtpHandles.Sound.step (hdoc : mbedtls.Documented mdBlocks) (s : SrtpHandles Ctx)
    (call : SrtpCall) (t : SrtpHandles Ctx) (h : s.Sound mbedtls mdBlocks heap)
    (hstep : srtpStep mbedtls s call = some t) : t.Sound mbedtls mdBlocks heap := by
  obtain ⟨asked,htook⟩ := h.took
  cases call with
  | cipherAlloc keyLen =>
    cases Option.some.inj hstep
    exact (aesIcmAlloc_outcome htook keyLen).sound h
  | authAlloc keyLen outLen info =>
    cases Option.some.inj hstep
    exact (srtpHmacMbedtlsAlloc_outcome hdoc htook keyLen outLen info).sound h
  | dealloc k =>
    rw [srtpStep] at hstep
    cases hk : s.handles[k]? with
    | none => simp [hk] at hstep
    | some d =>
      rw [hk] at hstep
      cases Option.some.inj hstep
      obtain ⟨hlt,rfl⟩ := List.getElem?_eq_some_iff.mp hk
      have hperm : s.handles.Perm (s.handles[k] :: s.handles.eraseIdx k) :=
        (List.getElem_cons_eraseIdx_perm hlt).symm
      refine ⟨⟨asked,?_⟩,fun e he => h.wellFormed e (List.mem_of_mem_eraseIdx he)⟩
      rw [SrtpHandle.dealloc_eq hdoc]
      exact (htook.perm (hperm.flatMap_right _)).freeList

/-- Over every run of allocations and deallocations and every pattern of refused requests: the heap
holds exactly the blocks of the handles that are out, each of them once, nothing is freed twice, and
every handle has the sizes of its kind. -/
theorem srtpHandles_ledger (hdoc : mbedtls.Documented mdBlocks) {calls : List SrtpCall}
    (hrun : runEvents (srtpStep mbedtls) ⟨heap,[]⟩ calls = some s) :
    s.heap.live = heap.live ∪ (s.blocks mdBlocks).toFinset ∧ (s.blocks mdBlocks).Nodup ∧
      (∀ block ∈ s.blocks mdBlocks, block ∉ heap.live) ∧ s.heap.faults = heap.faults ∧
      ∀ h ∈ s.handles, h.WellFormed mbedtls := by
  have hsound : s.Sound mbedtls mdBlocks heap :=
    runEvents_invariant (SrtpHandles.Sound.step hdoc) (.start heap) hrun
  obtain ⟨asked,htook⟩ := hsound.took
  exact ⟨htook.live,htook.nodup,fun _ hb => htook.notMem_live hb,htook.faults,hsound.wellFormed⟩

/-- An mbedTLS whose setup asks for the digest's context and the HMAC pads; when the second is refused
it frees the first itself. A context is the list of its blocks. -/
def twoBlockMbedtls : MbedtlsHeap (List Nat) where
  mdInit := []
  mdSetup heap md :=
    match heap.alloc with
    | (none, heap) => (-1,md,heap)
    | (some mdCtx, heap) =>
      match heap.alloc with
      | (none, heap) => (-1,md,heap.free mdCtx)
      | (some hmacCtx, heap) => (0,[hmacCtx,mdCtx],heap)
  mdFree heap md := md.foldl Heap.free heap
  aesFree heap := heap

theorem twoBlockMbedtls_documented : twoBlockMbedtls.Documented id where
  setup heap := by
    rw [twoBlockMbedtls]
    cases hfirst : heap.alloc with
    | mk mdCtx heap₁ =>
      cases mdCtx with
      | none =>
        simp only [hfirst]
        exact ⟨_,(Heap.Took.refl heap).of_alloc_none hfirst⟩
      | some mdCtx =>
        have htook := ((Heap.Took.refl heap).of_alloc_some hfirst).1
        cases hsecond : heap₁.alloc with
        | mk hmacCtx heap₂ =>
          cases hmacCtx with
          | none =>
            simp only [hfirst,hsecond]
            exact ⟨_,(htook.of_alloc_none hsecond).free⟩
          | some hmacCtx =>
            simp only [hfirst,hsecond]
            exact ⟨_,(htook.of_alloc_some hsecond).1⟩
  free heap md := rfl
  aes heap := rfl

/-- A cipher and an authentication context, of which the cipher is given back; the last allocation
runs out of memory in the middle of `mbedtls_md_setup`. -/
def srtpHandlesHeap : Heap := { Heap.ample with grants := fun k => decide (k ≠ 7) }

def srtpHandlesCalls : List SrtpCall :=
  [.cipherAlloc 30,.authAlloc 20 10 true,.dealloc 0,.authAlloc 20 10 true]

theorem srtpHandles_ledger_fourCalls : ∃ s,
    runEvents (srtpStep twoBlockMbedtls) ⟨srtpHandlesHeap,[]⟩ srtpHandlesCalls = some s ∧
    s.handles.length = 1 ∧ s.heap.live = srtpHandlesHeap.live ∪ (s.blocks id).toFinset ∧
      (s.blocks id).Nodup ∧ (∀ block ∈ s.blocks id, block ∉ srtpHandlesHeap.live) ∧
      s.heap.faults = srtpHandlesHeap.faults ∧ ∀ h ∈ s.handles, h.WellFormed twoBlockMbedtls := by
  have hrun : runEvents (srtpStep twoBlockMbedtls) ⟨srtpHandlesHeap,[]⟩ srtpHandlesCalls = some _ := rfl
  exact ⟨_,hrun,rfl,srtpHandles_ledger twoBlockMbedtls_documented hrun⟩

end Ledger

end Esp32Ipc
