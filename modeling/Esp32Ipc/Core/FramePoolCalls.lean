import Esp32Ipc.Core.FramePoolView
import Esp32Ipc.Framework.Run

/-!
# Sequences of frame pool calls

A new pool shows the view with every element free. Each of the four calls either fails and leaves
lists and flags alone, or pushes an element that was checked out, or pops one and checks it out.
-/

namespace Esp32Ipc

open Framework

variable {n : Nat} {pool : FramePool n} {view : PoolView (Fin n)}

theorem FramePool.Shows.withSem (h : pool.Shows view) (sem : CountingSem) :
    FramePool.Shows { pool with readySem := sem } view := ⟨h.linked,h.flag,h.built,h.index⟩

section New

variable {cfg : FramePoolCfg} {heap heap' : Heap}

private theorem Shows.enter (h : pool.Shows view) {i : Fin n} (hi : i.val = pool.elemNum)
    (element : FramePoolElement n) (hnode : element.node = pool.next i)
    (hflag : element.checkedOut = true) (hindex : element.index = i) :
    FramePool.Shows { pool.setElement i element with elemNum := pool.elemNum + 1 } view := by
  have hout : view.CheckedOut i := by
    intro list hmem
    have := h.built list i hmem
    omega
  refine ⟨fun list => ?_,fun e => ?_,fun list e he => ?_,fun e he => ?_⟩
  · have hfirst : FramePool.first { pool.setElement i element with elemNum := pool.elemNum + 1 }
        list = pool.first list := by cases list <;> rfl
    rw [hfirst]
    apply (h.linked list).congr
    intro a ha
    have hai : a ≠ i := by
      intro heq
      subst heq
      exact hout list ha
    simp [FramePool.next,hai]
  · by_cases hei : e = i
    · subst e
      simp [FramePool.checkedOut,hflag,hi,hout]
    · have hval : e.val ≠ pool.elemNum := fun hv => hei (Fin.ext (hv.trans hi.symm))
      have hold := h.flag e
      simp only [FramePool.checkedOut,FramePool.element_setElement,Function.update_of_ne hei,
        Nat.lt_succ_iff_lt_or_eq,hval,or_false] at hold ⊢
      exact hold
  · exact Nat.lt_succ_of_lt (h.built list e he)
  · by_cases hei : e = i
    · subst e
      simpa using hindex
    · have hval : e.val ≠ pool.elemNum := fun hv => hei (Fin.ext (hv.trans hi.symm))
      have hlt : e.val < pool.elemNum + 1 := he
      simpa [hei] using h.index e (by omega)

/-- The loop invariant of `frame_pool_new`: the elements left are those from `elem_num` on. -/
private theorem framePoolFill_shows {rest : List (Fin n)} {pool' : FramePool n}
    (hpool : pool.Shows view) (hready : view.cells .ready = [])
    (hrest : rest.map Fin.val = List.range' pool.elemNum (n - pool.elemNum))
    (h : framePoolFill cfg rest pool heap = (.ok,some pool',heap')) :
    ∃ view', pool'.Shows view' ∧ view'.cells .ready = [] ∧ n ≤ pool'.elemNum ∧
      pool'.readySem = pool.readySem := by
  induction rest generalizing pool view heap with
  | nil =>
    simp only [framePoolFill,Prod.mk.injEq,Option.some.injEq,true_and] at h
    obtain ⟨rfl,_⟩ := h
    have hlen := congrArg List.length hrest
    simp only [List.map_nil,List.length_nil,List.length_range'] at hlen
    exact ⟨view,hpool,hready,by omega,rfl⟩
  | cons i rest ih =>
    have hlt : pool.elemNum < n := by
      have hlen := congrArg List.length hrest
      simp only [List.map_cons,List.length_cons,List.length_range'] at hlen
      omega
    obtain ⟨hi,htail⟩ : i.val = pool.elemNum ∧
        rest.map Fin.val = List.range' (pool.elemNum + 1) (n - (pool.elemNum + 1)) := by
      rw [show n - pool.elemNum = (n - (pool.elemNum + 1)) + 1 by omega,List.range'_succ] at hrest
      exact List.cons.inj hrest
    rw [framePoolFill] at h
    cases halloc : heap.alloc with
    | mk got heap =>
      cases got with
      | none => simp [halloc] at h
      | some buffer =>
        simp only [halloc] at h
        have hentered := Shows.enter hpool hi
          { pool.element i with
            buffer := some buffer
            ownsBuffer := true
            index := i
            size := cfg.bufferSize
            checkedOut := true } rfl rfl rfl
        have hout : view.CheckedOut i := by
          intro list hmem
          have := hpool.built list i hmem
          omega
        have hpushed := (hentered.listPush .free (e := i)
          (Nat.lt_succ_of_le hi.le) hout).2
        obtain ⟨view',hshows,hempty,hnum,hsem⟩ := ih hpushed (by simpa using hready)
          (by rw [listPush_elemNum]; exact htail) h
        exact ⟨view',hshows,hempty,hnum,by simpa using hsem⟩

/-- A pool that `frame_pool_new` returns is complete, has nothing on its ready list, and its
semaphore is empty with one token to come for every element. -/
theorem framePoolNew_shows {pool : FramePool cfg.elemNum.toNat}
    (h : framePoolNew cfg heap = (.ok,some pool,heap')) :
    ∃ view, pool.Shows view ∧ view.cells .ready = [] ∧ cfg.elemNum.toNat ≤ pool.elemNum ∧
      pool.readySem.count = 0 ∧ pool.readySem.maxCount = cfg.elemNum.toNat := by
  unfold framePoolNew at h
  split at h
  · simp at h
  · cases h₁ : heap.alloc with
    | mk block heap₁ =>
      cases block with
      | none => simp [h₁] at h
      | some block =>
        cases h₂ : heap₁.alloc with
        | mk elementBlock heap₂ =>
          cases elementBlock with
          | none => simp [h₁,h₂] at h
          | some elementBlock =>
            cases h₃ : heap₂.alloc with
            | mk semBlock heap₃ =>
              cases semBlock with
              | none => simp [h₁,h₂,h₃,xSemaphoreCreateCounting] at h
              | some semBlock =>
                simp only [h₁,h₂,h₃,xSemaphoreCreateCounting] at h
                obtain ⟨view,hshows,hempty,hnum,hsem⟩ := framePoolFill_shows
                  (show FramePool.Shows _ PoolView.empty from ⟨fun list => by cases list <;> rfl,
                    fun e => by simp [FramePool.checkedOut,zeroedElement],
                    fun list e he => by simp at he,fun e he => absurd he (Nat.not_lt_zero _)⟩)
                  rfl (by simp [List.range_eq_range']) h
                exact ⟨view,hshows,hempty,hnum,by rw [hsem],by rw [hsem]⟩

end New

/-- A call on the pool; `submit` and `release` may be handed anything. -/
inductive PoolCall (n : Nat) where
  | acquire
  | submit (element : Option (Fin n))
  | recv
  | release (index : Int)
  deriving DecidableEq, Repr

inductive PoolRet (n : Nat) where
  | err (code : EspErr)
  | element (element : Option (Fin n))
  deriving DecidableEq, Repr

/-- What a call returns, and the pool after it. -/
def poolCall (handle : Option (FramePool n)) : PoolCall n → PoolRet n × Option (FramePool n)
  | .acquire => ((.element (framePoolAcquire handle).1),(framePoolAcquire handle).2)
  | .submit e => ((.err (framePoolSubmit handle e).1),(framePoolSubmit handle e).2)
  | .recv => ((.element (framePoolRecv handle).1),(framePoolRecv handle).2)
  | .release i => ((.err (framePoolRelease handle i).1),(framePoolRelease handle i).2)

def poolStep (handle : Option (FramePool n)) (call : PoolCall n) : Option (Option (FramePool n)) :=
  some (poolCall handle call).2

namespace PoolRet

/-- `ESP_ERR_INVALID_STATE`, `ESP_ERR_INVALID_ARG` or NULL. -/
def Failed (ret : PoolRet n) : Prop :=
  ret = .err .invalidState ∨ ret = .err .invalidArg ∨ ret = .element none

end PoolRet

/-- The call at this moment returns `e`. -/
def handsOut (e : Fin n) (m : Option (FramePool n) × PoolCall n) : Prop :=
  (poolCall m.1 m.2).1 = .element (some e)

/-- The call at this moment is a successful submit or release of `e`. -/
def givesBack (e : Fin n) (m : Option (FramePool n) × PoolCall n) : Prop :=
  (poolCall m.1 m.2).1 = .err .ok ∧ (m.2 = .submit (some e) ∨ m.2 = .release e)

/-- Everything one call can do to a complete pool. -/
inductive CallEffect (pool : FramePool n) (view : PoolView (Fin n)) (call : PoolCall n) : Prop where
  | failed (sem : CountingSem) (hret : (poolCall (some pool) call).1.Failed)
      (hpool : (poolCall (some pool) call).2 = some { pool with readySem := sem })
  | pushed (list : FramePoolList) (e : Fin n) (he : view.CheckedOut e) (pool' : FramePool n)
      (hcall : call = .submit (some e) ∨ call = .release e)
      (hret : (poolCall (some pool) call).1 = .err .ok)
      (hpool : (poolCall (some pool) call).2 = some pool')
      (hshows : pool'.Shows (view.push list e he)) (hnum : pool'.elemNum = pool.elemNum)
  | popped (list : FramePoolList) (e : Fin n) (rest : List (Fin n)) (pool' : FramePool n)
      (hcells : view.cells list = e :: rest)
      (hret : (poolCall (some pool) call).1 = .element (some e))
      (hpool : (poolCall (some pool) call).2 = some pool')
      (hshows : pool'.Shows (view.pop list)) (hnum : pool'.elemNum = pool.elemNum)

private theorem acquire_effect (h : pool.Shows view) : CallEffect pool view .acquire := by
  cases hcells : view.cells .free with
  | nil =>
    have hpop := h.listPop_nil hcells
    exact .failed pool.readySem (by simp [poolCall,framePoolAcquire,hpop,PoolRet.Failed])
      (by simp [poolCall,framePoolAcquire,hpop])
  | cons e rest =>
    obtain ⟨hret,hshows⟩ := h.listPop_cons hcells
    exact .popped .free e rest _ hcells (by simp [poolCall,framePoolAcquire,hret]) rfl hshows
      (by simp)

private theorem submit_effect (h : pool.Shows view) (hnum : n ≤ pool.elemNum)
    (element : Option (Fin n)) : CallEffect pool view (.submit element) := by
  classical
  cases element with
  | none => exact .failed pool.readySem (.inr (.inl rfl)) rfl
  | some e =>
    by_cases he : view.CheckedOut e
    · obtain ⟨hok,hshows⟩ := h.listPush .ready (e.isLt.trans_le hnum) he
      have hpair : listPush pool .ready e = (.ok,(listPush pool .ready e).2) := by rw [← hok]
      refine .pushed .ready e he
        { (listPush pool .ready e).2 with
          readySem := (xSemaphoreGive (listPush pool .ready e).2.readySem).2 } (.inl rfl)
        ?_ ?_ (hshows.withSem _) (by simp)
      all_goals simp only [poolCall,framePoolSubmit]; rw [hpair]
    · have hpush := h.listPush_refused .ready he
      apply CallEffect.failed pool.readySem (.inl _) <;> simp [poolCall,framePoolSubmit,hpush]

private theorem recv_effect (h : pool.Shows view) : CallEffect pool view .recv := by
  cases htake : xSemaphoreTake pool.readySem with
  | mk got sem =>
    cases got with
    | false =>
      apply CallEffect.failed pool.readySem (.inr (.inr _)) <;>
        simp [poolCall,framePoolRecv,htake]
    | true =>
      have hsem := h.withSem sem
      cases hcells : view.cells .ready with
      | nil =>
        have hpop := hsem.listPop_nil hcells
        apply CallEffect.failed sem (.inr (.inr _)) <;> simp [poolCall,framePoolRecv,htake,hpop]
      | cons e rest =>
        obtain ⟨hret,hshows⟩ := hsem.listPop_cons hcells
        exact .popped .ready e rest _ hcells (by simp [poolCall,framePoolRecv,htake,hret])
          (by simp [poolCall,framePoolRecv,htake]) hshows (by simp)

private theorem release_effect (h : pool.Shows view) (hnum : n ≤ pool.elemNum) (index : Int) :
    CallEffect pool view (.release index) := by
  classical
  by_cases hindex : 0 ≤ index ∧ index < pool.elemNum ∧ index < n
  · let e : Fin n := ⟨index.toNat,by omega⟩
    have hrelease : framePoolRelease (some pool) index =
        ((listPush pool .free e).1,some (listPush pool .free e).2) := dif_pos hindex
    have hval : PoolCall.release index = .release (n := n) (e : Nat) := by
      simp [e,Int.toNat_of_nonneg hindex.1]
    by_cases he : view.CheckedOut e
    · obtain ⟨hok,hshows⟩ := h.listPush .free (e.isLt.trans_le hnum) he
      exact .pushed .free e he _ (.inr hval) (by simp [poolCall,hrelease,hok])
        (by simp [poolCall,hrelease]) hshows (by simp)
    · have hpush := h.listPush_refused .free he
      apply CallEffect.failed pool.readySem (.inl _) <;> simp [poolCall,hrelease,hpush]
  · have hrelease : framePoolRelease (some pool) index = (.invalidArg,some pool) :=
      dif_neg hindex
    apply CallEffect.failed pool.readySem (.inr (.inl _)) <;> simp [poolCall,hrelease]

theorem poolCall_effect (h : pool.Shows view) (hnum : n ≤ pool.elemNum) (call : PoolCall n) :
    CallEffect pool view call := by
  cases call with
  | acquire => exact acquire_effect h
  | submit element => exact submit_effect h hnum element
  | recv => exact recv_effect h
  | release index => exact release_effect h hnum index

def PoolInv (handle : Option (FramePool n)) : Prop :=
  ∃ pool view, handle = some pool ∧ pool.Shows view ∧ n ≤ pool.elemNum

theorem poolStep_inv (s : Option (FramePool n)) (call : PoolCall n) (t : Option (FramePool n))
    (hs : PoolInv s) (h : poolStep s call = some t) : PoolInv t := by
  obtain ⟨pool,view,rfl,hshows,hnum⟩ := hs
  obtain rfl := Option.some.inj h
  cases poolCall_effect hshows hnum call with
  | failed sem hret hpool => exact ⟨_,view,hpool,hshows.withSem sem,hnum⟩
  | pushed list e he pool' hcall hret hpool hshows' hnum' =>
    exact ⟨pool',_,hpool,hshows',hnum'.ge.trans' hnum⟩
  | popped list e rest pool' hcells hret hpool hshows' hnum' =>
    exact ⟨pool',_,hpool,hshows',hnum'.ge.trans' hnum⟩

private def Holds (e : Fin n) (handle : Option (FramePool n)) : Prop :=
  ∃ pool, handle = some pool ∧ pool.checkedOut e = true

private theorem handsOut_takes (e : Fin n) (s : Option (FramePool n)) (call : PoolCall n)
    (hs : PoolInv s) (h : handsOut e (s,call)) :
    ¬Holds e s ∧ ∀ t, poolStep s call = some t → Holds e t := by
  obtain ⟨pool,view,rfl,hshows,hnum⟩ := hs
  unfold handsOut at h
  cases poolCall_effect hshows hnum call with
  | failed sem hret hpool => rw [h] at hret; simp [PoolRet.Failed] at hret
  | pushed list e' he pool' hcall hret hpool hshows' hnum' => rw [h] at hret; simp at hret
  | popped list e' rest pool' hcells hret hpool hshows' hnum' =>
    rw [h] at hret
    obtain rfl : e = e' := by simpa using hret
    refine ⟨?_,?_⟩
    · rintro ⟨p,hp,hflag⟩
      obtain rfl := Option.some.inj hp
      exact ((hshows.flag e).mp hflag).2 list (by simp [hcells])
    · intro t ht
      refine ⟨pool',(Option.some.inj ht).symm.trans hpool,(hshows'.flag e).mpr ⟨?_,?_⟩⟩
      · rw [hnum']; exact e.isLt.trans_le hnum
      · exact (PoolView.checkedOut_pop hcells).mpr (.inr rfl)

private theorem holds_until_givesBack (e : Fin n) (s : Option (FramePool n)) (call : PoolCall n)
    (t : Option (FramePool n)) (hs : PoolInv s) (h : poolStep s call = some t)
    (hheld : Holds e s) (hkeep : ¬givesBack e (s,call)) : Holds e t := by
  obtain ⟨pool,view,rfl,hshows,hnum⟩ := hs
  obtain ⟨p,hp,hflag⟩ := hheld
  obtain rfl := Option.some.inj hp
  obtain rfl := Option.some.inj h
  have hout := ((hshows.flag e).mp hflag).2
  cases poolCall_effect hshows hnum call with
  | failed sem hret hpool => exact ⟨_,hpool,hflag⟩
  | pushed list e' he pool' hcall hret hpool hshows' hnum' =>
    have hne : e ≠ e' := by
      intro heq
      subst heq
      exact hkeep ⟨hret,hcall⟩
    refine ⟨pool',hpool,(hshows'.flag e).mpr ⟨?_,(PoolView.checkedOut_push he).mpr ⟨hout,hne⟩⟩⟩
    rw [hnum']; exact e.isLt.trans_le hnum
  | popped list e' rest pool' hcells hret hpool hshows' hnum' =>
    refine ⟨pool',hpool,(hshows'.flag e).mpr ⟨?_,(PoolView.checkedOut_pop hcells).mpr (.inl hout)⟩⟩
    rw [hnum']; exact e.isLt.trans_le hnum

/-- After any sequence of calls, including misuse, both lists end without repeating a cell, every
element is on exactly one list or flagged as checked out, a failing call changes neither lists
nor flags, and an element handed out twice was given back in between. -/
theorem framePool_representation (cfg : FramePoolCfg) (heap heap' : Heap)
    (pool : FramePool cfg.elemNum.toNat)
    (hnew : framePoolNew cfg heap = (.ok,some pool,heap'))
    (calls : List (PoolCall cfg.elemNum.toNat)) (handle : Option (FramePool cfg.elemNum.toNat))
    (hrun : runEvents poolStep (some pool) calls = some handle) :
    ∃ p free ready, handle = some p ∧
      Linked p.next p.freeList free ∧ Linked p.next p.readyList ready ∧
      free.Nodup ∧ ready.Nodup ∧
      (∀ e ∈ free ++ ready, ∀ k, follow p.next (k+1) (some e) ≠ some e) ∧
      (∀ e, (e ∈ free ∧ e ∉ ready ∧ p.checkedOut e = false) ∨
        (e ∉ free ∧ e ∈ ready ∧ p.checkedOut e = false) ∨
        (e ∉ free ∧ e ∉ ready ∧ p.checkedOut e = true)) ∧
      (∀ call, (poolCall (some p) call).1.Failed → ∃ p', (poolCall (some p) call).2 = some p' ∧
        p'.freeList = p.freeList ∧ p'.readyList = p.readyList ∧ p'.next = p.next ∧
        p'.checkedOut = p.checkedOut) ∧
      (∀ before between after a b e,
        moments poolStep (some pool) calls = before ++ a :: between ++ b :: after →
        handsOut e a → handsOut e b → ∃ m ∈ between, givesBack e m) := by
  obtain ⟨view₀,hshows₀,_,hnum₀,_⟩ := framePoolNew_shows hnew
  have hinit : PoolInv (some pool) := ⟨pool,view₀,rfl,hshows₀,hnum₀⟩
  obtain ⟨p,view,rfl,hshows,hnum⟩ := runEvents_invariant poolStep_inv hinit hrun
  have hfree := hshows.linked .free
  have hready := hshows.linked .ready
  refine ⟨p,view.cells .free,view.cells .ready,rfl,hfree,hready,hfree.nodup,hready.nodup,
    ?_,?_,?_,?_⟩
  · intro e he k
    rcases List.mem_append.mp he with he | he
    · exact hfree.acyclic he k
    · exact hready.acyclic he k
  · intro e
    have hbuilt : e.val < p.elemNum := e.isLt.trans_le hnum
    have hflag : p.checkedOut e = true ↔ view.CheckedOut e := by simp [hshows.flag e,hbuilt]
    by_cases hf : e ∈ view.cells .free
    · refine .inl ⟨hf,view.cells_disjoint (by decide) hf,?_⟩
      rw [Bool.eq_false_iff]
      exact fun h => hflag.mp h .free hf
    · by_cases hr : e ∈ view.cells .ready
      · refine .inr (.inl ⟨hf,hr,?_⟩)
        rw [Bool.eq_false_iff]
        exact fun h => hflag.mp h .ready hr
      · exact .inr (.inr ⟨hf,hr,hflag.mpr fun list => by cases list <;> assumption⟩)
  · intro call hfailed
    cases poolCall_effect hshows hnum call with
    | failed sem hret hpool => exact ⟨_,hpool,rfl,rfl,rfl,rfl⟩
    | pushed list e he pool' hcall hret hpool hshows' hnum' =>
      rw [hret] at hfailed
      simp [PoolRet.Failed] at hfailed
    | popped list e rest pool' hcells hret hpool hshows' hnum' =>
      rw [hret] at hfailed
      simp [PoolRet.Failed] at hfailed
  · intro before between after a b e hsplit ha hb
    exact put_between_takes poolStep_inv (handsOut_takes e) (holds_until_givesBack e) hinit hsplit
      ha hb

/-- The pool `ped_start` asks for: `DET_FEED_ELEMENTS` buffers of `DET_INPUT_BYTES`. -/
def feedPoolCfg : FramePoolCfg := ⟨2,480 * 270 * 2⟩

def feedPool : FramePool 2 := (framePoolNew feedPoolCfg Heap.ample).2.1.get rfl

/-- A double submit, a double release and a recv on an empty list around one honest acquire. -/
def misuse : List (PoolCall 2) :=
  [.acquire,.submit (some 0),.submit (some 0),.release 0,.recv,.release 0,.release 0,.recv]

theorem framePool_representation_feedPool : ∃ p free ready,
    runEvents poolStep (some feedPool) misuse = some (some p) ∧
      Linked p.next p.freeList free ∧ Linked p.next p.readyList ready ∧ (free ++ ready).Nodup := by
  obtain ⟨p,free,ready,hp,hfree,hready,hf,hr,_,hpart,_⟩ :=
    framePool_representation feedPoolCfg Heap.ample (framePoolNew feedPoolCfg Heap.ample).2.2
      feedPool rfl misuse _ rfl
  refine ⟨p,free,ready,congrArg some hp,hfree,hready,List.nodup_append.mpr ⟨hf,hr,?_⟩⟩
  rintro e hfe _ hre rfl
  rcases hpart e with h | h | h
  · exact h.2.1 hre
  · exact h.1 hfe
  · exact h.1 hfe

end Esp32Ipc
