import Esp32Ipc.Core.FramePoolCalls
import Esp32Ipc.Framework.Census

/-!
# Frame pool calls from several tasks

Each critical section and each semaphore operation is one step. `frame_pool_submit` and
`frame_pool_recv` take two of them, so a task can stand between the push and the give, or between
the take and the pop, while others run.
-/

namespace Esp32Ipc

open Framework

variable {ι : Type*} {n : Nat}

/-- Where a task's current call stands. -/
inductive PoolTask where
  | idle
  | giving
  | taken
  deriving DecidableEq, Repr

structure PoolSystem (ι : Type*) (n : Nat) where
  pool : FramePool n
  task : ι → PoolTask

/-- The steps a task can take; an ISR that submits is a task too. -/
inductive PoolEvent (ι : Type*) (n : Nat) where
  | acquire (t : ι)
  | release (t : ι) (index : Int)
  | submitPush (t : ι) (e : Fin n)
  | submitGive (t : ι)
  | recvTake (t : ι)
  | recvTimeout (t : ι)
  | recvPop (t : ι)

def PoolSystem.start (pool : FramePool n) : PoolSystem ι n := ⟨pool,fun _ => .idle⟩

section Tokens

variable [Fintype ι]

/-- List, semaphore and the half-finished calls together. -/
structure PoolSystem.Inv (s : PoolSystem ι n) (view : PoolView (Fin n)) : Prop where
  shows : s.pool.Shows view
  built : n ≤ s.pool.elemNum
  maxCount : s.pool.readySem.maxCount = n
  tokens : (view.cells .ready).length =
    s.pool.readySem.count + census s.task .giving + census s.task .taken

namespace PoolSystem.Inv

variable {s : PoolSystem ι n} {view : PoolView (Fin n)}

theorem give_accepted (h : s.Inv view) {t : ι} (ht : s.task t = .giving) :
    s.pool.readySem.count < s.pool.readySem.maxCount := by
  have hle : (view.cells .ready).length ≤ n := by
    simpa using (view.cells_nodup .ready).length_le_card
  have htokens := h.tokens
  have hpos := census_pos ht
  rw [h.maxCount]
  omega

theorem ready_cons (h : s.Inv view) {t : ι} (ht : s.task t = .taken) :
    ∃ e rest, view.cells .ready = e :: rest := by
  have htokens := h.tokens
  have hpos := census_pos ht
  cases hcells : view.cells .ready with
  | nil =>
    rw [hcells] at htokens
    simp only [List.length_nil] at htokens
    omega
  | cons e rest => exact ⟨e,rest,rfl⟩

private theorem of_ready_eq (h : s.Inv view) {pool : FramePool n} {view' : PoolView (Fin n)}
    (hshows : pool.Shows view') (hnum : pool.elemNum = s.pool.elemNum)
    (hsem : pool.readySem = s.pool.readySem) (hready : view'.cells .ready = view.cells .ready) :
    PoolSystem.Inv { s with pool := pool } view' :=
  ⟨hshows,hnum ▸ h.built,hsem ▸ h.maxCount,by rw [hready,hsem]; exact h.tokens⟩

private theorem acquire (h : s.Inv view) :
    ∃ view', PoolSystem.Inv { s with pool := (listPop s.pool .free).2 } view' := by
  cases hcells : view.cells .free with
  | nil =>
    rw [h.shows.listPop_nil hcells]
    exact ⟨view,h⟩
  | cons e rest =>
    exact ⟨view.pop .free,h.of_ready_eq (h.shows.listPop_cons hcells).2 (by simp) (by simp) (by simp)⟩

private theorem release (h : s.Inv view) {index : Int} {pool : FramePool n}
    (hpool : (framePoolRelease (some s.pool) index).2 = some pool) :
    ∃ view', PoolSystem.Inv { s with pool := pool } view' := by
  by_cases hindex : 0 ≤ index ∧ index < s.pool.elemNum ∧ index < n
  · rw [framePoolRelease,dif_pos hindex] at hpool
    obtain rfl := Option.some.inj hpool
    by_cases he : view.CheckedOut ⟨index.toNat,by omega⟩
    · exact ⟨_,h.of_ready_eq (h.shows.listPush .free
        ((Fin.isLt _).trans_le h.built) he).2 (by simp) (by simp) (by simp)⟩
    · rw [h.shows.listPush_refused _ he]
      exact ⟨view,h⟩
  · rw [framePoolRelease,dif_neg hindex] at hpool
    obtain rfl := Option.some.inj hpool
    exact ⟨view,h⟩

end PoolSystem.Inv

end Tokens

variable [DecidableEq ι]

def PoolSystem.goto (s : PoolSystem ι n) (t : ι) (point : PoolTask) (pool : FramePool n) : PoolSystem ι n :=
  ⟨pool,Function.update s.task t point⟩

def poolSystemStep (s : PoolSystem ι n) : PoolEvent ι n → Option (PoolSystem ι n)
  | .acquire t =>
    if s.task t = .idle then some { s with pool := (listPop s.pool .free).2 } else none
  | .release t index =>
    if s.task t = .idle then
      (framePoolRelease (some s.pool) index).2.map fun pool => { s with pool := pool }
    else none
  | .submitPush t e =>
    if s.task t = .idle then
      match listPush s.pool .ready e with
      | (.ok, pool) => some (s.goto t .giving pool)
      -- a refused push is returned before the semaphore is touched
      | (_, pool) => some { s with pool := pool }
    else none
  | .submitGive t =>
    if s.task t = .giving then
      some (s.goto t .idle { s.pool with readySem := (xSemaphoreGive s.pool.readySem).2 })
    else none
  | .recvTake t =>
    if s.task t = .idle ∧ (xSemaphoreTake s.pool.readySem).1 = true then
      some (s.goto t .taken { s.pool with readySem := (xSemaphoreTake s.pool.readySem).2 })
    else none
  | .recvTimeout t =>
    if s.task t = .idle ∧ (xSemaphoreTake s.pool.readySem).1 = false then some s else none
  | .recvPop t =>
    if s.task t = .taken then some (s.goto t .idle (listPop s.pool .ready).2) else none

theorem poolSystemStep_submitPush {s : PoolSystem ι n} {t : ι} {e : Fin n} (ht : s.task t = .idle)
    (h : (listPush s.pool .ready e).1 = .ok) :
    poolSystemStep s (.submitPush t e) = some (s.goto t .giving (listPush s.pool .ready e).2) := by
  rw [poolSystemStep,if_pos ht]
  generalize listPush s.pool .ready e = pushed at h ⊢
  obtain ⟨ret,pool⟩ := pushed
  obtain rfl : ret = .ok := h
  rfl

/-- What a step that was taken found, and what it left. -/
inductive PoolStep (s : PoolSystem ι n) : PoolEvent ι n → PoolSystem ι n → Prop where
  | acquire (t : ι) (idle : s.task t = .idle) :
      PoolStep s (.acquire t) { s with pool := (listPop s.pool .free).2 }
  | release (t : ι) (index : Int) (pool : FramePool n) (idle : s.task t = .idle)
      (released : (framePoolRelease (some s.pool) index).2 = some pool) :
      PoolStep s (.release t index) { s with pool := pool }
  | pushed (t : ι) (e : Fin n) (idle : s.task t = .idle) (ok : (listPush s.pool .ready e).1 = .ok) :
      PoolStep s (.submitPush t e) (s.goto t .giving (listPush s.pool .ready e).2)
  | refused (t : ι) (e : Fin n) (idle : s.task t = .idle)
      (refused : (listPush s.pool .ready e).1 ≠ .ok) :
      PoolStep s (.submitPush t e) { s with pool := (listPush s.pool .ready e).2 }
  | submitGive (t : ι) (giving : s.task t = .giving) :
      PoolStep s (.submitGive t)
        (s.goto t .idle { s.pool with readySem := (xSemaphoreGive s.pool.readySem).2 })
  | recvTake (t : ι) (idle : s.task t = .idle) (took : (xSemaphoreTake s.pool.readySem).1 = true) :
      PoolStep s (.recvTake t)
        (s.goto t .taken { s.pool with readySem := (xSemaphoreTake s.pool.readySem).2 })
  | recvTimeout (t : ι) (idle : s.task t = .idle)
      (empty : (xSemaphoreTake s.pool.readySem).1 = false) : PoolStep s (.recvTimeout t) s
  | recvPop (t : ι) (taken : s.task t = .taken) :
      PoolStep s (.recvPop t) (s.goto t .idle (listPop s.pool .ready).2)

theorem poolStep_of {s s' : PoolSystem ι n} {event : PoolEvent ι n}
    (hstep : poolSystemStep s event = some s') : PoolStep s event s' := by
  cases event with
  | acquire t =>
    simp only [poolSystemStep,Option.ite_none_right_eq_some,Option.some.injEq] at hstep
    obtain ⟨hidle,rfl⟩ := hstep
    exact .acquire t hidle
  | release t index =>
    obtain ⟨hidle,hstep⟩ := Option.ite_none_right_eq_some.mp hstep
    obtain ⟨pool,hpool,rfl⟩ := Option.map_eq_some_iff.mp hstep
    exact .release t index pool hidle hpool
  | submitPush t e =>
    obtain ⟨hidle,hpush⟩ := Option.ite_none_right_eq_some.mp hstep
    by_cases hok : (listPush s.pool .ready e).1 = .ok
    · rw [poolSystemStep_submitPush hidle hok] at hstep
      obtain rfl := Option.some.inj hstep
      exact .pushed t e hidle hok
    · have hrefused := PoolStep.refused t e hidle hok
      generalize listPush s.pool .ready e = push at hpush hok hrefused
      obtain ⟨ret,pool⟩ := push
      cases ret with
      | ok => exact absurd rfl hok
      | _ =>
        obtain rfl := Option.some.inj hpush
        exact hrefused
  | submitGive t =>
    simp only [poolSystemStep,Option.ite_none_right_eq_some,Option.some.injEq] at hstep
    obtain ⟨hgiving,rfl⟩ := hstep
    exact .submitGive t hgiving
  | recvTake t =>
    simp only [poolSystemStep,Option.ite_none_right_eq_some,Option.some.injEq] at hstep
    obtain ⟨⟨hidle,htook⟩,rfl⟩ := hstep
    exact .recvTake t hidle htook
  | recvTimeout t =>
    simp only [poolSystemStep,Option.ite_none_right_eq_some,Option.some.injEq] at hstep
    obtain ⟨⟨hidle,hempty⟩,rfl⟩ := hstep
    exact .recvTimeout t hidle hempty
  | recvPop t =>
    simp only [poolSystemStep,Option.ite_none_right_eq_some,Option.some.injEq] at hstep
    obtain ⟨htaken,rfl⟩ := hstep
    exact .recvPop t htaken

def PoolEvent.task : PoolEvent ι n → ι
  | .acquire t => t
  | .release t _ => t
  | .submitPush t _ => t
  | .submitGive t => t
  | .recvTake t => t
  | .recvTimeout t => t
  | .recvPop t => t

theorem PoolStep.task_eq {s s' : PoolSystem ι n} {event : PoolEvent ι n} {t : ι}
    (h : PoolStep s event s') (hne : t ≠ event.task) : s'.task t = s.task t := by
  cases h with
  | acquire => rfl
  | release => rfl
  | refused => rfl
  | recvTimeout => rfl
  | pushed => exact Function.update_of_ne hne _ _
  | submitGive => exact Function.update_of_ne hne _ _
  | recvTake => exact Function.update_of_ne hne _ _
  | recvPop => exact Function.update_of_ne hne _ _

/-- An undisturbed `frame_pool_submit` is its two steps. -/
theorem framePoolSubmit_steps (pool : FramePool n) (t : ι) (e : Fin n)
    (h : (listPush pool .ready e).1 = .ok) :
    ∃ s, runEvents poolSystemStep (PoolSystem.start pool) [.submitPush t e,.submitGive t] = some s ∧
      framePoolSubmit (some pool) (some e) = (.ok,some s.pool) := by
  let pushed := (PoolSystem.start pool).goto t .giving (listPush pool .ready e).2
  have hpush : poolSystemStep (PoolSystem.start pool) (.submitPush t e) = some pushed :=
    poolSystemStep_submitPush rfl h
  have hgive : poolSystemStep pushed (.submitGive t) = some (pushed.goto t .idle
      { pushed.pool with readySem := (xSemaphoreGive pushed.pool.readySem).2 }) :=
    if_pos (Function.update_self _ _ _)
  refine ⟨_,by rw [runEvents_cons,hpush,Option.bind_some,runEvents_cons,hgive]; rfl,?_⟩
  rw [framePoolSubmit,show listPush pool .ready e = (.ok,(listPush pool .ready e).2) by rw [← h]]
  rfl

/-- An undisturbed `frame_pool_recv` that does not time out is its two steps. -/
theorem framePoolRecv_steps (pool : FramePool n) (t : ι) (h : 0 < pool.readySem.count) :
    ∃ s, runEvents poolSystemStep (PoolSystem.start pool) [.recvTake t,.recvPop t] = some s ∧
      (framePoolRecv (some pool)).2 = some s.pool := by
  have htake := xSemaphoreTake_of_pos h
  let taken := (PoolSystem.start pool).goto t .taken
    { pool with readySem := (xSemaphoreTake pool.readySem).2 }
  have hfirst : poolSystemStep (PoolSystem.start pool) (.recvTake t) = some taken :=
    if_pos ⟨rfl,congrArg Prod.fst htake⟩
  have hpop : poolSystemStep taken (.recvPop t) =
      some (taken.goto t .idle (listPop taken.pool .ready).2) := if_pos (Function.update_self _ _ _)
  refine ⟨_,by rw [runEvents_cons,hfirst,Option.bind_some,runEvents_cons,hpop]; rfl,?_⟩
  simp only [framePoolRecv,htake,taken,PoolSystem.goto]

section Invariant

variable [Fintype ι]

variable {s : PoolSystem ι n} {view : PoolView (Fin n)} {t : ι}

private theorem inv_submitPush (h : s.Inv view) {e : Fin n} (ht : s.task t = .idle)
    (he : view.CheckedOut e) : (listPush s.pool .ready e).1 = .ok ∧
      ∃ view', (s.goto t .giving (listPush s.pool .ready e).2).Inv view' := by
  obtain ⟨hok,hshows⟩ := h.shows.listPush .ready (e.isLt.trans_le h.built) he
  have hgiving := (census_move ht (show PoolTask.idle ≠ .giving by decide)).2
  have htaken : census (Function.update s.task t .giving) .taken = census s.task .taken :=
    census_move_other ht (by decide) (by decide)
  refine ⟨hok,_,hshows,by simpa [PoolSystem.goto] using h.built,
    by simpa [PoolSystem.goto] using h.maxCount,?_⟩
  have htokens := h.tokens
  simp only [PoolSystem.goto,PoolView.cells_push,Function.update_self,List.length_cons,
    listPush_readySem,hgiving,htaken]
  omega

/-- The semaphore is never full while a token is about to be given. -/
private theorem inv_submitGive (h : s.Inv view) (ht : s.task t = .giving) :
    (s.goto t .idle { s.pool with readySem := (xSemaphoreGive s.pool.readySem).2 }).Inv view := by
  have hgiving := (census_move ht (show PoolTask.giving ≠ .idle by decide)).1
  have htaken : census (Function.update s.task t .idle) .taken = census s.task .taken :=
    census_move_other ht (by decide) (by decide)
  rw [xSemaphoreGive_of_lt (h.give_accepted ht)]
  refine ⟨h.shows.withSem _,h.built,h.maxCount,?_⟩
  have htokens := h.tokens
  simp only [PoolSystem.goto,htaken]
  omega

private theorem inv_recvTake (h : s.Inv view) (ht : s.task t = .idle)
    (htake : (xSemaphoreTake s.pool.readySem).1 = true) :
    (s.goto t .taken { s.pool with readySem := (xSemaphoreTake s.pool.readySem).2 }).Inv view := by
  have hpos : 0 < s.pool.readySem.count := by
    by_contra hzero
    rw [xSemaphoreTake_of_zero (by omega)] at htake
    simp at htake
  have htaken := (census_move ht (show PoolTask.idle ≠ .taken by decide)).2
  have hgiving : census (Function.update s.task t .taken) .giving = census s.task .giving :=
    census_move_other ht (by decide) (by decide)
  rw [xSemaphoreTake_of_pos hpos]
  refine ⟨h.shows.withSem _,h.built,h.maxCount,?_⟩
  have htokens := h.tokens
  simp only [PoolSystem.goto,htaken,hgiving]
  omega

private theorem inv_recvPop (h : s.Inv view) (ht : s.task t = .taken) :
    (s.goto t .idle (listPop s.pool .ready).2).Inv (view.pop .ready) := by
  obtain ⟨e,rest,hcells⟩ := h.ready_cons ht
  have htaken := (census_move ht (show PoolTask.taken ≠ .idle by decide)).1
  have hgiving : census (Function.update s.task t .idle) .giving = census s.task .giving :=
    census_move_other ht (by decide) (by decide)
  refine ⟨(h.shows.listPop_cons hcells).2,by simpa [PoolSystem.goto] using h.built,
    by simpa [PoolSystem.goto] using h.maxCount,?_⟩
  have htokens := h.tokens
  rw [hcells] at htokens
  simp only [PoolSystem.goto,PoolView.cells_pop,Function.update_self,hcells,List.tail_cons,
    listPop_readySem,hgiving,List.length_cons] at htokens ⊢
  omega

theorem poolSystemStep_inv (s : PoolSystem ι n) (event : PoolEvent ι n) (s' : PoolSystem ι n)
    (hs : ∃ view, s.Inv view) (hstep : poolSystemStep s event = some s') :
    ∃ view, s'.Inv view := by
  classical
  obtain ⟨view,h⟩ := hs
  cases poolStep_of hstep with
  | acquire t ht => exact h.acquire
  | release t index pool ht hpool => exact h.release hpool
  | pushed t e ht hok =>
    by_cases he : view.CheckedOut e
    · exact (inv_submitPush h ht he).2
    · rw [h.shows.listPush_refused _ he] at hok
      exact absurd hok (by simp)
  | refused t e ht hrefused =>
    by_cases he : view.CheckedOut e
    · exact absurd (inv_submitPush h ht he).1 hrefused
    · rw [h.shows.listPush_refused _ he]
      exact ⟨view,h⟩
  | submitGive t ht => exact ⟨view,inv_submitGive h ht⟩
  | recvTake t ht htake => exact ⟨view,inv_recvTake h ht htake⟩
  | recvTimeout t ht hempty => exact ⟨view,h⟩
  | recvPop t ht => exact ⟨view.pop .ready,inv_recvPop h ht⟩

/-- In every state reached the ready list is exactly as long as the tokens, given or in flight; so
no give is lost, no pop after a successful take is empty, and with no call in progress every
waiting element has its token. -/
theorem framePool_tokens (cfg : FramePoolCfg) (heap heap' : Heap)
    (pool : FramePool cfg.elemNum.toNat)
    (hnew : framePoolNew cfg heap = (.ok,some pool,heap'))
    (s : PoolSystem ι cfg.elemNum.toNat)
    (hreach : Reachable poolSystemStep (PoolSystem.start pool) s) :
    ∃ ready, Linked s.pool.next s.pool.readyList ready ∧
      s.pool.readySem.maxCount = cfg.elemNum.toNat ∧
      ready.length = s.pool.readySem.count + census s.task .giving + census s.task .taken ∧
      (∀ t, s.task t = .giving → (xSemaphoreGive s.pool.readySem).1 = true) ∧
      (∀ t, s.task t = .taken → (listPop s.pool .ready).1 ≠ none) ∧
      ((∀ t, s.task t = .idle) → ready.length = s.pool.readySem.count) := by
  obtain ⟨view₀,hshows,hready,hnum,hcount,hmax⟩ := framePoolNew_shows hnew
  have hstart : ∃ view, (PoolSystem.start pool : PoolSystem ι _).Inv view := by
    refine ⟨view₀,hshows,hnum,hmax,?_⟩
    rw [hready]
    simp [PoolSystem.start,hcount,census]
  obtain ⟨view,h⟩ := hreach.invariant poolSystemStep_inv hstart
  refine ⟨view.cells .ready,h.shows.linked .ready,h.maxCount,h.tokens,?_,?_,?_⟩
  · intro t ht
    rw [xSemaphoreGive_of_lt (h.give_accepted ht)]
  · intro t ht
    obtain ⟨e,rest,hcells⟩ := h.ready_cons ht
    simp [(h.shows.listPop_cons hcells).1]
  · intro hidle
    have htokens := h.tokens
    rw [census_eq_zero (by simp [hidle]),census_eq_zero (by simp [hidle])] at htokens
    simpa using htokens

end Invariant

/-- Two submitters between push and give, and a receiver that has taken neither token yet. -/
theorem framePool_tokens_feedPool : ∃ (s : PoolSystem (Fin 3) 2) (ready : List (Fin 2)),
    runEvents poolSystemStep (PoolSystem.start feedPool)
      [.acquire 0,.acquire 1,.submitPush 0 1,.submitPush 1 0] = some s ∧
      ready.length = s.pool.readySem.count + census s.task .giving + census s.task .taken := by
  obtain ⟨ready,_,_,htokens,_⟩ :=
    framePool_tokens feedPoolCfg Heap.ample (framePoolNew feedPoolCfg Heap.ample).2.2 feedPool rfl _
      ⟨_,show runEvents poolSystemStep (PoolSystem.start (ι := Fin 3) feedPool)
        [.acquire 0,.acquire 1,.submitPush 0 1,.submitPush 1 0] = some _ from rfl⟩
  exact ⟨_,ready,rfl,htokens⟩

end Esp32Ipc
