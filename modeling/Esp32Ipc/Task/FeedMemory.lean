import Esp32Ipc.Task.DetectorOrder
import Esp32Ipc.Task.FrameMemory

/-!
# The detector's pictures in memory

The PPA writes a picture to an element of the feed pool by DMA, and `detect_task` reads it through the
data cache. `hal_ppa_yuv420_to_rgb565` invalidates the element when the PPA is done; which lines that
takes out of the cache, and which ones the driver of the PPA does before it begins, are parameters. The
elements are mapped as the capture buffers are: apart, and each on lines of its own.
-/

namespace Esp32Ipc

open Framework

variable {n : Nat}

/-- The lines of an element that the driver of the PPA invalidates before it begins, and those that
`esp_cache_msync` does from memory to cache. -/
structure FeedDrivers (n : Nat) where
  ppaStart : Fin n → Int → Bool
  msync : Fin n → Int → Bool

/-- What ESP-IDF documents of them. -/
structure FeedDrivers.Documented (drivers : FeedDrivers n) (L : FrameLayout n) : Prop where
  ppaStart : L.Invalidates drivers.ppaStart
  msync : L.Invalidates drivers.msync

/-- The two tasks on the memory of the elements. `writing` is what the PPA has written so far of the
conversion under way, and `pictures` what it had written of a frame when it was done. -/
structure FeedMemory (n : Nat) where
  feed : DetectorFeed n
  cache : WriteBack Int Int UInt8
  writing : Option (Int → Option UInt8)
  pictures : Nat → Int → Option UInt8

inductive FeedMemoryEvent where
  | task (event : FeedEvent)
  | ppaStart
  | ppaWrite (o : Int) (b : UInt8)
  | cache (op : CacheOp Int)
  /-- Other tasks and other DMA, on memory of their own. -/
  | otherStore (a : Int) (b : UInt8)
  | otherDma (a : Int) (b : UInt8)
  deriving DecidableEq

def feedMemoryStep (L : FrameLayout n) (drivers : FeedDrivers n) (s : FeedMemory n) :
    FeedMemoryEvent → Option (FeedMemory n)
  | .task (.ppa true) =>
    match s.feed.feed,s.writing with
    | .acquired e frame,some written =>
      (detectorFeedStep s.feed (.ppa true)).map fun feed =>
        ⟨feed,s.cache.drop (drivers.msync e),none,Function.update s.pictures frame written⟩
    | _,_ => none
  -- the conversion or the invalidation failed, and `feed_detector` discards the element
  | .task (.ppa false) =>
    (detectorFeedStep s.feed (.ppa false)).map fun feed => { s with feed := feed, writing := none }
  | .task event => (detectorFeedStep s.feed event).map fun feed => { s with feed := feed }
  | .ppaStart =>
    match s.feed.feed,s.writing with
    | .acquired e _,none =>
      some { s with cache := s.cache.drop (drivers.ppaStart e), writing := some fun _ => none }
    | _,_ => none
  | .ppaWrite o b =>
    match s.feed.feed,s.writing with
    | .acquired e _,some written =>
      if 0 ≤ o ∧ o < L.length then
        some { s with
          cache := s.cache.dma (L.base e + o) b
          writing := some (Function.update written o (some b)) }
      else none
    | _,_ => none
  | .cache op => some { s with cache := s.cache.move L.lineOf op }
  | .otherStore a b =>
    if ∀ e, a ∉ L.cells e then some { s with cache := s.cache.store L.lineOf a b } else none
  | .otherDma a b =>
    if ∀ e, a ∉ L.cells e then some { s with cache := s.cache.dma a b } else none

/-- The PPA is done with the element, and the detector is not. -/
def DetectorFeed.Shown (s : DetectorFeed n) (view : PoolView (Fin n)) (e : Fin n) : Prop :=
  (∃ frame, s.feed = .filled e frame) ∨ e ∈ view.cells .ready ∨ s.detect.element = some e

/-- What waits for the detector or is with it was submitted with the frame that it still holds. -/
def DetectorFeed.Sent (s : DetectorFeed n) (view : PoolView (Fin n)) : Prop :=
  ∀ e, e ∈ view.cells .ready ∨ s.detect.element = some e → (e,s.buffer e) ∈ s.submitted

section Feed

variable {s s' : DetectorFeed n} {view : PoolView (Fin n)} {event : FeedEvent} {e : Fin n} {frame : Nat}

namespace DetectorFeed

theorem filled_step (hstep : FeedStep s event s') (hfilled : s'.feed = .filled e frame) :
    s.feed = .filled e frame ∨ event = .ppa true ∧ s.feed.element = some e := by
  cases hstep with
  | acquire sys hidle hdue hsys =>
    change (listPop s.sys.pool .free).1.elim FeedPoint.idle (fun e => .acquired e s.frameNo) = _ at hfilled
    cases hpop : (listPop s.sys.pool .free).1 <;> simp [hpop] at hfilled
  | fill a k hfeed =>
    obtain ⟨rfl,rfl⟩ := FeedPoint.filled.inj hfilled
    exact .inr ⟨rfl,by rw [hfeed]; rfl⟩
  | giveBack => cases hfilled
  | submitPush => cases hfilled
  | _ => exact .inl hfilled

theorem detect_step (h : s.Inv view) (hstep : FeedStep s event s') (hdetect : s'.detect.element = some e) :
    s.detect.element = some e ∨ e ∈ view.cells .ready := by
  cases hstep with
  | recvPop a sys hsys hfirst =>
    obtain rfl := Option.some.inj hdetect
    cases hcells : view.cells .ready with
    | nil => simp [h.shows.listPop_nil hcells] at hfirst
    | cons b rest =>
      obtain rfl := Option.some.inj ((h.shows.listPop_cons hcells).1.symm.trans hfirst)
      exact .inr List.mem_cons_self
  | store a hd =>
    rw [hd]
    exact .inl hdetect
  | release => cases hdetect
  | _ => exact .inl hdetect

theorem submitted_filled (hstep : FeedStep s event s')
    (hsubmitted : s'.submitted = s.submitted ++ [(e,s.buffer e)]) : ∃ frame, s.feed = .filled e frame := by
  have hsame : s.submitted ≠ s.submitted ++ [(e,s.buffer e)] := by simp
  cases hstep with
  | submitPush a frame sys hfeed hsys =>
    change (if sys.task .encode = .giving then s.submitted ++ [(a,s.buffer a)] else s.submitted) = _ at hsubmitted
    split at hsubmitted
    · have hlast := List.append_cancel_left hsubmitted
      obtain ⟨rfl,-⟩ := Prod.mk.inj (List.singleton_injective hlast)
      exact ⟨frame,hfeed⟩
    · exact absurd hsubmitted hsame
  | _ => exact absurd hsubmitted hsame

theorem buffer_step (e : Fin n) (hstep : FeedStep s event s') :
    s'.buffer e = s.buffer e ∨ event = .ppa true ∧ s.feed.element = some e := by
  cases hstep with
  | fill a k hfeed =>
    by_cases hea : e = a
    · subst e
      exact .inr ⟨rfl,by rw [hfeed]; rfl⟩
    · exact .inl (Function.update_of_ne hea _ _)
  | _ => exact .inl rfl

/-- The element of a conversion is not one that the detector can come to read. -/
theorem Inv.feed_apart (h : s.Inv view) (he : e ∈ view.cells .ready ∨ s.detect.element = some e) :
    s.feed.element ≠ some e := by
  intro helement
  rcases he with hready | hdetect
  · exact h.feedOut e helement .ready hready
  · exact (h.detectOut e hdetect).2 helement

theorem sent_step (h : s.Inv view) (hsent : s.Sent view) (hstep : FeedStep s event s')
    (hsubmitted : s.submitted <+: s'.submitted) :
    ∀ e, e ∈ view.cells .ready ∨ s.detect.element = some e → (e,s'.buffer e) ∈ s'.submitted := by
  intro e he
  rcases buffer_step e hstep with hbuffer | ⟨-,helement⟩
  · rw [hbuffer]
    exact hsubmitted.subset (hsent e he)
  · exact absurd helement (h.feed_apart he)

theorem ready_step (h : s.Inv view) (hrecv : s.sys.task .detect = .taken → s.detect = .receiving)
    (hstep : FeedStep s event s') : ∃ view', s'.Inv view' ∧ s.submitted <+: s'.submitted ∧
      ∀ e ∈ view'.cells .ready, e ∈ view.cells .ready ∨
        (∃ frame, s.feed = .filled e frame) ∧ (e,s'.buffer e) ∈ s'.submitted := by
  cases effect_step h hrecv hstep with
  | quiet view' inv ready _ submitted _ _ =>
    exact ⟨view',inv,submitted ▸ List.prefix_refl _,fun e he => .inl (ready ▸ he)⟩
  | submit view' a inv ready buffer submitted _ _ =>
    refine ⟨view',inv,submitted ▸ List.prefix_append _ _,?_⟩
    intro e he
    rw [ready] at he
    rcases List.mem_cons.mp he with rfl | he
    · refine .inr ⟨submitted_filled hstep submitted,?_⟩
      rw [submitted,buffer]
      exact List.mem_append_right _ (List.mem_singleton_self _)
    · exact .inl he
  | receive view' a rest inv before ready _ submitted _ _ =>
    refine ⟨view',inv,submitted ▸ List.prefix_refl _,?_⟩
    intro e he
    rw [before]
    exact .inl (List.mem_cons_of_mem _ (ready ▸ he))

theorem shown_step (h : s.Inv view) (hrecv : s.sys.task .detect = .taken → s.detect = .receiving)
    (hsent : s.Sent view) (hstep : FeedStep s event s') : ∃ view', s'.Inv view' ∧ s'.Sent view' ∧
      ∀ e, s'.Shown view' e → s.Shown view e ∨ event = .ppa true ∧ s.feed.element = some e := by
  obtain ⟨view',inv,hsubmitted,hready⟩ := ready_step h hrecv hstep
  have hkept := sent_step h hsent hstep hsubmitted
  refine ⟨view',inv,?_,?_⟩
  · intro e he
    rcases he with he | he
    · rcases hready e he with hbefore | ⟨-,hnew⟩
      · exact hkept e (.inl hbefore)
      · exact hnew
    · exact hkept e (detect_step h hstep he).symm
  · intro e he
    rcases he with ⟨frame,he⟩ | he | he
    · exact (filled_step hstep he).imp_left fun hbefore => .inl ⟨frame,hbefore⟩
    · apply Or.inl
      rcases hready e he with hbefore | ⟨hfilled,-⟩
      · exact .inr (.inl hbefore)
      · exact .inl hfilled
    · exact .inl (.inr (detect_step h hstep he).symm)

theorem Shown.older (hshown : s.Shown view e) (h : s.Inv view) (hsent : s.Sent view) {a : Fin n}
    (hfeed : s.feed = .acquired a frame) : e ≠ a ∧ s.buffer e < frame := by
  have hwaits : e ∈ view.cells .ready ∨ s.detect.element = some e := by
    rcases hshown with ⟨k,hfilled⟩ | hwaits
    · cases hfeed.symm.trans hfilled
    · exact hwaits
  have holder := h.older _ (hsent e hwaits)
  rw [hfeed] at holder
  refine ⟨?_,holder⟩
  intro hea
  apply h.feed_apart hwaits
  rw [hfeed,hea]
  rfl

theorem acquired_step (hstep : FeedStep s event s') (hfeed : s.feed = .acquired e frame)
    (hother : ∀ ok, event ≠ .ppa ok) : s'.feed = .acquired e frame := by
  cases hstep with
  | skip hidle | acquire _ hidle => cases hfeed.symm.trans hidle
  | fill => exact absurd rfl (hother true)
  | giveBack => exact absurd rfl (hother false)
  | submitPush _ _ _ hfilled => cases hfeed.symm.trans hfilled
  | _ => exact hfeed

end DetectorFeed

end Feed

namespace FeedMemory

def start (pool : FramePool n) (cache : WriteBack Int Int UInt8) : FeedMemory n :=
  ⟨DetectorFeed.start pool,cache,none,fun _ _ => none⟩

section Invariant

variable (L : FrameLayout n)

/-- `v` has what was written to the element. -/
def Written (e : Fin n) (v : Int → UInt8) (written : Int → Option UInt8) : Prop :=
  ∀ o b, written o = some b → L.base e + o ∈ L.cells e ∧ v (L.base e + o) = b

/-- Every byte of an element was written. -/
def Whole (written : Int → Option UInt8) : Prop := ∀ o, 0 ≤ o → o < L.length → ∃ b, written o = some b

/-- What the PPA reports as done was written whole. -/
def Completes (m : FeedMemory n × FeedMemoryEvent) : Prop :=
  m.2 = .task (.ppa true) → ∀ written, m.1.writing = some written → Whole L written

structure Inv (s : FeedMemory n) (view : PoolView (Fin n)) : Prop where
  feed : s.feed.Inv view
  taken : s.feed.sys.task .detect = .taken → s.feed.detect = .receiving
  sent : s.feed.Sent view
  writing : ∀ written, s.writing = some written → ∃ e frame, s.feed.feed = .acquired e frame ∧
    ∃ v, Untouched L.lineOf s.cache (L.cells e) v ∧ Written L e v written
  shown : ∀ e, s.feed.Shown view e →
    ∃ v, Tracks L.lineOf s.cache (L.cells e) v ∅ ∧ Written L e v (s.pictures (s.feed.buffer e))
  whole : ∀ e, s.feed.Shown view e → Whole L (s.pictures (s.feed.buffer e))

end Invariant

section Steps

variable {L : FrameLayout n} {drivers : FeedDrivers n} {s : FeedMemory n} {view : PoolView (Fin n)}
  {e : Fin n} {frame : Nat} {v v' : Int → UInt8} {written : Int → Option UInt8}

theorem Written.congr (h : Written L e v written) (hv : ∀ a ∈ L.cells e, v' a = v a) :
    Written L e v' written := by
  intro o b hob
  obtain ⟨hin,hval⟩ := h o b hob
  exact ⟨hin,(hv _ hin).trans hval⟩

theorem Written.update {o : Int} (h : Written L e v written) (ho : L.base e + o ∈ L.cells e) (b : UInt8) :
    Written L e (Function.update v (L.base e + o) b) (Function.update written o (some b)) := by
  intro o' b' hob
  by_cases heq : o' = o
  · subst o'
    rw [Function.update_self,Option.some.injEq] at hob
    subst b'
    exact ⟨ho,Function.update_self _ _ _⟩
  · rw [Function.update_of_ne heq] at hob
    obtain ⟨hin,hval⟩ := h o' b' hob
    refine ⟨hin,?_⟩
    rw [Function.update_of_ne (by omega)]
    exact hval

theorem shown_kept (hs : Inv L s view) {event : FeedEvent} {feed : DetectorFeed n}
    (hstep : FeedStep s.feed event feed) (hother : event ≠ .ppa true)
    (he : s.feed.Shown view e ∨ event = .ppa true ∧ s.feed.feed.element = some e) :
    (∃ v, Tracks L.lineOf s.cache (L.cells e) v ∅ ∧ Written L e v (s.pictures (feed.buffer e))) ∧
      Whole L (s.pictures (feed.buffer e)) := by
  have hbuffer : feed.buffer e = s.feed.buffer e :=
    (DetectorFeed.buffer_step e hstep).resolve_right fun h => hother h.1
  have hbefore : s.feed.Shown view e := he.resolve_right fun h => hother h.1
  rw [hbuffer]
  exact ⟨hs.shown e hbefore,hs.whole e hbefore⟩

theorem inv_task (hs : Inv L s view) {event : FeedEvent} {feed : DetectorFeed n}
    (hstep : FeedStep s.feed event feed) (hother : ∀ ok, event ≠ .ppa ok) :
    ∃ view', Inv L { s with feed := feed } view' := by
  obtain ⟨view',hfeed,hsent,hshown⟩ := DetectorFeed.shown_step hs.feed hs.taken hs.sent hstep
  have hkept := fun e he => shown_kept hs hstep (hother true) (hshown e he)
  refine ⟨view',hfeed,DetectorFeed.taken_receiving hs.taken hstep,hsent,?_,
    fun e he => (hkept e he).1,fun e he => (hkept e he).2⟩
  intro written hwritten
  obtain ⟨e,frame,hacquired,hholds⟩ := hs.writing written hwritten
  exact ⟨e,frame,DetectorFeed.acquired_step hstep hacquired hother,hholds⟩

theorem inv_failed (hs : Inv L s view) {feed : DetectorFeed n} (hstep : FeedStep s.feed (.ppa false) feed) :
    ∃ view', Inv L { s with feed := feed, writing := none } view' := by
  obtain ⟨view',hfeed,hsent,hshown⟩ := DetectorFeed.shown_step hs.feed hs.taken hs.sent hstep
  have hkept := fun e he => shown_kept hs hstep nofun (hshown e he)
  exact ⟨view',hfeed,DetectorFeed.taken_receiving hs.taken hstep,hsent,nofun,
    fun e he => (hkept e he).1,fun e he => (hkept e he).2⟩

theorem tracks_drop_other {lines : Fin n → Int → Bool} (hlines : L.Invalidates lines) {a : Fin n}
    (h : Tracks L.lineOf s.cache (L.cells e) v ∅) (hne : e ≠ a) :
    Tracks L.lineOf (s.cache.drop (lines a)) (L.cells e) v ∅ :=
  h.congr (drop_line_other (hlines.spares e a hne)) (fun _ _ => rfl) (fun _ _ => rfl)

theorem inv_converted (hdoc : drivers.Documented L) (hs : Inv L s view) {a : Fin n}
    (hacquired : s.feed.feed = .acquired a frame) (hwriting : s.writing = some written)
    (hwhole : Whole L written) {feed : DetectorFeed n} (hstep : FeedStep s.feed (.ppa true) feed) :
    ∃ view', Inv L ⟨feed,s.cache.drop (drivers.msync a),none,Function.update s.pictures frame written⟩
      view' := by
  obtain ⟨view',hfeed,hsent,hshown⟩ := DetectorFeed.shown_step hs.feed hs.taken hs.sent hstep
  have hbuffer : feed.buffer = Function.update s.feed.buffer a frame := by
    cases hstep with
    | fill a' frame' hacquired' =>
      obtain ⟨rfl,rfl⟩ := FeedPoint.acquired.inj (hacquired'.symm.trans hacquired)
      rfl
  -- the element converted has the new picture, every other one the picture that it had
  have hpicture : ∀ e, feed.Shown view' e → e = a ∨ e ≠ a ∧ s.feed.Shown view e ∧
      Function.update s.pictures frame written (feed.buffer e) = s.pictures (s.feed.buffer e) := by
    intro e he
    by_cases hea : e = a
    · exact .inl hea
    · rcases hshown e he with hbefore | ⟨-,helement⟩
      · have holder := (hbefore.older hs.feed hs.sent hacquired).2
        rw [hbuffer,Function.update_of_ne hea,Function.update_of_ne holder.ne]
        exact .inr ⟨hea,hbefore,rfl⟩
      · rw [hacquired] at helement
        exact absurd (Option.some.inj helement).symm hea
  have hnew : Function.update s.pictures frame written (feed.buffer a) = written := by
    rw [hbuffer,Function.update_self,Function.update_self]
  refine ⟨view',hfeed,DetectorFeed.taken_receiving hs.taken hstep,hsent,nofun,?_,?_⟩
  · intro e he
    change ∃ v, Tracks L.lineOf (s.cache.drop (drivers.msync a)) (L.cells e) v ∅ ∧
      Written L e v (Function.update s.pictures frame written (feed.buffer e))
    rcases hpicture e he with rfl | ⟨hea,hbefore,hold⟩
    · obtain ⟨a,frame',hacquired',v,huntouched,hv⟩ := hs.writing written hwriting
      obtain ⟨rfl,-⟩ := FeedPoint.acquired.inj (hacquired'.symm.trans hacquired)
      rw [hnew]
      exact ⟨v,huntouched.drop (hdoc.msync.covers a),hv⟩
    · obtain ⟨v,htracks,hv⟩ := hs.shown e hbefore
      rw [hold]
      exact ⟨v,tracks_drop_other hdoc.msync htracks hea,hv⟩
  · intro e he
    change Whole L (Function.update s.pictures frame written (feed.buffer e))
    rcases hpicture e he with rfl | ⟨_,hbefore,hold⟩
    · rw [hnew]
      exact hwhole
    · rw [hold]
      exact hs.whole e hbefore

theorem inv_ppaStart (hdoc : drivers.Documented L) (hs : Inv L s view) {a : Fin n}
    (hacquired : s.feed.feed = .acquired a frame) :
    Inv L { s with cache := s.cache.drop (drivers.ppaStart a), writing := some fun _ => none } view := by
  refine ⟨hs.feed,hs.taken,hs.sent,?_,?_,hs.whole⟩
  · intro written hwritten
    obtain rfl := Option.some.inj hwritten
    exact ⟨a,frame,hacquired,s.cache.mem,untouched_drop (hdoc.ppaStart.covers a),nofun⟩
  · intro e he
    obtain ⟨v,htracks,hv⟩ := hs.shown e he
    have hne := (he.older hs.feed hs.sent hacquired).1
    exact ⟨v,tracks_drop_other hdoc.ppaStart htracks hne,hv⟩

theorem inv_ppaWrite (hs : Inv L s view) {a : Fin n} (hacquired : s.feed.feed = .acquired a frame)
    (hwriting : s.writing = some written) {o : Int} (ho : L.base a + o ∈ L.cells a) (b : UInt8) :
    Inv L { s with
      cache := s.cache.dma (L.base a + o) b
      writing := some (Function.update written o (some b)) } view := by
  refine ⟨hs.feed,hs.taken,hs.sent,?_,?_,hs.whole⟩
  · intro written' hwritten'
    obtain rfl := Option.some.inj hwritten'
    obtain ⟨e,frame',hacquired',v,huntouched,hv⟩ := hs.writing written hwriting
    obtain ⟨rfl,-⟩ := FeedPoint.acquired.inj (hacquired'.symm.trans hacquired)
    exact ⟨e,frame',hacquired',_,huntouched.dma _ b,hv.update ho b⟩
  · intro e he
    obtain ⟨v,htracks,hv⟩ := hs.shown e he
    have hother : L.base a + o ∉ L.cells e :=
      fun hin => (he.older hs.feed hs.sent hacquired).1 (FrameLayout.cells_apart hin ho)
    exact ⟨_,htracks.dma_other hother,hv.congr (update_other _ b hother)⟩

theorem inv_carry (hs : Inv L s view) {cache : WriteBack Int Int UInt8}
    (change : (Int → UInt8) → Int → UInt8)
    (htracks : ∀ e v, Tracks L.lineOf s.cache (L.cells e) v ∅ →
      Tracks L.lineOf cache (L.cells e) (change v) ∅)
    (huntouched : ∀ e v, Untouched L.lineOf s.cache (L.cells e) v →
      Untouched L.lineOf cache (L.cells e) (change v))
    (hchange : ∀ v e, ∀ a ∈ L.cells e, change v a = v a) : Inv L { s with cache := cache } view := by
  refine ⟨hs.feed,hs.taken,hs.sent,?_,?_,hs.whole⟩
  · intro written hwritten
    obtain ⟨e,frame,hacquired,v,hbefore,hv⟩ := hs.writing written hwritten
    exact ⟨e,frame,hacquired,change v,huntouched e v hbefore,hv.congr (hchange v e)⟩
  · intro e he
    obtain ⟨v,hbefore,hv⟩ := hs.shown e he
    exact ⟨change v,htracks e v hbefore,hv.congr (hchange v e)⟩

theorem Inv.step (hdoc : drivers.Documented L) (s : FeedMemory n) (event : FeedMemoryEvent)
    (t : FeedMemory n) (hs : ∃ view, Inv L s view) (h : feedMemoryStep L drivers s event = some t)
    (hcompletes : Completes L (s,event)) : ∃ view, Inv L t view := by
  obtain ⟨view,hs⟩ := hs
  have htask : ∀ event, (∀ ok, event ≠ .ppa ok) →
      (detectorFeedStep s.feed event).map (fun feed => { s with feed := feed }) = some t →
        ∃ view, Inv L t view := by
    intro event hother hmap
    obtain ⟨feed,hfeed,rfl⟩ := Option.map_eq_some_iff.mp hmap
    exact inv_task hs (feedStep_of hfeed) hother
  cases event with
  | task event =>
    cases event with
    | ppa ok =>
      cases ok with
      | true =>
        rw [feedMemoryStep] at h
        split at h
        · next a frame written hacquired hwriting =>
          obtain ⟨feed,hfeed,rfl⟩ := Option.map_eq_some_iff.mp h
          exact inv_converted hdoc hs hacquired hwriting (hcompletes rfl written hwriting) (feedStep_of hfeed)
        · cases h
      | false =>
        obtain ⟨feed,hfeed,rfl⟩ := Option.map_eq_some_iff.mp h
        exact inv_failed hs (feedStep_of hfeed)
    | frame => exact htask .frame nofun h
    | submitPush => exact htask .submitPush nofun h
    | submitGive => exact htask .submitGive nofun h
    | recvTake => exact htask .recvTake nofun h
    | recvPop => exact htask .recvPop nofun h
    | store => exact htask .store nofun h
    | release => exact htask .release nofun h
  | ppaStart =>
    rw [feedMemoryStep] at h
    split at h
    · next a frame hacquired hwriting =>
      obtain rfl := Option.some.inj h
      exact ⟨view,inv_ppaStart hdoc hs hacquired⟩
    · cases h
  | ppaWrite o b =>
    rw [feedMemoryStep] at h
    split at h
    · next a frame written hacquired hwriting =>
      obtain ⟨⟨hlow,hhigh⟩,h⟩ := Option.ite_none_right_eq_some.mp h
      obtain rfl := Option.some.inj h
      exact ⟨view,inv_ppaWrite hs hacquired hwriting ⟨by omega,by omega⟩ b⟩
    · cases h
  | cache op =>
    obtain rfl := Option.some.inj h
    exact ⟨view,inv_carry hs id (fun e v h => h.move op) (fun e v h => h.move op) fun _ _ _ _ => rfl⟩
  | otherStore a b =>
    obtain ⟨hother,h⟩ := Option.ite_none_right_eq_some.mp h
    obtain rfl := Option.some.inj h
    exact ⟨view,inv_carry hs (Function.update · a b) (fun e v h => h.store_other (L.cells_whole e) (hother e))
      (fun e v h => h.store_other (L.cells_whole e) (hother e)) fun v e => update_other v b (hother e)⟩
  | otherDma a b =>
    obtain ⟨hother,h⟩ := Option.ite_none_right_eq_some.mp h
    obtain rfl := Option.some.inj h
    exact ⟨view,inv_carry hs (Function.update · a b) (fun e v h => h.dma_other (hother e))
      (fun e v h => h.dma_other (hother e)) fun v e => update_other v b (hother e)⟩

end Steps

theorem Inv.start {cfg : FramePoolCfg} {heap heap' : Heap} {pool : FramePool cfg.elemNum.toNat}
    (hnew : framePoolNew cfg heap = (.ok,some pool,heap')) (L : FrameLayout cfg.elemNum.toNat)
    (cache : WriteBack Int Int UInt8) : ∃ view, Inv L (FeedMemory.start pool cache) view := by
  obtain ⟨view,hfeed,hready⟩ := DetectorFeed.Inv.start hnew
  have hnone : ∀ e, ¬(DetectorFeed.start pool).Shown view e := by
    rintro e (⟨_,he⟩ | he | he)
    · cases he
    · exact absurd (hready ▸ he) List.not_mem_nil
    · cases he
  refine ⟨view,hfeed,fun _ => rfl,?_,nofun,fun e he => absurd he (hnone e),fun e he => absurd he (hnone e)⟩
  rintro e (he | he)
  · exact absurd (hready ▸ he) List.not_mem_nil
  · cases he

/-- With the documented drivers and a PPA that writes what it reports as done, whatever was in the cache
before and whatever it does in between: while the model runs on an element the processor reads there,
byte for byte, what the PPA made of the frame that its boxes are stored for. -/
theorem detector_reads (cfg : FramePoolCfg) (heap heap' : Heap) (pool : FramePool cfg.elemNum.toNat)
    (hnew : framePoolNew cfg heap = (.ok,some pool,heap')) (L : FrameLayout cfg.elemNum.toNat)
    (drivers : FeedDrivers cfg.elemNum.toNat) (hdoc : drivers.Documented L)
    (cache : WriteBack Int Int UInt8) (es : List FeedMemoryEvent) (s : FeedMemory cfg.elemNum.toNat)
    (h : runEvents (feedMemoryStep L drivers) (start pool cache) es = some s)
    (hcompletes : ∀ m ∈ moments (feedMemoryStep L drivers) (start pool cache) es, Completes L m)
    (e : Fin cfg.elemNum.toNat) (hrunning : s.feed.detect = .running e) (o : Int) (hlow : 0 ≤ o)
    (hhigh : o < L.length) :
    s.pictures (s.feed.buffer e) o = some (s.cache.load L.lineOf (L.base e + o)) := by
  have hkeep : ∀ s event t, (∃ view, Inv L s view) → feedMemoryStep L drivers s event = some t →
      ¬¬Completes L (s,event) → ∃ view, Inv L t view :=
    fun s event t hs hstep hcompletes => Inv.step hdoc s event t hs hstep (not_not.mp hcompletes)
  obtain ⟨view,hs⟩ := runEvents_persists (P := fun s => ∃ view, Inv L s view) hkeep
    (Inv.start hnew L cache) h fun m hm => not_not.mpr (hcompletes m hm)
  have hshown : s.feed.Shown view e := .inr (.inr (by rw [hrunning]; rfl))
  obtain ⟨v,htracks,hv⟩ := hs.shown e hshown
  obtain ⟨b,hpicture⟩ := hs.whole e hshown o hlow hhigh
  obtain ⟨hin,hval⟩ := hv o b hpicture
  rw [hpicture,htracks.load hin,hval]

/-- Two elements, each of a line of two bytes. -/
def twoElements : FrameLayout 2 where
  lineSize := 2
  base e := 2 * (e.val : Int)
  length := 2
  lineSize_pos := by decide
  base_aligned := by decide
  length_aligned := by decide
  apart := by decide

def twoElementDrivers : FeedDrivers 2 := ⟨twoElements.hasLine,twoElements.hasLine⟩

/-- The first frame as far as the detector, with a line that is loaded before the PPA is done with it. -/
def onePicture : List FeedMemoryEvent :=
  [.task .frame,.ppaStart,.ppaWrite 0 7,.cache (.fill 1),.ppaWrite 1 9,.task (.ppa true),.task .submitPush,
    .task .submitGive,.task .recvTake,.task .recvPop,.cache (.fill 1)]

/-- The zeros of the allocation are still in the cache when the tasks start. -/
theorem detector_reads_onePicture : ∃ s : FeedMemory 2,
    runEvents (feedMemoryStep twoElements twoElementDrivers)
      (start feedPool ⟨fun _ => 1,fun _ => some ⟨fun _ => 0,true⟩⟩) onePicture = some s ∧
    s.feed.detect = .running (Fin.last 1) ∧ s.pictures (s.feed.buffer (Fin.last 1)) 1 = some 9 ∧
    s.pictures (s.feed.buffer (Fin.last 1)) 1 =
      some (s.cache.load twoElements.lineOf (twoElements.base (Fin.last 1) + 1)) := by
  have hdoc : twoElementDrivers.Documented twoElements :=
    ⟨twoElements.hasLine_invalidates,twoElements.hasLine_invalidates⟩
  have hcompletes : ∀ m ∈ moments (feedMemoryStep twoElements twoElementDrivers)
      (start feedPool ⟨fun _ => 1,fun _ => some ⟨fun _ => 0,true⟩⟩) onePicture,
      Completes twoElements m := by
    have hwritten : (moments (feedMemoryStep twoElements twoElementDrivers)
        (start feedPool ⟨fun _ => 1,fun _ => some ⟨fun _ => 0,true⟩⟩) onePicture).all
        (fun m => decide (m.2 ≠ .task (.ppa true)) ||
          m.1.writing.all fun written => (written 0).isSome && (written 1).isSome) = true := rfl
    intro m hm hdone written hwriting o hlow hhigh
    have hboth := List.all_eq_true.mp hwritten m hm
    simp only [hdone,hwriting,ne_eq,not_true_eq_false,decide_false,Bool.false_or,Option.all_some,
      Bool.and_eq_true,Option.isSome_iff_exists] at hboth
    obtain rfl | rfl : o = 0 ∨ o = 1 := by
      change o < 2 at hhigh
      omega
    · exact hboth.1
    · exact hboth.2
  exact ⟨_,rfl,rfl,rfl,detector_reads feedPoolCfg Heap.ample (framePoolNew feedPoolCfg Heap.ample).2.2
    feedPool rfl twoElements twoElementDrivers hdoc _ onePicture _ rfl hcompletes (Fin.last 1) rfl 1
    (by decide) (by decide)⟩

end FeedMemory

end Esp32Ipc
