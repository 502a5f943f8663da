import Esp32Ipc.Task.DetectorFeed

/-!
# Order of the frames that reach the detector

The ready list is a stack. While the detector only ever finds one frame on it, what it receives is
what was submitted, in that order; the first time it finds two it takes the newer one, and no later
step can repair the sequence.
-/

namespace Esp32Ipc

open Framework

variable {n : Nat}

namespace FeedPoint

def element : FeedPoint n → Option (Fin n)
  | .idle => none
  | .acquired e _ => some e
  | .filled e _ => some e

/-- Every frame submitted so far is older than this. -/
def bound (frameNo : Nat) : FeedPoint n → Nat
  | .idle => frameNo
  | .acquired _ frame => frame
  | .filled _ frame => frame

end FeedPoint

namespace DetectPoint

def element : DetectPoint n → Option (Fin n)
  | .receiving => none
  | .running e => some e
  | .stored e => some e

/-- The frame that was received and whose result is still to be stored. -/
def pending (buffer : Fin n → Nat) : DetectPoint n → List Nat
  | .running e => [buffer e]
  | _ => []

end DetectPoint

namespace DetectorFeed

/-- At most one element is on the ready list. -/
def LoneFrame (s : DetectorFeed n) : Prop :=
  ∀ e, s.sys.pool.readyList = some e → s.sys.pool.next e = none

structure Inv (s : DetectorFeed n) (view : PoolView (Fin n)) : Prop where
  shows : s.sys.pool.Shows view
  built : n ≤ s.sys.pool.elemNum
  feedOut : ∀ e, s.feed.element = some e → view.CheckedOut e
  detectOut : ∀ e, s.detect.element = some e → view.CheckedOut e ∧ s.feed.element ≠ some e
  older : ∀ x ∈ s.submitted, x.2 < s.feed.bound s.frameNo
  fresh : ∀ e, s.feed.element = some e → s.feed.bound s.frameNo < s.frameNo
  filled : ∀ e frame, s.feed = .filled e frame → s.buffer e = frame
  sorted : (s.submitted.map Prod.snd).Pairwise (· < ·)
  results : s.stored ++ s.detect.pending s.buffer = s.received.map Prod.snd

/-- Everything one step can do to the ready list and the history. -/
inductive Effect (s : DetectorFeed n) (view : PoolView (Fin n)) (event : FeedEvent)
    (s' : DetectorFeed n) : Prop where
  | quiet (view' : PoolView (Fin n)) (inv : s'.Inv view')
      (ready : view'.cells .ready = view.cells .ready)
      (buffer : ∀ e ∈ view.cells .ready, s'.buffer e = s.buffer e)
      (submitted : s'.submitted = s.submitted) (received : s'.received = s.received)
      (pop : event = .recvPop → view.cells .ready = [])
  | submit (view' : PoolView (Fin n)) (e : Fin n) (inv : s'.Inv view')
      (ready : view'.cells .ready = e :: view.cells .ready) (buffer : s'.buffer = s.buffer)
      (submitted : s'.submitted = s.submitted ++ [(e,s.buffer e)])
      (received : s'.received = s.received) (pop : event ≠ .recvPop)
  | receive (view' : PoolView (Fin n)) (e : Fin n) (rest : List (Fin n)) (inv : s'.Inv view')
      (before : view.cells .ready = e :: rest) (ready : view'.cells .ready = rest)
      (buffer : s'.buffer = s.buffer) (submitted : s'.submitted = s.submitted)
      (received : s'.received = s.received ++ [(e,s.buffer e)]) (pop : event = .recvPop)

variable {s s' : DetectorFeed n} {view : PoolView (Fin n)}

private theorem release_pool {sys sys' : PoolSystem FeedTask n} {t : FeedTask} {e : Fin n}
    (h : sys.pool.Shows view) (hbuilt : n ≤ sys.pool.elemNum)
    (hstep : PoolStep sys (.release t (sys.pool.element e).index) sys') :
    sys'.pool = (listPush sys.pool .free e).2 := by
  have he : e.val < sys.pool.elemNum := e.isLt.trans_le hbuilt
  cases hstep with
  | release t index pool hidle hpool =>
    rw [framePoolRelease,dif_pos (by rw [h.index e he]; omega)] at hpool
    obtain rfl := Option.some.inj hpool
    simp only [h.index e he,Int.toNat_natCast]

private theorem effect_skip (h : s.Inv view) (hidle : s.feed = .idle) :
    Effect s view .frame { s with frameNo := s.frameNo + 1 } := by
  refine .quiet view ⟨h.shows,h.built,h.feedOut,h.detectOut,?_,?_,h.filled,h.sorted,h.results⟩
    rfl (fun _ _ => rfl) rfl rfl (by simp)
  · intro x hx
    have holder := h.older x hx
    rw [hidle,FeedPoint.bound] at holder
    simpa [hidle,FeedPoint.bound] using Nat.lt_succ_of_lt holder
  · intro e he
    simp [hidle,FeedPoint.element] at he

private theorem effect_acquire (h : s.Inv view) (hidle : s.feed = .idle) :
    Effect s view .frame
      { s with
        sys := { s.sys with pool := (listPop s.sys.pool .free).2 }
        frameNo := s.frameNo + 1
        feed := (listPop s.sys.pool .free).1.elim .idle fun e => .acquired e s.frameNo } := by
  have holder := h.older
  rw [hidle,FeedPoint.bound] at holder
  cases hcells : view.cells .free with
  | nil =>
    have hpop := h.shows.listPop_nil hcells
    simp only [hpop]
    refine .quiet view ⟨h.shows,h.built,?_,fun e he => ⟨(h.detectOut e he).1,?_⟩,?_,?_,?_,h.sorted,
      h.results⟩ rfl (fun _ _ => rfl) rfl rfl (by simp)
    · intro e he; simp [FeedPoint.element] at he
    · simp [FeedPoint.element]
    · intro x hx; simpa [FeedPoint.bound] using Nat.lt_succ_of_lt (holder x hx)
    · intro e he; simp [FeedPoint.element] at he
    · intro e frame he; simp at he
  | cons e rest =>
    obtain ⟨hret,hshows⟩ := h.shows.listPop_cons hcells
    simp only [hret,Option.elim_some]
    refine .quiet (view.pop .free) ⟨hshows,by simpa using h.built,?_,fun a ha => ⟨?_,?_⟩,?_,?_,?_,
      h.sorted,h.results⟩ (by simp) (fun _ _ => rfl) rfl rfl (by simp)
    · intro a ha
      obtain rfl : e = a := by simpa [FeedPoint.element] using ha
      exact (PoolView.checkedOut_pop hcells).mpr (.inr rfl)
    · exact (PoolView.checkedOut_pop hcells).mpr (.inl (h.detectOut a ha).1)
    · simp only [FeedPoint.element]
      intro hea
      obtain rfl := Option.some.inj hea
      exact (h.detectOut e ha).1 .free (by simp [hcells])
    · intro x hx; simpa [FeedPoint.bound] using holder x hx
    · intro a ha; simp [FeedPoint.bound]
    · intro a frame ha; simp at ha

private theorem effect_fill (h : s.Inv view) {e : Fin n} {frame : Nat}
    (hfeed : s.feed = .acquired e frame) :
    Effect s view (.ppa true)
      { s with feed := .filled e frame, buffer := Function.update s.buffer e frame } := by
  have helement : s.feed.element = some e := by rw [hfeed]; rfl
  have hout := h.feedOut e helement
  have holder := h.older
  have hfresh := h.fresh e helement
  rw [hfeed,FeedPoint.bound] at holder hfresh
  -- Only the buffer being filled changes, and it is neither waiting nor with the detector.
  have hdetect : ∀ a, s.detect.element = some a → a ≠ e := by
    rintro a ha rfl
    exact (h.detectOut a ha).2 helement
  refine .quiet view ⟨h.shows,h.built,?_,fun a ha => ⟨(h.detectOut a ha).1,?_⟩,holder,?_,?_,
    h.sorted,?_⟩ rfl ?_ rfl rfl (by simp)
  · intro a ha
    obtain rfl : e = a := by simpa [FeedPoint.element] using ha
    exact hout
  · simpa [FeedPoint.element] using (hdetect a ha).symm
  · intro a _; exact hfresh
  · intro a k ha
    obtain ⟨rfl,rfl⟩ : e = a ∧ frame = k := by simpa using ha
    simp
  · have hresults := h.results
    cases hd : s.detect with
    | receiving => simpa [hd,DetectPoint.pending] using hresults
    | stored a => simpa [hd,DetectPoint.pending] using hresults
    | running a =>
      have hne : a ≠ e := hdetect a (by rw [hd]; rfl)
      simpa [hd,DetectPoint.pending,hne] using hresults
  · intro a ha
    have hne : a ≠ e := by
      intro heq
      subst heq
      exact hout .ready ha
    simp [hne]

private theorem effect_giveBack (h : s.Inv view) {e : Fin n} {frame : Nat}
    {sys : PoolSystem FeedTask n} (hfeed : s.feed = .acquired e frame)
    (hsys : PoolStep s.sys (.release .encode (s.sys.pool.element e).index) sys) :
    Effect s view (.ppa false) { s with sys := sys, feed := .idle } := by
  have helement : s.feed.element = some e := by rw [hfeed]; rfl
  have hout := h.feedOut e helement
  have holder := h.older
  have hfresh := h.fresh e helement
  rw [hfeed,FeedPoint.bound] at holder hfresh
  have hpool := release_pool h.shows h.built hsys
  have hshows := (h.shows.listPush .free (e.isLt.trans_le h.built) hout).2
  refine .quiet (view.push .free e hout) ⟨by rw [hpool]; exact hshows,
    by rw [hpool]; simpa using h.built,?_,fun a ha => ⟨?_,?_⟩,?_,?_,?_,h.sorted,h.results⟩
    (by simp) (fun _ _ => rfl) rfl rfl (by simp)
  · intro a ha; simp [FeedPoint.element] at ha
  · refine (PoolView.checkedOut_push hout).mpr ⟨(h.detectOut a ha).1,?_⟩
    intro heq
    subst heq
    exact (h.detectOut a ha).2 helement
  · simp [FeedPoint.element]
  · intro x hx; exact (holder x hx).trans hfresh
  · intro a ha; simp [FeedPoint.element] at ha
  · intro a k ha; simp at ha

private theorem effect_submitPush (h : s.Inv view) {e : Fin n} {frame : Nat}
    {sys : PoolSystem FeedTask n} (hfeed : s.feed = .filled e frame)
    (hsys : PoolStep s.sys (.submitPush .encode e) sys) :
    Effect s view .submitPush
      { s with
        sys := sys
        feed := .idle
        submitted := if sys.task .encode = .giving then s.submitted ++ [(e,s.buffer e)]
          else s.submitted } := by
  have helement : s.feed.element = some e := by rw [hfeed]; rfl
  have hout := h.feedOut e helement
  have holder := h.older
  have hfresh := h.fresh e helement
  rw [hfeed,FeedPoint.bound] at holder hfresh
  have hbuffer := h.filled e frame hfeed
  obtain ⟨hok,hshows⟩ := h.shows.listPush .ready (e.isLt.trans_le h.built) hout
  cases hsys with
  | refused t e hidle hrefused => exact absurd hok hrefused
  | pushed t e hidle _ =>
    simp only [PoolSystem.goto,Function.update_self,if_true]
    refine .submit (view.push .ready e hout) e ⟨hshows,by simpa using h.built,?_,
      fun a ha => ⟨?_,?_⟩,?_,?_,?_,?_,h.results⟩ (by simp) rfl rfl rfl (by decide)
    · intro a ha; simp [FeedPoint.element] at ha
    · refine (PoolView.checkedOut_push hout).mpr ⟨(h.detectOut a ha).1,?_⟩
      intro heq
      subst heq
      exact (h.detectOut a ha).2 helement
    · simp [FeedPoint.element]
    · intro x hx
      rcases List.mem_append.mp hx with hx | hx
      · exact (holder x hx).trans hfresh
      · obtain rfl := List.mem_singleton.mp hx
        simpa [hbuffer,FeedPoint.bound] using hfresh
    · intro a ha; simp [FeedPoint.element] at ha
    · intro a k ha; simp at ha
    · rw [List.map_append,List.pairwise_append]
      refine ⟨h.sorted,by simp,?_⟩
      intro a ha b hb
      obtain ⟨x,hx,rfl⟩ := List.mem_map.mp ha
      obtain rfl : b = frame := by simpa [hbuffer] using hb
      exact holder x hx

private theorem effect_semaphore (h : s.Inv view) {event : FeedEvent}
    {sys : PoolSystem FeedTask n} {sem : CountingSem} (hpop : event ≠ .recvPop)
    (hpool : sys.pool = { s.sys.pool with readySem := sem }) :
    Effect s view event { s with sys := sys } := by
  refine .quiet view ⟨?_,?_,h.feedOut,h.detectOut,h.older,h.fresh,h.filled,h.sorted,h.results⟩ rfl
    (fun _ _ => rfl) rfl rfl fun he => absurd he hpop
  · rw [hpool]; exact h.shows.withSem sem
  · rw [hpool]; exact h.built

private theorem effect_recvEmpty (h : s.Inv view) {sys : PoolSystem FeedTask n}
    (hsys : PoolStep s.sys (.recvPop .detect) sys) (hempty : (listPop s.sys.pool .ready).1 = none) :
    Effect s view .recvPop { s with sys := sys } := by
  cases hcells : view.cells .ready with
  | cons e rest =>
    rw [(h.shows.listPop_cons hcells).1] at hempty
    simp at hempty
  | nil =>
    have hpop := h.shows.listPop_nil hcells
    cases hsys with
    | recvPop t htaken =>
      simp only [hpop]
      exact .quiet view ⟨h.shows,h.built,h.feedOut,h.detectOut,h.older,h.fresh,h.filled,h.sorted,
        h.results⟩ rfl (fun _ _ => rfl) rfl rfl fun _ => hcells

private theorem effect_recvPop (h : s.Inv view) (hreceiving : s.detect = .receiving) {e : Fin n}
    {sys : PoolSystem FeedTask n} (hsys : PoolStep s.sys (.recvPop .detect) sys)
    (hfirst : (listPop s.sys.pool .ready).1 = some e) :
    Effect s view .recvPop
      { s with
        sys := sys
        detect := .running e
        received := s.received ++ [(e,s.buffer e)] } := by
  cases hcells : view.cells .ready with
  | nil => simp [h.shows.listPop_nil hcells] at hfirst
  | cons a rest =>
    obtain ⟨hret,hshows⟩ := h.shows.listPop_cons hcells
    obtain rfl : a = e := Option.some.inj (hret.symm.trans hfirst)
    cases hsys with
    | recvPop t htaken =>
      refine .receive (view.pop .ready) a rest ⟨hshows,by simpa [PoolSystem.goto] using h.built,?_,
        fun b hb => ?_,h.older,h.fresh,h.filled,h.sorted,?_⟩ hcells (by simp [hcells]) rfl rfl rfl rfl
      · intro b hb
        exact (PoolView.checkedOut_pop hcells).mpr (.inl (h.feedOut b hb))
      · obtain rfl : a = b := by simpa [DetectPoint.element] using hb
        refine ⟨(PoolView.checkedOut_pop hcells).mpr (.inr rfl),fun hfeed => ?_⟩
        exact h.feedOut a hfeed .ready (by simp [hcells])
      · have hresults := h.results
        rw [hreceiving] at hresults
        simp only [DetectPoint.pending,List.append_nil] at hresults
        simp [DetectPoint.pending,hresults]

private theorem effect_store (h : s.Inv view) {e : Fin n} (hd : s.detect = .running e) :
    Effect s view .store { s with detect := .stored e, stored := s.stored ++ [s.buffer e] } := by
  have hout := h.detectOut e (by rw [hd]; rfl)
  refine .quiet view ⟨h.shows,h.built,h.feedOut,?_,h.older,h.fresh,h.filled,h.sorted,?_⟩ rfl
    (fun _ _ => rfl) rfl rfl (by simp)
  · intro a ha
    obtain rfl : e = a := by simpa [DetectPoint.element] using ha
    exact hout
  · have hresults := h.results
    rw [hd] at hresults
    simpa [DetectPoint.pending] using hresults

private theorem effect_release (h : s.Inv view) {e : Fin n} {sys : PoolSystem FeedTask n}
    (hd : s.detect = .stored e)
    (hsys : PoolStep s.sys (.release .detect (s.sys.pool.element e).index) sys) :
    Effect s view .release { s with sys := sys, detect := .receiving } := by
  obtain ⟨hout,hapart⟩ := h.detectOut e (by rw [hd]; rfl)
  have hpool := release_pool h.shows h.built hsys
  have hshows := (h.shows.listPush .free (e.isLt.trans_le h.built) hout).2
  refine .quiet (view.push .free e hout) ⟨by rw [hpool]; exact hshows,
    by rw [hpool]; simpa using h.built,?_,?_,h.older,h.fresh,h.filled,h.sorted,?_⟩
    (by simp) (fun _ _ => rfl) rfl rfl (by simp)
  · intro a ha
    refine (PoolView.checkedOut_push hout).mpr ⟨h.feedOut a ha,?_⟩
    intro heq
    subst heq
    exact hapart ha
  · intro a ha; simp [DetectPoint.element] at ha
  · have hresults := h.results
    rw [hd] at hresults
    simpa [DetectPoint.pending] using hresults

theorem effect_step (h : s.Inv view)
    (hrecv : s.sys.task .detect = .taken → s.detect = .receiving) {event : FeedEvent}
    (hstep : FeedStep s event s') : Effect s view event s' := by
  cases hstep with
  | skip hidle _ => exact effect_skip h hidle
  | acquire sys hidle _ hsys =>
    cases hsys with
    | acquire t _ => exact effect_acquire h hidle
  | fill e frame hfeed => exact effect_fill h hfeed
  | giveBack e frame sys hfeed hsys => exact effect_giveBack h hfeed hsys
  | submitPush e frame sys hfeed hsys => exact effect_submitPush h hfeed hsys
  | submitGive sys hsys =>
    cases hsys with
    | submitGive t _ => exact effect_semaphore h (by decide) rfl
  | recvTake sys _ hsys =>
    cases hsys with
    | recvTake t _ _ => exact effect_semaphore h (by decide) rfl
  | recvEmpty sys hsys hempty => exact effect_recvEmpty h hsys hempty
  | recvPop e sys hsys hfirst =>
    have htaken : s.sys.task .detect = .taken := by
      cases hsys with
      | recvPop t htaken => exact htaken
    exact effect_recvPop h (hrecv htaken) hsys hfirst
  | store e hd => exact effect_store h hd
  | release e sys hd hsys => exact effect_release h hd hsys

theorem taken_receiving {event : FeedEvent}
    (h : s.sys.task .detect = .taken → s.detect = .receiving) (hstep : FeedStep s event s') :
    s'.sys.task .detect = .taken → s'.detect = .receiving := by
  have hne : FeedTask.detect ≠ .encode := by decide
  cases hstep with
  | skip | fill => exact h
  | acquire sys _ _ hsys =>
    rw [hsys.task_eq hne]
    exact h
  | giveBack e frame sys _ hsys =>
    rw [hsys.task_eq hne]
    exact h
  | submitPush e frame sys _ hsys =>
    rw [hsys.task_eq hne]
    exact h
  | submitGive sys hsys =>
    rw [hsys.task_eq hne]
    exact h
  | recvTake sys hreceiving _ => exact fun _ => hreceiving
  | recvEmpty sys hsys _ =>
    cases hsys with
    | recvPop t _ => simp [PoolSystem.goto]
  | recvPop e sys hsys _ =>
    cases hsys with
    | recvPop t _ => simp [PoolSystem.goto]
  | store e hd =>
    intro htaken
    exact absurd (hd.symm.trans (h htaken)) (by simp)
  | release e sys _ _ => exact fun _ => rfl

/-- What was submitted is what was received followed by what waits, newest first on the list. -/
def InOrder (s : DetectorFeed n) (view : PoolView (Fin n)) : Prop :=
  s.submitted = s.received ++ ((view.cells .ready).map fun e => (e,s.buffer e)).reverse

/-- The two histories part after a common beginning. -/
def Parted (s : DetectorFeed n) : Prop :=
  ∃ common e f, e ≠ f ∧ common ++ [e] <+: s.received.map Prod.fst ∧
    common ++ [f] <+: s.submitted.map Prod.fst

private theorem Parted.mono (h : s.Parted) (hsub : s.submitted <+: s'.submitted)
    (hrec : s.received <+: s'.received) : s'.Parted := by
  obtain ⟨common,e,f,hne,he,hf⟩ := h
  exact ⟨common,e,f,hne,he.trans (hrec.map _),hf.trans (hsub.map _)⟩

private theorem Parted.not_prefix (h : s.Parted) :
    ¬s.received.map Prod.fst <+: s.submitted.map Prod.fst := by
  obtain ⟨common,e,f,hne,he,hf⟩ := h
  intro hprefix
  have heq : common ++ [e] = common ++ [f] :=
    (List.prefix_of_prefix_length_le (he.trans hprefix) hf (by simp)).eq_of_length (by simp)
  exact hne (by simpa using heq)

/-- A pop from a list of one keeps the order; from a longer list it parts the histories. -/
private theorem inOrder_receive {view view' : PoolView (Fin n)} {e : Fin n} {rest : List (Fin n)}
    (h : s.InOrder view) (hnodup : (view.cells .ready).Nodup)
    (before : view.cells .ready = e :: rest) (ready : view'.cells .ready = rest)
    (submitted : s'.submitted = s.submitted)
    (received : s'.received = s.received ++ [(e,s.buffer e)]) :
    (rest = [] → s'.InOrder view') ∧ (rest ≠ [] → s'.Parted) := by
  rw [InOrder,before] at h
  refine ⟨?_,?_⟩
  · intro heq
    subst heq
    rw [InOrder,submitted,received,ready,h]
    simp
  · intro hrest
    obtain ⟨init,f,rfl⟩ : ∃ init f, rest = init ++ [f] :=
      ⟨_,_,(List.dropLast_append_getLast hrest).symm⟩
    have hef : e ≠ f := by
      intro heq
      subst heq
      rw [before] at hnodup
      exact (List.nodup_cons.mp hnodup).1 (by simp)
    refine ⟨s.received.map Prod.fst,e,f,hef,?_,?_⟩
    · rw [received]; simp
    · rw [submitted,h]
      simp only [List.map_append,List.map_reverse,List.map_cons,List.map_map,List.reverse_cons,
        List.reverse_append,List.map_nil,List.reverse_nil,List.nil_append,List.cons_append]
      apply (List.prefix_append_right_inj _).mpr
      exact ⟨_,rfl⟩

private theorem loneFrame_iff (h : s.Inv view) {e : Fin n} {rest : List (Fin n)}
    (hcells : view.cells .ready = e :: rest) : s.LoneFrame ↔ rest = [] := by
  have hl := h.shows.linked .ready
  rw [hcells,linked_cons] at hl
  obtain ⟨hfirst,hrest⟩ := hl
  change s.sys.pool.readyList = some e at hfirst
  constructor
  · intro hlone
    rw [hlone e hfirst] at hrest
    cases rest with
    | nil => rfl
    | cons a rest => exact absurd hrest.1 (by simp)
  · rintro rfl a ha
    obtain rfl := Option.some.inj (hfirst.symm.trans ha)
    exact hrest

/-- Either every pop so far found a lone frame and the histories are in order, or some pop did not
and they have parted for good. -/
private def OrderedRun (pool : FramePool n) (events : List FeedEvent) (s : DetectorFeed n) : Prop :=
  ∃ view, s.Inv view ∧ (s.sys.task .detect = .taken → s.detect = .receiving) ∧
    (((∀ m ∈ moments detectorFeedStep (start pool) events, m.2 = .recvPop → m.1.LoneFrame) ∧
        s.InOrder view) ∨
      ((∃ m ∈ moments detectorFeedStep (start pool) events, m.2 = .recvPop ∧ ¬m.1.LoneFrame) ∧
        s.Parted))

private theorem lone_concat {ms : List (DetectorFeed n × FeedEvent)} {event : FeedEvent}
    (hall : ∀ m ∈ ms, m.2 = .recvPop → m.1.LoneFrame) (hlast : event = .recvPop → s.LoneFrame) :
    ∀ m ∈ ms ++ [(s,event)], m.2 = .recvPop → m.1.LoneFrame := by
  intro m hm hpop
  rcases List.mem_append.mp hm with hm | hm
  · exact hall m hm hpop
  · obtain rfl := List.mem_singleton.mp hm
    exact hlast hpop

private theorem parted_concat {ms : List (DetectorFeed n × FeedEvent)}
    {last : DetectorFeed n × FeedEvent}
    (h : (∃ m ∈ ms, m.2 = .recvPop ∧ ¬m.1.LoneFrame) ∧ s.Parted)
    (hsub : s.submitted <+: s'.submitted) (hrec : s.received <+: s'.received) :
    (∃ m ∈ ms ++ [last], m.2 = .recvPop ∧ ¬m.1.LoneFrame) ∧ s'.Parted := by
  obtain ⟨⟨m',hm',hbad⟩,hparted⟩ := h
  exact ⟨⟨m',List.mem_append_left _ hm',hbad⟩,hparted.mono hsub hrec⟩

private theorem orderedRun (pool : FramePool n)
    (hpool : ∃ view, (start pool).Inv view ∧ view.cells .ready = []) (events : List FeedEvent)
    (s : DetectorFeed n) (hrun : runEvents detectorFeedStep (start pool) events = some s) :
    OrderedRun pool events s := by
  induction events, s, hrun using runEvents_induction with
  | nil =>
    obtain ⟨view,hinv,hready⟩ := hpool
    exact ⟨view,hinv,by simp [start,PoolSystem.start],
      .inl ⟨by simp,by simp [InOrder,hready,start]⟩⟩
  | concat events s event s' hrun hstep ih =>
    obtain ⟨view,hinv,hrecv,hih⟩ := ih
    have hrecv' := taken_receiving hrecv (feedStep_of hstep)
    unfold OrderedRun
    rw [moments_concat hrun event]
    cases effect_step hinv hrecv (feedStep_of hstep) with
    | quiet view' inv ready buffer submitted received pop =>
      refine ⟨view',inv,hrecv',hih.imp ?_ fun hparted => ?_⟩
      · rintro ⟨hall,horder⟩
        constructor
        · apply lone_concat hall
          intro hpop e he
          have hl := hinv.shows.linked .ready
          rw [pop hpop] at hl
          exact absurd (he.symm.trans hl) (by simp)
        · rw [InOrder,submitted,received,ready,horder]
          congr 2
          exact List.map_congr_left fun e he => by rw [buffer e he]
      · exact parted_concat hparted (by rw [submitted]) (by rw [received])
    | submit view' e inv ready buffer submitted received pop =>
      refine ⟨view',inv,hrecv',hih.imp ?_ fun hparted => ?_⟩
      · rintro ⟨hall,horder⟩
        constructor
        · exact lone_concat hall fun hpop => absurd hpop pop
        · rw [InOrder,submitted,received,ready,buffer,horder]
          simp
      · apply parted_concat hparted
        · rw [submitted]
          exact List.prefix_append _ _
        · rw [received]
    | receive view' e rest inv before ready buffer submitted received pop =>
      refine ⟨view',inv,hrecv',?_⟩
      rcases hih with ⟨hall,horder⟩ | hparted
      · obtain ⟨hgood,hbad⟩ :=
          inOrder_receive horder (view.cells_nodup .ready) before ready submitted received
        -- the pop takes the newest frame, which is the oldest only when it is alone
        by_cases hrest : rest = []
        · exact .inl ⟨lone_concat hall fun _ => (loneFrame_iff hinv before).mpr hrest,hgood hrest⟩
        · refine .inr ⟨⟨(s,event),by simp,pop,?_⟩,hbad hrest⟩
          exact fun hlone => hrest ((loneFrame_iff hinv before).mp hlone)
      · right
        apply parted_concat hparted
        · rw [submitted]
        · rw [received]
          exact List.prefix_append _ _

theorem Inv.start {cfg : FramePoolCfg} {heap heap' : Heap} {pool : FramePool cfg.elemNum.toNat}
    (hnew : framePoolNew cfg heap = (.ok,some pool,heap')) :
    ∃ view, (start pool).Inv view ∧ view.cells .ready = [] := by
  obtain ⟨view,hshows,hready,hbuilt,_⟩ := framePoolNew_shows hnew
  refine ⟨view,⟨hshows,hbuilt,?_,?_,?_,?_,?_,?_,rfl⟩,hready⟩ <;>
    simp [DetectorFeed.start,FeedPoint.element,DetectPoint.element]

/-- Frames reach the detector in submission order, and its results never go back to an older
frame, exactly when every pop of `frame_pool_recv` finds a single element on the ready list. -/
theorem inOrder_iff_lone (cfg : FramePoolCfg) (heap heap' : Heap)
    (pool : FramePool cfg.elemNum.toNat) (hnew : framePoolNew cfg heap = (.ok,some pool,heap'))
    (events : List FeedEvent) (s : DetectorFeed cfg.elemNum.toNat)
    (hrun : runEvents detectorFeedStep (start pool) events = some s) :
    (s.received.map Prod.fst <+: s.submitted.map Prod.fst ∧ s.stored.Pairwise (· ≤ ·)) ↔
      ∀ m ∈ moments detectorFeedStep (start pool) events, m.2 = .recvPop → m.1.LoneFrame := by
  obtain ⟨view,hinv,_,hcase⟩ := orderedRun pool (Inv.start hnew) events s hrun
  rcases hcase with ⟨hall,horder⟩ | ⟨⟨m,hm,hpop,hbad⟩,hparted⟩
  · refine iff_of_true ⟨?_,?_⟩ hall
    · rw [horder,List.map_append]
      exact List.prefix_append _ _
    · have hsorted := hinv.sorted
      rw [horder,List.map_append,← hinv.results] at hsorted
      exact ((List.pairwise_append.mp (List.pairwise_append.mp hsorted).1).1).imp fun h => h.le
  · refine iff_of_false (fun h => hparted.not_prefix h.1) fun hall => hbad (hall m hm hpop)

/-- Two feeds before the detector's next receive: the second frame overtakes the first, and the
stored boxes go back from frame 3 to frame 0. -/
theorem feed_overtaken : ∃ s, runEvents detectorFeedStep (start feedPool)
      [.frame,.ppa true,.submitPush,.submitGive,.frame,.frame,.frame,.ppa true,.submitPush,
        .submitGive,.recvTake,.recvPop,.store,.release,.recvTake,.recvPop,.store] = some s ∧
    s.submitted = [(1,0),(0,3)] ∧ s.received = [(0,3),(1,0)] ∧ s.stored = [3,0] ∧
    ¬s.received.map Prod.fst <+: s.submitted.map Prod.fst ∧ ¬s.stored.Pairwise (· ≤ ·) := by
  refine ⟨_,rfl,rfl,rfl,rfl,?_,?_⟩ <;> decide

/-- A frame on its way to the detector and its boxes back. -/
def feedRound : List FeedEvent :=
  [.frame,.ppa true,.submitPush,.submitGive,.recvTake,.recvPop,.store,.release]

/-- Two frames, one after the other; the detector is not fed with the two between them. -/
theorem inOrder_iff_lone_feedPool : ∃ s, runEvents detectorFeedStep (start feedPool)
      (feedRound ++ .frame :: .frame :: feedRound) = some s ∧
    s.submitted = [(1,0),(1,3)] ∧ s.received = [(1,0),(1,3)] ∧ s.stored = [0,3] ∧
    ((s.received.map Prod.fst <+: s.submitted.map Prod.fst ∧ s.stored.Pairwise (· ≤ ·)) ↔
      ∀ m ∈ moments detectorFeedStep (start feedPool) (feedRound ++ .frame :: .frame :: feedRound),
        m.2 = .recvPop → m.1.LoneFrame) :=
  ⟨_,rfl,rfl,rfl,rfl,inOrder_iff_lone feedPoolCfg Heap.ample
    (framePoolNew feedPoolCfg Heap.ample).2.2 feedPool rfl _ _ rfl⟩

end DetectorFeed

end Esp32Ipc
