import Esp32Ipc.Core.OsdStores
import Esp32Ipc.Framework.WriteBack
import Esp32Ipc.Task.Overlay
import Esp32Ipc.Task.VideoBuffers

/-!
# The frames in memory

The sensor fills the capture buffers by DMA, and the PPA and the encoder read them by DMA. In
between `overlay_boxes` stores the marks through the data cache and writes the dirty rows back, while
the cache loads, writes back and evicts lines of its own accord. Which lines ESP-IDF writes back and
which ones the capture driver invalidates are parameters. What every reader gets is compared with a
memory that has no cache.
-/

namespace Esp32Ipc

open Framework

variable {n m : Nat}

/-- Where the capture buffers are mapped: apart, and each on cache lines of its own. -/
structure FrameLayout (n : Nat) where
  lineSize : Int
  base : Fin n → Int
  length : Int
  lineSize_pos : 0 < lineSize
  base_aligned : ∀ i, lineSize ∣ base i
  length_aligned : lineSize ∣ length
  apart : ∀ i j, i ≠ j → base i + length ≤ base j ∨ base j + length ≤ base i

namespace FrameLayout

def lineOf (L : FrameLayout n) (a : Int) : Int := a / L.lineSize

def cells (L : FrameLayout n) (i : Fin n) : Set Int := {a | L.base i ≤ a ∧ a < L.base i + L.length}

instance (L : FrameLayout n) (i : Fin n) (a : Int) : Decidable (a ∈ L.cells i) :=
  inferInstanceAs (Decidable (L.base i ≤ a ∧ a < L.base i + L.length))

/-- The lines of a buffer, by where they begin. -/
def hasLine (L : FrameLayout n) (i : Fin n) (k : Int) : Bool := decide (k * L.lineSize ∈ L.cells i)

/-- The lines that `esp_cache_msync` writes back, rounded outwards for `UNALIGNED`. -/
def msyncLines (L : FrameLayout n) (addr size : Int) : List Int :=
  (List.range (L.lineOf (addr + size - 1) - L.lineOf addr + 1).toNat).map fun j : Nat => L.lineOf addr + j

variable {L : FrameLayout n} {i j : Fin n} {a b : Int}

theorem cells_whole (L : FrameLayout n) (i : Fin n) : WholeLines L.lineOf (L.cells i) := by
  obtain ⟨first,hfirst⟩ := L.base_aligned i
  obtain ⟨count,hcount⟩ := L.length_aligned
  have hcells : ∀ a, a ∈ L.cells i ↔ first ≤ L.lineOf a ∧ L.lineOf a < first + count := by
    intro a
    rw [cells,Set.mem_ofPred_eq,hfirst,hcount,← mul_add,lineOf,Int.le_ediv_iff_mul_le L.lineSize_pos,
      Int.ediv_lt_iff_lt_mul L.lineSize_pos,mul_comm first,mul_comm (first + count)]
  intro a b hline ha
  rw [hcells] at ha ⊢
  rwa [← hline]

theorem cells_apart (hi : a ∈ L.cells i) (hj : a ∈ L.cells j) : i = j := by
  by_contra hne
  obtain ⟨hlow,hhigh⟩ := hi
  obtain ⟨hlow',hhigh'⟩ := hj
  rcases L.apart i j hne with h | h <;> omega

theorem hasLine_iff (L : FrameLayout n) (i : Fin n) (a : Int) : L.hasLine i (L.lineOf a) = true ↔ a ∈ L.cells i := by
  have hstart : L.lineOf (L.lineOf a * L.lineSize) = L.lineOf a :=
    Int.mul_ediv_cancel _ L.lineSize_pos.ne'
  rw [hasLine,decide_eq_true_iff]
  constructor
  · exact L.cells_whole i _ _ hstart
  · exact L.cells_whole i _ _ hstart.symm

theorem hasLine_other (hne : i ≠ j) : ∀ a ∈ L.cells i, L.hasLine j (L.lineOf a) = false := by
  intro a ha
  apply Bool.eq_false_iff.mpr
  intro hline
  exact hne (cells_apart ha ((L.hasLine_iff j a).mp hline))

/-- The lines invalidated for a buffer are all of its own and none of another's. -/
structure Invalidates (L : FrameLayout n) (lines : Fin n → Int → Bool) : Prop where
  covers : ∀ i, ∀ a ∈ L.cells i, lines i (L.lineOf a) = true
  spares : ∀ i j, i ≠ j → ∀ a ∈ L.cells i, lines j (L.lineOf a) = false

theorem hasLine_invalidates (L : FrameLayout n) : L.Invalidates L.hasLine where
  covers i a ha := (L.hasLine_iff i a).mpr ha
  spares _ _ hne := hasLine_other hne

theorem mem_msyncLines {addr size : Int} (hlow : addr ≤ a) (hhigh : a < addr + size) :
    L.lineOf a ∈ L.msyncLines addr size := by
  have hfirst : L.lineOf addr ≤ L.lineOf a := Int.ediv_le_ediv L.lineSize_pos hlow
  have hlast : L.lineOf a ≤ L.lineOf (addr + size - 1) := Int.ediv_le_ediv L.lineSize_pos (by omega)
  refine List.mem_map.mpr ⟨(L.lineOf a - L.lineOf addr).toNat,List.mem_range.mpr (by omega),?_⟩
  omega

end FrameLayout

/-- The lines that `esp_cache_msync` writes back for an address and a size, and those that the driver
of the camera takes out of the cache when the frame in a buffer is complete. -/
structure FrameDrivers (n : Nat) where
  msync : Int → Int → List Int
  invalidate : Fin n → Int → Bool

/-- What ESP-IDF documents of them. -/
structure FrameDrivers.Documented (drivers : FrameDrivers n) (L : FrameLayout n) : Prop where
  msync : ∀ addr size a, addr ≤ a → a < addr + size → L.lineOf a ∈ drivers.msync addr size
  invalidate : L.Invalidates drivers.invalidate

/-- What is left of `overlay_boxes`: stores of the rasteriser, then lines to write back. -/
structure OverlayRun where
  stores : List (Int × UInt8)
  lines : List Int
  deriving DecidableEq

def FrameLayout.overlayRun (L : FrameLayout n) (drivers : FrameDrivers n) (i : Fin n)
    (drawn : Frame × List (Int × Int)) : OverlayRun where
  stores := drawn.1.stores.map fun s => (L.base i + s.1,s.2)
  lines := drawn.2.flatMap fun region => drivers.msync (L.base i + region.1) region.2

/-- The video tasks on the memory of their frames. `plain` is what the memory would hold without a
cache, and `captured` what the sensor had written to a buffer when its frame was complete. -/
structure FrameMemory (n m : Nat) where
  tasks : VideoTasks n m
  cache : WriteBack Int Int UInt8
  arrived : Fin n → Bool
  overlay : Option OverlayRun
  boxes : List DetBox
  plain : Int → UInt8
  captured : Fin n → Int → UInt8

inductive FrameMemoryEvent (n m : Nat) where
  | task (event : VideoEvent n m)
  | sensor (i : Fin n) (o : Int) (b : UInt8)
  /-- The driver is done with a complete frame, which can then be dequeued. -/
  | arrive (i : Fin n)
  | draw (boxes : List DetBox) (dirty : OsdDirty)
  | overlayStep
  | cache (op : CacheOp Int)
  /-- Other tasks and other DMA, on memory of their own. -/
  | otherStore (a : Int) (b : UInt8)
  | otherDma (a : Int) (b : UInt8)

namespace FrameMemory

def start (m width height : Nat) (cache : WriteBack Int Int UInt8) : FrameMemory n m where
  tasks := VideoTasks.start n m width height
  cache := cache
  arrived := fun _ => false
  overlay := none
  boxes := []
  plain := cache.mem
  captured := fun _ _ => 0

/-- A complete frame is what can be dequeued, and `overlay_boxes` is over when nothing is left of it. -/
def ready (s : FrameMemory n m) : VideoEvent n m → Prop
  | .dqbuf (some frame) => s.arrived frame.index = true
  | .overlay => s.overlay = some ⟨[],[]⟩
  | _ => True

instance (s : FrameMemory n m) (event : VideoEvent n m) : Decidable (s.ready event) := by
  unfold ready
  split <;> infer_instance

/-- The sensor's DMA may still be writing to the buffer. -/
def filling (s : FrameMemory n m) (i : Fin n) : Bool := s.tasks.cap.driver.any (· == i) && !s.arrived i

/-- The buffer that goes back to the driver. -/
def requeued (s : FrameMemory n m) : VideoEvent n m → Option (Fin n)
  | .captureRelease => s.tasks.capture.releasing
  | .encodeRelease => s.tasks.encode.releasing
  | _ => none

def overlayAfter (s : FrameMemory n m) : VideoEvent n m → Option OverlayRun
  | .overlay => none
  | _ => s.overlay

def afterTask (s : FrameMemory n m) (event : VideoEvent n m) (tasks : VideoTasks n m) : FrameMemory n m :=
  { s with
    tasks := tasks
    arrived := fun i => s.arrived i && s.requeued event != some i
    overlay := s.overlayAfter event }

end FrameMemory

def frameMemoryStep (L : FrameLayout n) (drivers : FrameDrivers n) (width height scaleX scaleY : Int)
    (s : FrameMemory n m) : FrameMemoryEvent n m → Option (FrameMemory n m)
  | .task event =>
    if s.ready event then (videoStep s.tasks event).map (s.afterTask event) else none
  | .sensor i o b =>
    if s.filling i = true ∧ 0 ≤ o ∧ o < L.length then
      some { s with
        cache := s.cache.dma (L.base i + o) b
        plain := Function.update s.plain (L.base i + o) b }
    else none
  | .arrive i =>
    if s.filling i then
      some { s with
        cache := s.cache.drop (drivers.invalidate i)
        arrived := Function.update s.arrived i true
        captured := Function.update s.captured i fun o => s.plain (L.base i + o) }
    else none
  | .draw boxes dirty =>
    match s.tasks.encode with
    | .overlay frame =>
      if s.overlay = none ∧ boxes.length ≤ detMaxBox then
        -- the rasteriser does not read the frame, so its stores are those to an empty one
        (overlayBoxes s.tasks.cap width height scaleX scaleY boxes ⟨fun _ => 0,[]⟩ dirty).map fun drawn =>
          { s with overlay := some (L.overlayRun drivers frame.index drawn), boxes := boxes }
      else none
    | _ => none
  | .overlayStep =>
    match s.overlay with
    | some ⟨(a,b) :: stores,lines⟩ =>
      some { s with
        cache := s.cache.store L.lineOf a b
        overlay := some ⟨stores,lines⟩
        plain := Function.update s.plain a b }
    | some ⟨[],k :: lines⟩ =>
      some { s with cache := s.cache.clean L.lineOf k, overlay := some ⟨[],lines⟩ }
    | _ => none
  | .cache op => some { s with cache := s.cache.move L.lineOf op }
  | .otherStore a b =>
    if ∀ i, a ∉ L.cells i then
      some { s with cache := s.cache.store L.lineOf a b, plain := Function.update s.plain a b }
    else none
  | .otherDma a b =>
    if ∀ i, a ∉ L.cells i then
      some { s with cache := s.cache.dma a b, plain := Function.update s.plain a b }
    else none

section Overlay

variable {width height : Int} {boxes : List DetBox}

/-- What `overlay_boxes` stores stays inside the frame and is in a row that it publishes. -/
theorem overlayBoxes_spec (scaleX scaleY : Int) (cap : Vcap n) (heven : width % 2 = 0) (hheight : (cap.height : Int) = height)
    (hstride : (cap.stride : Int) = width + width / 2) (hboxes : boxes.length ≤ detMaxBox) (dirty : OsdDirty) :
    ∃ drawn, overlayBoxes cap width height scaleX scaleY boxes ⟨fun _ => 0,[]⟩ dirty = some drawn ∧
      (∀ frame, ((⟨frame,[]⟩ : Frame).replay drawn.1.stores).cell =
        markedFrame width height scaleX scaleY boxes frame) ∧
      ∀ s ∈ drawn.1.stores, (0 ≤ s.1 ∧ s.1 < height * (width + width / 2)) ∧ ∃ region ∈ drawn.2, InRegion region s.1 := by
  obtain ⟨buf',dirty',hcall,hdraws,hholds⟩ :=
    osdDrawBoxes_spec heven height scaleX scaleY boxes ⟨fun _ => 0,[]⟩ dirty
  have hrows := boxBands_dirtyRows heven hboxes hdraws
  have hpublish := publishRanges_eq cap (by rw [hheight]; exact hrows.inside) dirty'.count 0
    hholds.entries (by rw [hholds.count,zero_add]) hholds.count.ge
  refine ⟨(buf',(boxBands width height scaleX scaleY boxes []).map (rowRegion cap.stride)),?_,stores_mark heven hcall,?_⟩
  · rw [overlayBoxes,hcall,Option.bind_some]
    dsimp only
    rw [hpublish]
    rfl
  · intro s hs
    obtain ⟨o,ho,rfl⟩ := List.mem_map.mp hs
    have hstored : o ∈ buf'.stored := List.mem_reverse.mp ho
    have hpos : 0 < width + width / 2 := by
      obtain ⟨p,⟨_,_,hmark⟩,_⟩ | hold := (hdraws.stored o).mp hstored
      · have := (mark_inside hmark).1
        omega
      · exact absurd hold List.not_mem_nil
    obtain ⟨r,hr,hrow⟩ := (hrows.written (o / (width + width / 2))).mpr ⟨o,hstored,(rowBytes_iff hpos).mpr rfl⟩
    obtain ⟨hfirst,_,hlast⟩ := hrows.inside r hr
    have hend : o / (width + width / 2) < height := by
      have := hrow.2
      omega
    refine ⟨⟨?_,(Int.ediv_lt_iff_lt_mul hpos).mp hend⟩,rowRegion cap.stride r,List.mem_map_of_mem hr,?_⟩
    · exact (Int.ediv_nonneg_iff_of_pos hpos).mp (hfirst.trans hrow.1)
    · rw [hstride]
      exact (inRegion_iff hpos r o).mpr hrow

end Overlay

/-- Where a capture buffer is on its way round. -/
inductive FramePhase where
  | filling
  | captured
  | drawing (run : OverlayRun)
  | marked

/-- What `video_encode_task` has done to the buffer `i`. -/
def EncodePoint.phaseOf (point : EncodePoint n m) (overlay : Option OverlayRun) (i : Fin n) : FramePhase :=
  match point with
  | .overlay frame => if frame.index = i then overlay.elim .captured .drawing else .captured
  | .encode frame => if frame.index = i then .marked else .captured
  | .release frame _ => if frame.index = i then .marked else .captured
  | _ => .captured

namespace FrameMemory

def phase (s : FrameMemory n m) (i : Fin n) : FramePhase :=
  if s.filling i then .filling else s.tasks.encode.phaseOf s.overlay i

theorem filling_iff (s : FrameMemory n m) (i : Fin n) :
    s.filling i = true ↔ i ∈ s.tasks.cap.driver ∧ s.arrived i = false := by simp [filling]

theorem phase_of_filling {s : FrameMemory n m} {i : Fin n} (hdriver : i ∈ s.tasks.cap.driver)
    (harrived : s.arrived i = false) : s.phase i = .filling := if_pos ((filling_iff s i).mpr ⟨hdriver,harrived⟩)

section Holds

variable (L : FrameLayout n) (width height scaleX scaleY : Int)

/-- What the memory and the cache hold of a buffer in each phase. -/
def Holds (s : FrameMemory n m) (i : Fin n) : FramePhase → Prop
  | .filling => Untouched L.lineOf s.cache (L.cells i) s.plain
  | .captured => Tracks L.lineOf s.cache (L.cells i) s.plain ∅ ∧
      ∀ o, L.base i + o ∈ L.cells i → s.plain (L.base i + o) = s.captured i o
  | .drawing run => Tracks L.lineOf s.cache (L.cells i) s.plain {k | k ∈ run.lines} ∧
      (∀ st ∈ run.stores, st.1 ∈ L.cells i ∧ L.lineOf st.1 ∈ run.lines) ∧
      ∀ o, L.base i + o ∈ L.cells i → ((⟨s.plain,[]⟩ : Frame).replay run.stores).cell (L.base i + o) =
        markedFrame width height scaleX scaleY s.boxes (s.captured i) o
  | .marked => Tracks L.lineOf s.cache (L.cells i) s.plain ∅ ∧
      ∀ o, L.base i + o ∈ L.cells i → s.plain (L.base i + o) =
        markedFrame width height scaleX scaleY s.boxes (s.captured i) o

structure Inv (s : FrameMemory n m) : Prop where
  tasks : s.tasks.Inv
  capHeight : (s.tasks.cap.height : Int) = height
  capStride : (s.tasks.cap.stride : Int) = width + width / 2
  overlay : s.overlay = none ∨ ∃ frame, s.tasks.encode = .overlay frame
  frames : ∀ i, Holds L width height scaleX scaleY s i (s.phase i)

end Holds

section Steps

variable {L : FrameLayout n} {drivers : FrameDrivers n} {width height scaleX scaleY : Int}
  {s t : FrameMemory n m} {i : Fin n} {ph : FramePhase}

theorem Holds.carry (h : Holds L width height scaleX scaleY s i ph)
    (htracks : ∀ D, Tracks L.lineOf s.cache (L.cells i) s.plain D →
      Tracks L.lineOf t.cache (L.cells i) t.plain D)
    (huntouched : Untouched L.lineOf s.cache (L.cells i) s.plain →
      Untouched L.lineOf t.cache (L.cells i) t.plain)
    (hplain : ∀ a ∈ L.cells i, t.plain a = s.plain a) (hcaptured : t.captured i = s.captured i)
    (hboxes : t.boxes = s.boxes) : Holds L width height scaleX scaleY t i ph := by
  cases ph with
  | filling => exact huntouched h
  | captured =>
    refine ⟨htracks _ h.1,?_⟩
    intro o ho
    rw [hplain _ ho,hcaptured]
    exact h.2 o ho
  | drawing run =>
    refine ⟨htracks _ h.1,h.2.1,?_⟩
    intro o ho
    rw [Canvas.replay_cell_congr (d := ⟨s.plain,[]⟩) (hplain _ ho),hcaptured,hboxes]
    exact h.2.2 o ho
  | marked =>
    refine ⟨htracks _ h.1,?_⟩
    intro o ho
    rw [hplain _ ho,hcaptured,hboxes]
    exact h.2 o ho

/-- What a step of the tasks can do to a buffer. -/
inductive Moves : FramePhase → FramePhase → Prop
  | stays (ph : FramePhase) : Moves ph ph
  | finished : Moves (.drawing ⟨[],[]⟩) .marked
  | returned : Moves .captured .filling
  | encoded : Moves .marked .filling

theorem phase_congr (hdriver : (i ∈ t.tasks.cap.driver ∧ t.arrived i = false) ↔
      (i ∈ s.tasks.cap.driver ∧ s.arrived i = false))
    (hpoint : t.tasks.encode.phaseOf t.overlay i = s.tasks.encode.phaseOf s.overlay i) :
    t.phase i = s.phase i := by
  unfold phase
  simp only [filling_iff,hdriver,hpoint]

theorem not_driver_of_held (hs : s.tasks.Inv) (h : i ∈ s.tasks.capture.held ∨ i ∈ s.tasks.encode.held) :
    i ∉ s.tasks.cap.driver := by
  intro hd
  have hcount := hs.count i
  have hdriver := List.count_pos_iff.mpr hd
  rcases h with h | h <;> have hheld := List.count_pos_iff.mpr h <;> omega

theorem not_encode_of_capture (hs : s.tasks.Inv) (h : i ∈ s.tasks.capture.held) :
    i ∉ s.tasks.encode.held := by
  intro he
  have hcount := hs.count i
  have hcapture := List.count_pos_iff.mpr h
  have hencode := List.count_pos_iff.mpr he
  omega

theorem Moves.of_congr (hdriver : (i ∈ t.tasks.cap.driver ∧ t.arrived i = false) ↔
      (i ∈ s.tasks.cap.driver ∧ s.arrived i = false))
    (hpoint : t.tasks.encode.phaseOf t.overlay i = s.tasks.encode.phaseOf s.overlay i) :
    Moves (s.phase i) (t.phase i) := phase_congr hdriver hpoint ▸ .stays _

theorem Moves.to_filling (hphase : s.phase i = .captured ∨ s.phase i = .marked)
    (hdriver : i ∈ t.tasks.cap.driver) (harrived : t.arrived i = false) : Moves (s.phase i) (t.phase i) := by
  rw [phase_of_filling hdriver harrived]
  rcases hphase with hphase | hphase <;> rw [hphase]
  · exact .returned
  · exact .encoded

theorem Moves.to_marked (hdriver : i ∉ t.tasks.cap.driver)
    (hpoint : t.tasks.encode.phaseOf t.overlay i = .marked) : Moves (.drawing ⟨[],[]⟩) (t.phase i) := by
  have hmarked : t.phase i = .marked :=
    (if_neg fun hfilling => hdriver ((filling_iff t i).mp hfilling).1).trans hpoint
  rw [hmarked]
  exact .finished

theorem phaseOf_of_not_held {point : EncodePoint n m} {overlay : Option OverlayRun} (h : i ∉ point.held) :
    point.phaseOf overlay i = .captured := by
  have hother : ∀ frame : VcapFrame n, i ∉ [frame.index] → frame.index ≠ i := by
    intro frame hnot hi
    exact hnot (hi ▸ List.mem_singleton_self _)
  cases point with
  | overlay frame => exact if_neg (hother frame h)
  | encode frame => exact if_neg (hother frame h)
  | release frame encoded => exact if_neg (hother frame h)
  | _ => rfl

theorem phase_of_held (hs : s.tasks.Inv) (h : i ∈ s.tasks.capture.held ∨ i ∈ s.tasks.encode.held) :
    s.phase i = s.tasks.encode.phaseOf s.overlay i :=
  if_neg fun hfilling => not_driver_of_held hs h ((filling_iff s i).mp hfilling).1

/-- What the encode task is doing says what it has done to the buffer it holds. -/
theorem phase_of_encode (hs : s.tasks.Inv) {point : EncodePoint n m} (he : s.tasks.encode = point)
    (h : i ∈ point.held) : s.phase i = point.phaseOf s.overlay i := by
  subst point
  exact phase_of_held hs (.inr h)

theorem task_moves (hs : Inv L width height scaleX scaleY s) {event : VideoEvent n m} {tasks : VideoTasks n m}
    (hready : s.ready event) (h : VideoEffect s.tasks event tasks) (i : Fin n) :
    Moves (s.phase i) ((s.afterTask event tasks).phase i) := by
  cases h with
  | acquired frame hc hd =>
    refine Moves.of_congr ?_ rfl
    by_cases hi : i = frame.index
    · have harrived : s.arrived i = true := hi ▸ hready
      simp [afterTask,requeued,harrived]
    · simp [afterTask,requeued,List.mem_erase_of_ne hi]
  | captureReleased frame hc =>
    have hrequeued : s.requeued .captureRelease = some frame.index := by
      rw [requeued,hc]
      rfl
    by_cases hi : i = frame.index
    · subst i
      have hheld : frame.index ∈ s.tasks.capture.held := by
        rw [hc]
        exact List.mem_singleton_self _
      have hphase : s.phase frame.index = .captured := by
        rw [phase_of_held hs.tasks (.inl hheld),phaseOf_of_not_held (not_encode_of_capture hs.tasks hheld)]
      exact Moves.to_filling (.inl hphase) List.mem_cons_self (by simp [afterTask,hrequeued])
    · refine Moves.of_congr ?_ rfl
      simp [afterTask,hrequeued,hi,Ne.symm hi]
  | received frame rest stats he hq =>
    refine Moves.of_congr (by simp [afterTask,requeued]) ?_
    rw [he]
    rfl
  | keyframe frame requested granted he =>
    refine Moves.of_congr (by simp [afterTask,requeued]) ?_
    rw [he]
    rfl
  | fed frame outcome he =>
    refine Moves.of_congr (by simp [afterTask,requeued]) ?_
    have hnone : s.overlay = none := by
      rcases hs.overlay with hnone | ⟨frame',he'⟩
      · exact hnone
      · exact absurd (he.symm.trans he') nofun
    rw [he,hnone]
    change EncodePoint.phaseOf (.overlay frame) s.overlay i = FramePhase.captured
    rw [hnone]
    exact ite_self _
  | overlaid frame he =>
    by_cases hi : frame.index = i
    · have hheld : i ∈ s.tasks.encode.held := by
        rw [he,← hi]
        exact List.mem_singleton_self _
      have hoverlay : s.overlay = some ⟨[],[]⟩ := hready
      have hdrawing : s.phase i = .drawing ⟨[],[]⟩ := by
        rw [phase_of_held hs.tasks (.inr hheld),he,hoverlay]
        exact if_pos hi
      have hdriver : i ∉ s.tasks.cap.driver := not_driver_of_held hs.tasks (.inr hheld)
      rw [hdrawing]
      exact Moves.to_marked hdriver (if_pos hi)
    · refine Moves.of_congr (by simp [afterTask,requeued]) ?_
      rw [he]
      exact (if_neg hi).trans (if_neg hi).symm
  | encoded frame io he =>
    refine Moves.of_congr (by simp [afterTask,requeued]) ?_
    rw [he]
    rfl
  | encodeReleased frame encoded stats he =>
    have hrequeued : s.requeued .encodeRelease = some frame.index := by
      rw [requeued,he]
      rfl
    by_cases hi : i = frame.index
    · subst i
      have hphase : s.phase frame.index = .marked := by
        rw [phase_of_encode hs.tasks he (List.mem_singleton_self _)]
        exact if_pos rfl
      exact Moves.to_filling (.inr hphase) List.mem_cons_self (by simp [afterTask,hrequeued])
    · refine Moves.of_congr ?_ ?_
      · simp [afterTask,hrequeued,hi,Ne.symm hi]
      · rw [he,EncodePoint.phaseOf,if_neg (Ne.symm hi)]
        cases encoded <;> rfl
  | sent frame bits sent stats he =>
    refine Moves.of_congr (by simp [afterTask,requeued]) ?_
    rw [he]
    rfl
  | bitsReleased bits he =>
    refine Moves.of_congr (by simp [afterTask,requeued]) ?_
    rw [he]
    rfl
  | _ => exact Moves.of_congr (by simp [afterTask,requeued]) rfl

theorem Holds.same (h : Holds L width height scaleX scaleY t i (s.phase i)) (hphase : t.phase i = s.phase i) :
    Holds L width height scaleX scaleY t i (t.phase i) := hphase ▸ h

theorem Holds.arrived (h : Holds L width height scaleX scaleY t i .captured) (hnot : i ∉ t.tasks.encode.held)
    (harrived : t.arrived i = true) : Holds L width height scaleX scaleY t i (t.phase i) := by
  have hphase : t.phase i = .captured := by
    rw [phase,if_neg (by simp [filling_iff,harrived]),phaseOf_of_not_held hnot]
  rw [hphase]
  exact h

theorem Holds.move (h : Holds L width height scaleX scaleY s i ph) {ph' : FramePhase} (hmoves : Moves ph ph') :
    Holds L width height scaleX scaleY s i ph' := by
  cases hmoves with
  | stays => exact h
  | finished =>
    refine ⟨h.1.mono ?_,h.2.2⟩
    intro k hk
    exact absurd hk List.not_mem_nil
  | returned => exact h.1.untouched
  | encoded => exact h.1.untouched

theorem inv_task (hs : Inv L width height scaleX scaleY s) {event : VideoEvent n m} {tasks : VideoTasks n m}
    (hready : s.ready event) (hstep : videoStep s.tasks event = some tasks) :
    Inv L width height scaleX scaleY (s.afterTask event tasks) := by
  have heffect := videoStep_effect hstep
  have hcap : tasks.cap.height = s.tasks.cap.height ∧ tasks.cap.stride = s.tasks.cap.stride := by
    cases heffect <;> exact ⟨rfl,rfl⟩
  refine ⟨VideoTasks.Inv.step _ _ _ hs.tasks hstep,?_,?_,?_,?_⟩
  · exact (congrArg _ hcap.1).trans hs.capHeight
  · exact (congrArg _ hcap.2).trans hs.capStride
  · rcases hs.overlay with hnone | ⟨frame,he⟩
    · apply Or.inl
      cases event with
      | overlay => rfl
      | _ => exact hnone
    · cases heffect with
      | overlaid => exact .inl rfl
      | received _ _ _ he' => exact absurd (he.symm.trans he') nofun
      | keyframe _ _ _ he' => exact absurd (he.symm.trans he') nofun
      | fed _ _ he' => exact absurd (he.symm.trans he') nofun
      | encoded _ _ he' => exact absurd (he.symm.trans he') nofun
      | encodeReleased _ _ _ he' => exact absurd (he.symm.trans he') nofun
      | sent _ _ _ _ he' => exact absurd (he.symm.trans he') nofun
      | bitsReleased _ he' => exact absurd (he.symm.trans he') nofun
      | _ => exact .inr ⟨frame,he⟩
  · intro i
    have hmoved := (hs.frames i).move (task_moves hs hready heffect i)
    cases hphase : (s.afterTask event tasks).phase i <;> exact hphase ▸ hmoved

theorem inv_carry (hs : Inv L width height scaleX scaleY s) {cache : WriteBack Int Int UInt8}
    {plain : Int → UInt8}
    (htracks : ∀ i D, Tracks L.lineOf s.cache (L.cells i) s.plain D → Tracks L.lineOf cache (L.cells i) plain D)
    (huntouched : ∀ i, Untouched L.lineOf s.cache (L.cells i) s.plain →
      Untouched L.lineOf cache (L.cells i) plain)
    (hplain : ∀ i, ∀ a ∈ L.cells i, plain a = s.plain a) :
    Inv L width height scaleX scaleY { s with cache := cache, plain := plain } where
  tasks := hs.tasks
  capHeight := hs.capHeight
  capStride := hs.capStride
  overlay := hs.overlay
  frames i := (hs.frames i).carry (htracks i) (huntouched i) (hplain i) rfl rfl

theorem inv_sensor (hs : Inv L width height scaleX scaleY s) {o : Int} (b : UInt8)
    (hdriver : i ∈ s.tasks.cap.driver) (harrived : s.arrived i = false) (ho : L.base i + o ∈ L.cells i) :
    Inv L width height scaleX scaleY { s with
      cache := s.cache.dma (L.base i + o) b
      plain := Function.update s.plain (L.base i + o) b } := by
  refine ⟨hs.tasks,hs.capHeight,hs.capStride,hs.overlay,?_⟩
  intro j
  by_cases hj : j = i
  · subst j
    have hphase : s.phase i = .filling := phase_of_filling hdriver harrived
    have hholds := hs.frames i
    rw [hphase] at hholds
    change Holds L width height scaleX scaleY _ i (s.phase i)
    rw [hphase]
    exact Untouched.dma hholds _ b
  · have hother : L.base i + o ∉ L.cells j := fun h => hj (FrameLayout.cells_apart h ho)
    exact (hs.frames j).carry (fun D h => h.dma_other hother) (fun h => h.dma_other hother)
      (update_other _ _ hother) rfl rfl

theorem inv_arrive (hdoc : drivers.Documented L) (hs : Inv L width height scaleX scaleY s)
    (hdriver : i ∈ s.tasks.cap.driver) (harrived : s.arrived i = false) :
    Inv L width height scaleX scaleY { s with
      cache := s.cache.drop (drivers.invalidate i)
      arrived := Function.update s.arrived i true
      captured := Function.update s.captured i fun o => s.plain (L.base i + o) } := by
  refine ⟨hs.tasks,hs.capHeight,hs.capStride,hs.overlay,?_⟩
  intro j
  by_cases hj : j = i
  · subst j
    have hphase : s.phase i = .filling := phase_of_filling hdriver harrived
    have hholds := hs.frames i
    rw [hphase] at hholds
    have hnot : i ∉ s.tasks.encode.held := fun h => not_driver_of_held hs.tasks (.inr h) hdriver
    refine Holds.arrived ?_ hnot (by simp)
    refine ⟨Untouched.drop hholds (hdoc.invalidate.covers i),?_⟩
    intro o _
    simp
  · have hother := drop_line_other (c := s.cache) (hdoc.invalidate.spares j i hj)
    refine Holds.same (s := s) ?_ (phase_congr (by simp [Function.update_of_ne hj]) rfl)
    exact (hs.frames j).carry (fun D h => h.congr hother (fun _ _ => rfl) (fun _ _ => rfl))
      (fun h => h.congr hother (fun _ _ => rfl) (fun _ _ => rfl)) (fun _ _ => rfl)
      (Function.update_of_ne hj _ _) rfl

theorem phase_of_ne {frame : VcapFrame n} (he : s.tasks.encode = .overlay frame) (hi : i ≠ frame.index) :
    s.phase i = .filling ∨ s.phase i = .captured := by
  unfold phase
  split
  · exact .inl rfl
  · apply Or.inr
    rw [he]
    exact if_neg (Ne.symm hi)

theorem phase_of_overlay (hs : s.tasks.Inv) {frame : VcapFrame n} (he : s.tasks.encode = .overlay frame) :
    s.phase frame.index = s.overlay.elim .captured .drawing := by
  rw [phase_of_encode hs he (List.mem_singleton_self _)]
  exact if_pos rfl

theorem Holds.drawing {frame : VcapFrame n} {run : OverlayRun}
    (h : Holds L width height scaleX scaleY t frame.index (.drawing run)) (hs : t.tasks.Inv)
    (he : t.tasks.encode = .overlay frame) (hrun : t.overlay = some run) :
    Holds L width height scaleX scaleY t frame.index (t.phase frame.index) := by
  rw [phase_of_overlay hs he,hrun]
  exact h

theorem phase_other {frame : VcapFrame n} (he : s.tasks.encode = .overlay frame) (hi : i ≠ frame.index)
    (htasks : t.tasks = s.tasks) (harrived : t.arrived = s.arrived) : t.phase i = s.phase i := by
  apply phase_congr
  · rw [htasks,harrived]
  · rw [htasks,he]
    exact (if_neg (Ne.symm hi)).trans (if_neg (Ne.symm hi)).symm

theorem inv_draw (hdoc : drivers.Documented L) (hs : Inv L width height scaleX scaleY s)
    (heven : width % 2 = 0)
    (hlength : height * (width + width / 2) ≤ L.length) {frame : VcapFrame n}
    (he : s.tasks.encode = .overlay frame) (hnone : s.overlay = none) {boxes : List DetBox}
    (hboxes : boxes.length ≤ detMaxBox) {dirty : OsdDirty} {drawn : Frame × List (Int × Int)}
    (hdrawn : overlayBoxes s.tasks.cap width height scaleX scaleY boxes ⟨fun _ => 0,[]⟩ dirty = some drawn) :
    Inv L width height scaleX scaleY
      { s with overlay := some (L.overlayRun drivers frame.index drawn), boxes := boxes } := by
  refine ⟨hs.tasks,hs.capHeight,hs.capStride,.inr ⟨frame,he⟩,?_⟩
  intro i
  by_cases hi : i = frame.index
  · subst i
    have hbefore := hs.frames frame.index
    rw [phase_of_overlay hs.tasks he,hnone] at hbefore
    obtain ⟨htracks,hcaptured⟩ := hbefore
    obtain ⟨drawn',hdrawn',hmarked,hstores⟩ := overlayBoxes_spec scaleX scaleY s.tasks.cap heven
      hs.capHeight hs.capStride hboxes dirty
    obtain rfl := Option.some.inj (hdrawn.symm.trans hdrawn')
    refine Holds.drawing ?_ hs.tasks he rfl
    refine ⟨htracks.mono (Set.empty_subset _),?_,?_⟩
    · intro st hst
      obtain ⟨w,hw,rfl⟩ := List.mem_map.mp hst
      obtain ⟨⟨hlow,hhigh⟩,region,hregion,hin⟩ := hstores w hw
      refine ⟨⟨by dsimp only; omega,by dsimp only; omega⟩,List.mem_flatMap.mpr ⟨region,hregion,?_⟩⟩
      apply hdoc.msync
      · have := hin.1
        dsimp only
        omega
      · have := hin.2
        dsimp only
        omega
    · intro o ho
      have hshift : Function.Injective fun x : Int => L.base frame.index + x := add_right_injective _
      have hmoved := Canvas.replay_map_cell hshift s.plain drawn.1.stores o
      refine hmoved.trans ?_
      rw [Canvas.replay_cell_congr (d := ⟨s.captured frame.index,[]⟩) (hcaptured o ho)]
      exact congrFun (hmarked _) o
  · have hholds := hs.frames i
    refine Holds.same (s := s) ?_ (phase_other he hi rfl rfl)
    -- neither phase speaks of the boxes
    rcases phase_of_ne he hi with h | h <;> rw [h] at hholds ⊢ <;> exact hholds

theorem inv_overlayStep (hs : Inv L width height scaleX scaleY s)
    (h : frameMemoryStep L drivers width height scaleX scaleY s .overlayStep = some t) :
    Inv L width height scaleX scaleY t := by
  rw [frameMemoryStep] at h
  cases hoverlay : s.overlay with
  | none => simp [hoverlay] at h
  | some run =>
    obtain ⟨frame,he⟩ : ∃ frame, s.tasks.encode = .overlay frame := by
      rcases hs.overlay with hnone | hframe
      · exact absurd (hnone.symm.trans hoverlay) nofun
      · exact hframe
    have hbefore := hs.frames frame.index
    rw [phase_of_overlay hs.tasks he,hoverlay] at hbefore
    obtain ⟨htracks,hstores,hmarked⟩ := hbefore
    obtain ⟨_ | ⟨⟨a,b⟩,stores⟩,lines⟩ := run
    · cases lines with
      | nil => simp [hoverlay] at h
      | cons k lines =>
        simp only [hoverlay,Option.some.injEq] at h
        subst t
        refine ⟨hs.tasks,hs.capHeight,hs.capStride,.inr ⟨frame,he⟩,?_⟩
        intro j
        by_cases hj : j = frame.index
        · subst j
          refine Holds.drawing ?_ hs.tasks he rfl
          refine ⟨(htracks.clean k).mono ?_,fun st hst => absurd hst List.not_mem_nil,hmarked⟩
          intro x hx
          exact (List.mem_cons.mp hx.1).resolve_left hx.2
        · refine Holds.same (s := s) ?_ (phase_other he hj rfl rfl)
          exact (hs.frames j).carry (fun D h => h.move (.clean k)) (fun h => h.move (.clean k))
            (fun _ _ => rfl) rfl rfl
    · simp only [hoverlay,Option.some.injEq] at h
      subst t
      obtain ⟨ha,hline⟩ := hstores (a,b) List.mem_cons_self
      refine ⟨hs.tasks,hs.capHeight,hs.capStride,.inr ⟨frame,he⟩,?_⟩
      intro j
      by_cases hj : j = frame.index
      · subst j
        refine Holds.drawing ?_ hs.tasks he rfl
        refine ⟨htracks.store a b hline,fun st hst => hstores st (List.mem_cons_of_mem _ hst),?_⟩
        intro o ho
        rw [← hmarked o ho,Canvas.replay_cons]
        apply Canvas.replay_cell_congr
        rfl
      · have hother : a ∉ L.cells j := fun hin => hj (FrameLayout.cells_apart hin ha)
        refine Holds.same (s := s) ?_ (phase_other he hj rfl rfl)
        exact (hs.frames j).carry (fun D h => h.store_other (L.cells_whole j) hother)
          (fun h => h.store_other (L.cells_whole j) hother) (update_other _ _ hother) rfl rfl

theorem Inv.step (hdoc : drivers.Documented L) (heven : width % 2 = 0)
    (hlength : height * (width + width / 2) ≤ L.length) (s : FrameMemory n m)
    (event : FrameMemoryEvent n m) (t : FrameMemory n m) (hs : Inv L width height scaleX scaleY s)
    (h : frameMemoryStep L drivers width height scaleX scaleY s event = some t) :
    Inv L width height scaleX scaleY t := by
  cases event with
  | task event =>
    obtain ⟨hready,h⟩ := Option.ite_none_right_eq_some.mp h
    obtain ⟨tasks,htasks,rfl⟩ := Option.map_eq_some_iff.mp h
    exact inv_task hs hready htasks
  | sensor i o b =>
    obtain ⟨⟨hfilling,hlow,hhigh⟩,h⟩ := Option.ite_none_right_eq_some.mp h
    obtain ⟨hdriver,harrived⟩ := (filling_iff s i).mp hfilling
    obtain rfl := Option.some.inj h
    exact inv_sensor hs b hdriver harrived ⟨by omega,by omega⟩
  | arrive i =>
    obtain ⟨hfilling,h⟩ := Option.ite_none_right_eq_some.mp h
    obtain ⟨hdriver,harrived⟩ := (filling_iff s i).mp hfilling
    obtain rfl := Option.some.inj h
    exact inv_arrive hdoc hs hdriver harrived
  | draw boxes dirty =>
    rw [frameMemoryStep] at h
    cases he : s.tasks.encode with
    | overlay frame =>
      simp only [he] at h
      obtain ⟨⟨hnone,hboxes⟩,h⟩ := Option.ite_none_right_eq_some.mp h
      obtain ⟨drawn,hdrawn,rfl⟩ := Option.map_eq_some_iff.mp h
      exact inv_draw hdoc hs heven hlength he hnone hboxes hdrawn
    | _ => simp [he] at h
  | overlayStep => exact inv_overlayStep hs h
  | cache op =>
    obtain rfl := Option.some.inj h
    exact inv_carry hs (fun i D h => h.move op) (fun i h => h.move op) (fun _ _ _ => rfl)
  | otherStore a b =>
    obtain ⟨hother,h⟩ := Option.ite_none_right_eq_some.mp h
    obtain rfl := Option.some.inj h
    exact inv_carry hs (fun i D h => h.store_other (L.cells_whole i) (hother i))
      (fun i h => h.store_other (L.cells_whole i) (hother i)) fun i => update_other _ _ (hother i)
  | otherDma a b =>
    obtain ⟨hother,h⟩ := Option.ite_none_right_eq_some.mp h
    obtain rfl := Option.some.inj h
    exact inv_carry hs (fun i D h => h.dma_other (hother i)) (fun i h => h.dma_other (hother i))
      fun i => update_other _ _ (hother i)

end Steps

section Runs

variable {L : FrameLayout n} {drivers : FrameDrivers n} {scaleX scaleY : Int} {width height : Nat}

/-- No store to a buffer is left to be written back. -/
def Flushed (L : FrameLayout n) (cache : WriteBack Int Int UInt8) : Prop :=
  ∀ i, ∀ a ∈ L.cells i, ∀ l, cache.line (L.lineOf a) = some l → l.dirty = false

theorem Inv.start {cache : WriteBack Int Int UInt8} (hflushed : Flushed L cache) :
    Inv L width height scaleX scaleY (FrameMemory.start m width height cache) where
  tasks := VideoTasks.Inv.start width height
  capHeight := rfl
  capStride := by
    change ((width + width / 2 : Nat) : Int) = _
    push_cast
    rfl
  overlay := .inl rfl
  frames i := by
    have hphase : (FrameMemory.start m width height cache).phase i = .filling :=
      phase_of_filling (List.mem_finRange i) rfl
    rw [hphase]
    exact ⟨fun _ _ => rfl,hflushed i⟩

/-- The frame that the encoder is at work on, from the call of `hal_h264_encode` to its return. -/
def encoding (s : FrameMemory n m) : Option (VcapFrame n) :=
  match s.tasks.encode with
  | .encode frame => some frame
  | .release frame _ => some frame
  | _ => none

/-- The documented drivers on a cache with nothing left to write back to the buffers, whatever it does
from then on: during `hal_h264_encode` the memory has the frame as the sensor captured it, with the
marks of the boxes of this pass painted; when the PPA reads it the memory has it as captured; and what
the sensor writes to a buffer of the driver stays. -/
theorem dma_reads (hdoc : drivers.Documented L) (heven : width % 2 = 0)
    (hlength : ((height * (width + width / 2) : Nat) : Int) ≤ L.length)
    {cache : WriteBack Int Int UInt8} (hflushed : Flushed L cache)
    {es : List (FrameMemoryEvent n m)} {s : FrameMemory n m}
    (h : runEvents (frameMemoryStep L drivers width height scaleX scaleY) (start m width height cache) es =
      some s) :
    (∀ frame, s.encoding = some frame → ∀ o, 0 ≤ o → o < L.length →
      s.cache.mem (L.base frame.index + o) =
        markedFrame width height scaleX scaleY s.boxes (s.captured frame.index) o) ∧
    (∀ frame, s.tasks.encode = .feed frame → ∀ o, 0 ≤ o → o < L.length →
      s.cache.mem (L.base frame.index + o) = s.captured frame.index o) ∧
    ∀ i ∈ s.tasks.cap.driver, ∀ a ∈ L.cells i, s.cache.mem a = s.plain a := by
  have heven' : (width : Int) % 2 = 0 := by omega
  have hlength' : (height : Int) * (width + width / 2) ≤ L.length := by
    push_cast at hlength
    exact hlength
  have hs : Inv L width height scaleX scaleY s :=
    runEvents_invariant (Inv.step hdoc heven' hlength') (Inv.start hflushed) h
  have hcells : ∀ i o, 0 ≤ o → o < L.length → L.base i + o ∈ L.cells i :=
    fun i o hlow hhigh => ⟨by omega,by omega⟩
  refine ⟨?_,?_,?_⟩
  · intro frame hframe o hlow hhigh
    have hmarked : s.phase frame.index = .marked := by
      cases he : s.tasks.encode with
      | encode frame' =>
        obtain rfl := Option.some.inj ((by rw [encoding,he] : s.encoding = some frame').symm.trans hframe)
        rw [phase_of_encode hs.tasks he (List.mem_singleton_self _)]
        exact if_pos rfl
      | release frame' encoded =>
        obtain rfl := Option.some.inj ((by rw [encoding,he] : s.encoding = some frame').symm.trans hframe)
        rw [phase_of_encode hs.tasks he (List.mem_singleton_self _)]
        exact if_pos rfl
      | _ => simp [encoding,he] at hframe
    have hholds := hs.frames frame.index
    rw [hmarked] at hholds
    have hin := hcells frame.index o hlow hhigh
    exact (hholds.1.untouched.mem _ hin).trans (hholds.2 o hin)
  · intro frame he o hlow hhigh
    have hholds := hs.frames frame.index
    rw [phase_of_encode hs.tasks he (List.mem_singleton_self _)] at hholds
    have hin := hcells frame.index o hlow hhigh
    exact (hholds.1.untouched.mem _ hin).trans (hholds.2 o hin)
  · intro i hdriver a ha
    have hholds := hs.frames i
    have hnot : i ∉ s.tasks.encode.held := fun hheld => not_driver_of_held hs.tasks (.inr hheld) hdriver
    rw [phase,phaseOf_of_not_held hnot] at hholds
    by_cases hfilling : s.filling i = true
    · rw [if_pos hfilling] at hholds
      exact hholds.mem a ha
    · rw [if_neg hfilling] at hholds
      exact hholds.1.untouched.mem a ha

/-- Three buffers of 8 by 6 pixels on lines of 8 bytes. -/
def smallLayout : FrameLayout 3 where
  lineSize := 8
  base i := 72 * (i.val : Int)
  length := 72
  lineSize_pos := by decide
  base_aligned := by decide
  length_aligned := by decide
  apart := by decide

/-- Lines rounded outwards for `UNALIGNED`, and those of the buffer. -/
def smallDrivers : FrameDrivers 3 := ⟨smallLayout.msyncLines,smallLayout.hasLine⟩

theorem smallDrivers_documented : smallDrivers.Documented smallLayout where
  msync _ _ _ hlow hhigh := FrameLayout.mem_msyncLines hlow hhigh
  invalidate := smallLayout.hasLine_invalidates

/-- The first frame as far as the encoder, with a line that is evicted between the stores to it. -/
def oneMark : List (FrameMemoryEvent 3 2) :=
  [.sensor (Fin.last 2) 13 7,.cache (.fill 19),.sensor (Fin.last 2) 14 9,.arrive (Fin.last 2),
    .task (.dqbuf (some ⟨Fin.last 2,72,33333⟩)),.task .pace,.task .queueSend,.task .receive,
    .task (.keyframe false false),.task (.feedDetector .notItsTurn),.draw [⟨1,1,3,3,0⟩] ⟨0,fun _ => ⟨0,0⟩⟩,
    .overlayStep,.cache (.evict 19)] ++
    List.replicate 34 .overlayStep ++ [.task .overlay]

theorem dma_reads_oneMark : ∃ s : FrameMemory 3 2,
    runEvents (frameMemoryStep smallLayout smallDrivers (8 : Nat) (6 : Nat) 1 1)
      (start 2 8 6 ⟨fun _ => 0,fun _ => none⟩) oneMark = some s ∧
    s.tasks.encode = .encode ⟨Fin.last 2,72,33333⟩ ∧
    ∀ o, 0 ≤ o → o < 72 →
      s.cache.mem (144 + o) = markedFrame (8 : Nat) (6 : Nat) 1 1 s.boxes (s.captured (Fin.last 2)) o := by
  have hpoint : (runEvents (frameMemoryStep smallLayout smallDrivers (8 : Nat) (6 : Nat) 1 1)
      (start 2 8 6 ⟨fun _ => 0,fun _ => none⟩) oneMark).map (fun s => s.tasks.encode) =
      some (.encode ⟨Fin.last 2,72,33333⟩) := rfl
  obtain ⟨s,hs,he⟩ := Option.map_eq_some_iff.mp hpoint
  have hflushed : Flushed smallLayout ⟨fun _ => 0,fun _ => none⟩ := by
    intro i a _ l hl
    cases hl
  have hframe : s.encoding = some ⟨Fin.last 2,72,33333⟩ := by rw [encoding,he]
  exact ⟨s,hs,he,(dma_reads smallDrivers_documented (by decide) (by decide) hflushed hs).1 _ hframe⟩

end Runs

end FrameMemory

end Esp32Ipc
