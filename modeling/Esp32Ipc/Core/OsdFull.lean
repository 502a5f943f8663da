import Esp32Ipc.Core.OsdRows

/-!
# More boxes than the list of dirty rows was sized for

Once the list is full its last range is widened, which may leave it out of order and overlapping.
The scan and the merge were written for a sorted list; what they keep on any list is that a range
only ever gives way to a wider one.
-/

namespace Esp32Ipc

open Framework

def dirtyAdds : List OsdRows → OsdDirty → Option OsdDirty
  | [], d => some d
  | s :: added, d => (dirtyAdd d s.first s.last).bind (dirtyAdds added)

/-- The list keeps every row added and nothing outside them. -/
structure Recorded (added l : List OsdRows) : Prop where
  length_le : l.length ≤ osdMaxDirtyRanges
  ordered : ∀ r ∈ l, r.first ≤ r.last
  covered : ∀ y, Covers added y → Covers l y
  above : ∀ r ∈ l, ∃ s ∈ added, s.first ≤ r.first
  below : ∀ r ∈ l, ∃ s ∈ added, r.last ≤ s.last

section Runs

variable {added added' l : List OsdRows} {s : OsdRows} {d : OsdDirty}

theorem Recorded.nil : Recorded [] [] := ⟨by decide,by simp,by simp,by simp,by simp⟩

theorem Recorded.add (h : Recorded added l) (hs : s.first ≤ s.last) :
    Recorded (added ++ [s]) (addRows s l) where
  length_le := addRows_length h.length_le
  ordered := by
    apply addRows_forall _ hs h.ordered
    intro r s hr hs
    simp only [Span.join]
    omega
  covered := by
    intro y hy
    rw [covers_append,covers_cons,or_iff_left covers_nil] at hy
    exact addRows_keeps (hy.symm.imp_right (h.covered y))
  above := by
    apply addRows_forall
    · intro r t hr ht
      rcases min_choice r.first t.first with hmin | hmin
      · simpa [Span.join,hmin] using hr
      · simpa [Span.join,hmin] using ht
    · exact ⟨s,by simp,le_refl _⟩
    · intro r hr
      obtain ⟨t,ht,hle⟩ := h.above r hr
      exact ⟨t,List.mem_append_left _ ht,hle⟩
  below := by
    apply addRows_forall
    · intro r t hr ht
      rcases max_choice r.last t.last with hmax | hmax
      · simpa [Span.join,hmax] using hr
      · simpa [Span.join,hmax] using ht
    · exact ⟨s,by simp,le_refl _⟩
    · intro r hr
      obtain ⟨t,ht,hle⟩ := h.below r hr
      exact ⟨t,List.mem_append_left _ ht,hle⟩

theorem Recorded.adds (h : Recorded added l) (hadded : ∀ s ∈ added', s.first ≤ s.last) :
    Recorded (added ++ added') (added'.foldl (fun l s => addRows s l) l) := by
  induction added' generalizing added l with
  | nil => simpa using h
  | cons s added' ih =>
    have hstep := ih (h.add (hadded s List.mem_cons_self)) fun t ht =>
      hadded t (List.mem_cons_of_mem _ ht)
    rw [List.append_assoc] at hstep
    exact hstep

theorem dirtyAdds_holds (added : List OsdRows) (h : d.Holds l) :
    ∃ d', dirtyAdds added d = some d' ∧ d'.Holds (added.foldl (fun l s => addRows s l) l) := by
  induction added generalizing d l with
  | nil => exact ⟨d,rfl,h⟩
  | cons s added ih =>
    obtain ⟨d₁,hadd,h₁⟩ := dirtyAdd_holds s h
    obtain ⟨d',hadds,h'⟩ := ih h₁
    refine ⟨d',?_,h'⟩
    rw [dirtyAdds,hadd,Option.bind_some,hadds]

end Runs

section Boxes

variable {width height scaleX scaleY : Int}

def ClippedBox.bands (b : ClippedBox) : List OsdRows :=
  if b.Visible then [⟨b.cy1,b.cy1 + b.arm⟩,⟨b.cy2 - b.arm,b.cy2⟩] else []

def boxRows (width height scaleX scaleY : Int) (boxes : List DetBox) : List OsdRows :=
  boxes.flatMap fun box => (box.clipped width height scaleX scaleY).bands

theorem bands_ordered (b : ClippedBox) : ∀ s ∈ b.bands, s.first ≤ s.last := by
  rw [ClippedBox.bands]
  split
  next hv =>
    have harm := hv.2.2
    simp
    omega
  · simp

theorem covers_bands (b : ClippedBox) (y : Int) : Covers b.bands y ↔ b.Band y := by
  rw [ClippedBox.bands,ClippedBox.Band]
  split
  next hv => simp [hv]
  next hv => simp [hv]

theorem boxBands_foldl (boxes : List DetBox) (l : List OsdRows) :
    boxBands width height scaleX scaleY boxes l =
      (boxRows width height scaleX scaleY boxes).foldl (fun l s => addRows s l) l := by
  rw [boxBands,boxRows,List.foldl_flatMap]
  congr 1
  funext l box
  rw [ClippedBox.addBands,ClippedBox.bands]
  split <;> rfl

end Boxes

section Sorted

variable {l l' pre rest : List OsdRows} {r s : OsdRows} {d : OsdDirty}

/-- The list is still within the array, sorted with a row between neighbours, and has lost no row. -/
structure KeptSorted (s : OsdRows) (l l' : List OsdRows) : Prop where
  length_le : l'.length ≤ osdMaxDirtyRanges
  separated : Separated l'
  covers : ∀ y, s.Has y ∨ Covers l y → Covers l' y

/-- There is room for one more range, or the new one overlaps or abuts a range of the list, or at
most one range lies beyond it. -/
def HasPlace (s : OsdRows) (l : List OsdRows) : Prop :=
  l.length < osdMaxDirtyRanges ∨ (∃ r ∈ l, r.first ≤ s.last + 1 ∧ s.first ≤ r.last + 1) ∨
    l.countP (fun r => s.last + 1 < r.first) ≤ 1

theorem widenLast_separated_iff (hs : s.first ≤ s.last) (hl : Separated (pre ++ rest))
    (hpre : ∀ r ∈ pre, r.last + 1 < s.first) (hrest : ∀ r ∈ rest, s.last + 1 < r.first) :
    Separated (widenLast s (pre ++ rest)) ↔ rest.length ≤ 1 := by
  rcases List.eq_nil_or_concat' rest with rfl | ⟨rest,r,rfl⟩
  · refine iff_of_true ?_ (Nat.zero_le 1)
    rw [List.append_nil] at hl ⊢
    rcases List.eq_nil_or_concat' pre with rfl | ⟨pre,r,rfl⟩
    · exact Separated.nil
    · have hr := hpre r (by simp)
      obtain ⟨hinit,hlast,hgap⟩ := separated_append.mp hl
      have hne := hlast.nonempty r (by simp)
      rw [widenLast_concat]
      refine separated_append.mpr ⟨hinit,separated_cons.mpr ⟨?_,by simp,Separated.nil⟩,?_⟩
      · simp only [Span.join]
        omega
      · intro a ha b hb
        obtain rfl := List.mem_singleton.mp hb
        have hgap := hgap a ha r (by simp)
        simp only [Span.join]
        omega
  · have hr := hrest r (by simp)
    rw [← List.append_assoc] at hl ⊢
    obtain ⟨hinit,hlast,_⟩ := separated_append.mp hl
    have hne := hlast.nonempty r (by simp)
    rw [widenLast_concat,List.length_append,List.length_singleton]
    cases rest with
    | nil =>
      refine iff_of_true ?_ (le_refl 1)
      rw [List.append_nil] at hinit ⊢
      refine separated_append.mpr ⟨hinit,separated_cons.mpr ⟨?_,by simp,Separated.nil⟩,?_⟩
      · simp only [Span.join]
        omega
      · intro a ha b hb
        obtain rfl := List.mem_singleton.mp hb
        have hgap := hpre a ha
        simp only [Span.join]
        omega
    | cons q rest =>
      refine iff_of_false ?_ (by simp)
      intro hsep
      have hgap := (separated_append.mp hsep).2.2 q (by simp) (r.join s) (by simp)
      have hq := hrest q (by simp)
      have hqne := hinit.nonempty q (by simp)
      simp only [Span.join] at hgap
      omega

private theorem beyond_of_none (hl : Separated l)
    (h : (absorb s (l.dropWhile s.before)).2.length = (l.dropWhile s.before).length) :
    ∀ r ∈ l.dropWhile s.before, s.last + 1 < r.first := by
  have hsep : Separated (l.dropWhile s.before) := by
    rw [← List.takeWhile_append_dropWhile (p := s.before) (l := l)] at hl
    exact (separated_append.mp hl).2.1
  cases hcase : l.dropWhile s.before with
  | nil => simp
  | cons q rest =>
    rw [hcase] at h hsep
    obtain ⟨hq,hgap,_⟩ := separated_cons.mp hsep
    have hbeyond : s.last + 1 < q.first := by
      by_contra htouch
      have hle := absorb_length (q.join s) rest
      rw [absorb,if_pos (by omega),List.length_cons] at h
      omega
    intro r hr
    rcases List.mem_cons.mp hr with rfl | hr
    · exact hbeyond
    · have hnext := hgap r hr
      omega

private theorem touches_of_absorbed
    (h : (absorb s (l.dropWhile s.before)).2.length ≠ (l.dropWhile s.before).length) :
    ∃ r ∈ l, r.first ≤ s.last + 1 ∧ s.first ≤ r.last + 1 := by
  cases hcase : l.dropWhile s.before with
  | nil =>
    rw [hcase] at h
    exact absurd rfl h
  | cons q rest =>
    rw [hcase] at h
    have hne : l.dropWhile s.before ≠ [] := by simp [hcase]
    have hbefore : s.before q = false := by
      have hhead := List.head_dropWhile_not s.before hne
      simpa [hcase] using hhead
    refine ⟨q,(List.dropWhile_sublist _).subset (by rw [hcase]; exact List.mem_cons_self),?_,
      by simpa [Span.before] using hbefore⟩
    by_contra hapart
    rw [absorb,if_neg hapart] at h
    exact h rfl

private theorem countP_beyond (hpre : ∀ r ∈ pre, r.last + 1 < s.first) (hs : s.first ≤ s.last)
    (hl : Separated (pre ++ rest)) (hrest : ∀ r ∈ rest, s.last + 1 < r.first) :
    (pre ++ rest).countP (fun r => s.last + 1 < r.first) = rest.length := by
  rw [List.countP_append,List.countP_eq_zero.mpr,List.countP_eq_length.mpr,Nat.zero_add]
  · intro r hr
    simpa using hrest r hr
  · intro r hr
    have hbefore := hpre r hr
    have hne := hl.nonempty r (List.mem_append_left _ hr)
    simp only [decide_eq_true_eq]
    omega

/-- `addRows` keeps a sorted list sorted exactly when the new range has its place. -/
theorem addRows_keptSorted_iff (hs : s.first ≤ s.last) (hl : Separated l)
    (hmax : l.length ≤ osdMaxDirtyRanges) : KeptSorted s l (addRows s l) ↔ HasPlace s l := by
  have hkept : KeptSorted s l (addRows s l) ↔ Separated (addRows s l) :=
    ⟨KeptSorted.separated,fun h => ⟨addRows_length hmax,h,fun _ => addRows_keeps⟩⟩
  rw [hkept,addRows]
  split
  next hfull =>
    have hpre : ∀ r ∈ l.takeWhile s.before, r.last + 1 < s.first := by
      intro r hr
      simpa [Span.before] using List.mem_takeWhile_imp hr
    have hrest := beyond_of_none hl hfull.1
    have htouch : ¬∃ r ∈ l, r.first ≤ s.last + 1 ∧ s.first ≤ r.last + 1 := by
      rintro ⟨r,hr,hfirst,hlast⟩
      rw [← List.takeWhile_append_dropWhile (p := s.before) (l := l)] at hr
      rcases List.mem_append.mp hr with hr | hr
      · have hbefore := hpre r hr
        omega
      · have hbeyond := hrest r hr
        omega
    rw [HasPlace,or_iff_right (by omega),or_iff_right htouch]
    rw [← List.takeWhile_append_dropWhile (p := s.before) (l := l)] at hl
    have hcount := countP_beyond hpre hs hl hrest
    have hwiden := widenLast_separated_iff hs hl hpre hrest
    rw [List.takeWhile_append_dropWhile] at hcount hwiden
    rw [hwiden,hcount]
  next hroom =>
    refine iff_of_true (insertSpan_separated hs hl) ?_
    by_cases hlen : l.length < osdMaxDirtyRanges
    · exact .inl hlen
    · exact .inr (.inl (touches_of_absorbed fun hnone => hroom ⟨hnone,by omega⟩))

end Sorted

/-- However many ranges are added or boxes drawn, the calls stay inside the array and the list keeps
every row. -/
theorem dirtyAdds_recorded :
    (∀ (added : List OsdRows) (range : Fin osdMaxDirtyRanges → OsdRows),
      (∀ s ∈ added, s.first ≤ s.last) →
        ∃ d l, dirtyAdds added ⟨0,range⟩ = some d ∧ d.Holds l ∧ Recorded added l) ∧
    ∀ (buf : Frame) (width height : Int) (boxes : List DetBox) (scaleX scaleY : Int)
      (dirty : OsdDirty), ∃ buf' d l,
        osdDrawBoxesYuv420 buf width height boxes scaleX scaleY dirty = some (buf',d) ∧
          d.Holds l ∧ Recorded (boxRows width height scaleX scaleY boxes) l ∧
          ∀ box ∈ boxes, ∀ p, (box.clipped width height scaleX scaleY).Mark p → Covers l p.2 := by
  constructor
  · intro added range hadded
    obtain ⟨d,hcall,hholds⟩ := dirtyAdds_holds added (d := ⟨0,range⟩) (l := [])
      ⟨rfl,Nat.zero_le _,trivial⟩
    exact ⟨d,_,hcall,hholds,Recorded.nil.adds hadded⟩
  · intro buf width height boxes scaleX scaleY dirty
    obtain ⟨buf',d,hcall,_,hholds⟩ := osdDrawBoxes_traces (allows_any width osdY osdU osdV) height
      scaleX scaleY boxes buf dirty
    rw [boxBands_foldl] at hholds
    have hordered : ∀ s ∈ boxRows width height scaleX scaleY boxes, s.first ≤ s.last := by
      intro s hs
      obtain ⟨box,_,hband⟩ := List.mem_flatMap.mp hs
      exact bands_ordered _ s hband
    have hrecorded := Recorded.nil.adds hordered
    refine ⟨buf',d,_,hcall,hholds,hrecorded,?_⟩
    intro box hbox p hmark
    have hband := (covers_bands _ _).mpr ((band_iff_mark _ p.2).mpr ⟨p,hmark,rfl⟩)
    obtain ⟨s,hs,hhas⟩ := hband
    exact hrecorded.covered p.2 ⟨s,List.mem_flatMap.mpr ⟨box,hbox,hs⟩,hhas⟩

/-- Ten single rows fill the list; the last of them is widened to reach up over two more. -/
theorem dirtyAdds_recorded_full : ∃ d l,
    dirtyAdds [⟨0,0⟩,⟨10,10⟩,⟨20,20⟩,⟨30,30⟩,⟨40,40⟩,⟨50,50⟩,⟨60,60⟩,⟨70,70⟩,⟨80,80⟩,⟨90,90⟩,⟨5,6⟩,
      ⟨33,35⟩] ⟨0,fun _ => ⟨0,0⟩⟩ = some d ∧ d.Holds l ∧
    Recorded [⟨0,0⟩,⟨10,10⟩,⟨20,20⟩,⟨30,30⟩,⟨40,40⟩,⟨50,50⟩,⟨60,60⟩,⟨70,70⟩,⟨80,80⟩,⟨90,90⟩,⟨5,6⟩,
      ⟨33,35⟩] l :=
  dirtyAdds_recorded.1 _ (fun _ => ⟨0,0⟩) (by decide)

/-- On a sorted list `dirty_add` keeps the list sorted and merged and loses no row exactly when the
new range has its place: a full list is only widened at its end, over whatever lies beyond the new
range. -/
theorem dirtyAdd_keptSorted_iff {d : OsdDirty} {l : List OsdRows} {s : OsdRows} (h : d.Holds l)
    (hl : Separated l) (hs : s.first ≤ s.last) :
    ∃ d' l', dirtyAdd d s.first s.last = some d' ∧ d'.Holds l' ∧
      (KeptSorted s l l' ↔ HasPlace s l) := by
  obtain ⟨d',hcall,hholds⟩ := dirtyAdd_holds s h
  exact ⟨d',_,hcall,hholds,addRows_keptSorted_iff hs hl h.length_le⟩

/-- Ten single rows, ten apart. -/
def tenRows : OsdDirty := ⟨10,fun i => ⟨10 * i + 10,10 * i + 10⟩⟩

private theorem tenRows_holds : tenRows.Holds [⟨10,10⟩,⟨20,20⟩,⟨30,30⟩,⟨40,40⟩,⟨50,50⟩,⟨60,60⟩,
    ⟨70,70⟩,⟨80,80⟩,⟨90,90⟩,⟨100,100⟩] :=
  ⟨rfl,le_refl _,rfl,rfl,rfl,rfl,rfl,rfl,rfl,rfl,rfl,rfl,trivial⟩

/-- A range between the last two of a full list. -/
theorem dirtyAdd_keptSorted_iff_tenRows : ∃ d' l', dirtyAdd tenRows 95 96 = some d' ∧ d'.Holds l' ∧
    (KeptSorted ⟨95,96⟩ [⟨10,10⟩,⟨20,20⟩,⟨30,30⟩,⟨40,40⟩,⟨50,50⟩,⟨60,60⟩,⟨70,70⟩,⟨80,80⟩,⟨90,90⟩,
        ⟨100,100⟩] l' ↔
      HasPlace ⟨95,96⟩ [⟨10,10⟩,⟨20,20⟩,⟨30,30⟩,⟨40,40⟩,⟨50,50⟩,⟨60,60⟩,⟨70,70⟩,⟨80,80⟩,⟨90,90⟩,
        ⟨100,100⟩]) :=
  dirtyAdd_keptSorted_iff (s := ⟨95,96⟩) tenRows_holds ⟨by decide,by decide⟩ (by decide)

/-- A row before all of them: the last range comes back as the rows from 0 to 100, behind the nine
that it covers. -/
theorem dirtyAdd_unsorted : Separated [⟨10,10⟩,⟨20,20⟩,⟨30,30⟩,⟨40,40⟩,⟨50,50⟩,⟨60,60⟩,⟨70,70⟩,
      ⟨80,80⟩,⟨90,90⟩,⟨100,100⟩] ∧
    tenRows.Holds [⟨10,10⟩,⟨20,20⟩,⟨30,30⟩,⟨40,40⟩,⟨50,50⟩,⟨60,60⟩,⟨70,70⟩,⟨80,80⟩,⟨90,90⟩,
      ⟨100,100⟩] ∧
    ∃ d', dirtyAdd tenRows 0 0 = some d' ∧
      d'.Holds [⟨10,10⟩,⟨20,20⟩,⟨30,30⟩,⟨40,40⟩,⟨50,50⟩,⟨60,60⟩,⟨70,70⟩,⟨80,80⟩,⟨90,90⟩,⟨0,100⟩] ∧
      ¬Separated [⟨10,10⟩,⟨20,20⟩,⟨30,30⟩,⟨40,40⟩,⟨50,50⟩,⟨60,60⟩,⟨70,70⟩,⟨80,80⟩,⟨90,90⟩,⟨0,100⟩] := by
  refine ⟨⟨by decide,by decide⟩,tenRows_holds,_,rfl,
    ⟨rfl,le_refl _,rfl,rfl,rfl,rfl,rfl,rfl,rfl,rfl,rfl,rfl,trivial⟩,?_⟩
  intro hsep
  exact absurd hsep.apart (by decide)

end Esp32Ipc
