import Esp32Ipc.Core.Osd

/-!
# The dirty rows as a list

`dirty_add` works in place on an array. Read as a list it inserts one span, except that a full list
whose spans the new one does not touch gets its last span widened instead. No access is outside the
array.
-/

namespace Esp32Ipc

open Framework

namespace OsdDirty

variable {d d' : OsdDirty} {i k : Nat} {r : OsdRows} {l l' : List OsdRows}

/-- The entries from `i` on are those of the list. -/
def At (d : OsdDirty) : Nat → List OsdRows → Prop
  | _, [] => True
  | i, r :: l => d.get i = some r ∧ d.At (i + 1) l

/-- The entries in use are those of the list. -/
structure Holds (d : OsdDirty) (l : List OsdRows) : Prop where
  count : d.count = l.length
  length_le : l.length ≤ osdMaxDirtyRanges
  entries : d.At 0 l

theorem get_of_lt (d : OsdDirty) (h : i < osdMaxDirtyRanges) : ∃ r, d.get i = some r :=
  ⟨_,dif_pos h⟩

theorem set_of_lt (d : OsdDirty) (r : OsdRows) (h : i < osdMaxDirtyRanges) :
    ∃ d', d.set i r = some d' ∧ d'.count = d.count ∧ d'.get i = some r ∧
      ∀ a, a ≠ i → d'.get a = d.get a := by
  refine ⟨_,dif_pos h,rfl,?_,?_⟩
  · simp [get,h]
  · intro a ha
    by_cases hlt : a < osdMaxDirtyRanges
    · have hne : (⟨a,hlt⟩ : Fin osdMaxDirtyRanges) ≠ ⟨i,h⟩ := fun heq => ha (congrArg Fin.val heq)
      simp [get,hlt,Function.update_of_ne hne]
    · simp [get,hlt]

theorem at_append : d.At i (l ++ l') ↔ d.At i l ∧ d.At (i + l.length) l' := by
  induction l generalizing i with
  | nil => simp [At]
  | cons r l ih =>
    rw [List.cons_append,At,At,ih,List.length_cons,and_assoc,Nat.add_right_comm,Nat.add_assoc]

theorem At.moved (shift : Nat) (h : d.At i l)
    (hget : ∀ a, i ≤ a → a < i + l.length → d'.get (a + shift) = d.get a) : d'.At (i + shift) l := by
  induction l generalizing i with
  | nil => trivial
  | cons r l ih =>
    rw [List.length_cons] at hget
    refine ⟨(hget i (le_refl _) (by omega)).trans h.1,?_⟩
    rw [Nat.add_right_comm]
    exact ih h.2 fun a ha hlt => hget a (by omega) (by omega)

theorem At.unchanged (h : d.At i l) (hget : ∀ a, i ≤ a → a < i + l.length → d'.get a = d.get a) :
    d'.At i l := h.moved 0 hget

end OsdDirty

open OsdDirty

variable {d : OsdDirty} {l : List OsdRows}

section Loops

theorem dirtySkip_eq (s : Span) (fuel i : Nat) (hat : d.At i l) (hcount : d.count = i + l.length)
    (hfuel : l.length ≤ fuel) :
    dirtySkip d s.first fuel i = some (i + (l.takeWhile s.before).length) := by
  induction l generalizing i fuel with
  | nil => cases fuel <;> simp [dirtySkip,hcount]
  | cons r l ih =>
    obtain ⟨fuel,rfl⟩ : ∃ fuel', fuel = fuel' + 1 := ⟨fuel - 1,by simp at hfuel; omega⟩
    rw [List.length_cons] at hcount hfuel
    rw [dirtySkip,if_pos (by omega),hat.1,Option.bind_some]
    by_cases hskip : r.last + 1 < s.first
    · rw [if_pos hskip,ih fuel (i + 1) hat.2 (by omega) (by omega),
        List.takeWhile_cons_of_pos (by simpa [Span.before] using hskip),List.length_cons]
      congr 1
      omega
    · rw [if_neg hskip,List.takeWhile_cons_of_neg (by simpa [Span.before] using hskip)]
      rfl

theorem dirtyAbsorb_eq (s : Span) (fuel j : Nat) (hat : d.At j l) (hcount : d.count = j + l.length)
    (hfuel : l.length ≤ fuel) :
    dirtyAbsorb d fuel j s.first s.last = some (j + (l.length - (absorb s l).2.length),
      (absorb s l).1.first,(absorb s l).1.last) := by
  induction l generalizing j s fuel with
  | nil => cases fuel <;> simp [dirtyAbsorb,hcount,absorb]
  | cons r l ih =>
    obtain ⟨fuel,rfl⟩ : ∃ fuel', fuel = fuel' + 1 := ⟨fuel - 1,by simp at hfuel; omega⟩
    rw [List.length_cons] at hcount hfuel
    rw [dirtyAbsorb,if_pos (by omega),hat.1,Option.bind_some,absorb]
    by_cases htouch : r.first ≤ s.last + 1
    · have hfirst : (if r.first < s.first then r.first else s.first) = (r.join s).first := by
        simp only [Span.join]
        split <;> omega
      have hlast : (if r.last > s.last then r.last else s.last) = (r.join s).last := by
        simp only [Span.join]
        split <;> omega
      have hlen := absorb_length (r.join s) l
      rw [if_pos htouch,if_pos htouch,hfirst,hlast,
        ih (r.join s) fuel (j + 1) hat.2 (by omega) (by omega),List.length_cons]
      congr 2
      omega
    · rw [if_neg htouch,if_neg htouch]
      simp

theorem dirtyShiftDown_spec (fuel k src : Nat) (hat : d.At src l)
    (hcount : d.count = src + l.length) (hle : k ≤ src) (hmax : d.count ≤ osdMaxDirtyRanges)
    (hfuel : l.length ≤ fuel) :
    ∃ d', dirtyShiftDown fuel k src d = some d' ∧ d'.count = d.count ∧ d'.At k l ∧
      ∀ a < k, d'.get a = d.get a := by
  induction l generalizing d k src fuel with
  | nil =>
    refine ⟨d,?_,rfl,trivial,fun _ _ => rfl⟩
    cases fuel <;> simp [dirtyShiftDown,hcount]
  | cons r l ih =>
    obtain ⟨fuel,rfl⟩ : ∃ fuel', fuel = fuel' + 1 := ⟨fuel - 1,by simp at hfuel; omega⟩
    rw [List.length_cons] at hcount hfuel
    obtain ⟨d₁,hset,hcount₁,hget,hother⟩ := d.set_of_lt r (i := k) (by omega)
    have hat₁ : d₁.At (src + 1) l := hat.2.unchanged fun a ha _ => hother a (by omega)
    obtain ⟨d',hloop,hcount',hat',hkeep⟩ := ih fuel (k + 1) (src + 1) hat₁ (by omega) (by omega)
      (by omega) (by omega)
    refine ⟨d',?_,hcount'.trans hcount₁,⟨?_,hat'⟩,?_⟩
    · rw [dirtyShiftDown,if_pos (by omega),hat.1,Option.bind_some,hset,Option.bind_some,hloop]
    · rw [hkeep k (Nat.lt_succ_self k),hget]
    · intro a ha
      rw [hkeep a (by omega),hother a (by omega)]

theorem dirtyShiftUp_spec (i k : Nat) (hmax : k < osdMaxDirtyRanges) :
    ∃ d', dirtyShiftUp i k d = some d' ∧ d'.count = d.count ∧
      (∀ a, i ≤ a → a < k → d'.get (a + 1) = d.get a) ∧
      ∀ a, a ≤ i ∨ k < a → d'.get a = d.get a := by
  induction k generalizing d with
  | zero => exact ⟨d,rfl,rfl,fun a _ ha => absurd ha (Nat.not_lt_zero a),fun _ _ => rfl⟩
  | succ k ih =>
    rw [dirtyShiftUp]
    by_cases hi : k + 1 > i
    · rw [if_pos hi]
      obtain ⟨r,hr⟩ := d.get_of_lt (i := k) (by omega)
      obtain ⟨d₁,hset,hcount₁,hget,hother⟩ := d.set_of_lt r hmax
      obtain ⟨d',hloop,hcount',hmoved,hkeep⟩ := ih (d := d₁) (by omega)
      refine ⟨d',?_,hcount'.trans hcount₁,?_,?_⟩
      · rw [hr,Option.bind_some,hset,Option.bind_some,hloop]
      · intro a hia hak
        rcases Nat.lt_or_ge a k with hlt | hge
        · rw [hmoved a hia hlt,hother a (by omega)]
        · obtain rfl : a = k := by omega
          rw [hkeep (a + 1) (by omega),hget,hr]
      · intro a ha
        rw [hkeep a (by omega),hother a (by omega)]
    · rw [if_neg hi]
      exact ⟨d,rfl,rfl,fun a _ _ => absurd hi (by omega),fun _ _ => rfl⟩

end Loops

/-- The last span widened so that it reaches over `s`. -/
def widenLast (s : Span) : List Span → List Span
  | [] => []
  | [r] => [r.join s]
  | r :: r' :: l => r :: widenLast s (r' :: l)

def addRows (s : Span) (l : List Span) : List Span :=
  if (absorb s (l.dropWhile s.before)).2.length = (l.dropWhile s.before).length ∧
      osdMaxDirtyRanges ≤ l.length then widenLast s l
  else insertSpan s l

theorem addRows_of_lt (s : Span) (h : l.length < osdMaxDirtyRanges) :
    addRows s l = insertSpan s l := if_neg (by omega)

theorem widenLast_concat (s r : Span) (l : List Span) : widenLast s (l ++ [r]) = l ++ [r.join s] := by
  induction l with
  | nil => rfl
  | cons a l ih =>
    cases l with
    | nil => rfl
    | cons b l => exact congrArg (a :: ·) ih

section AnyOrder

variable {s : Span} {y : Int}

theorem widenLast_length (s : Span) (l : List Span) : (widenLast s l).length = l.length := by
  rcases List.eq_nil_or_concat' l with rfl | ⟨l,r,rfl⟩
  · rfl
  · rw [widenLast_concat,List.length_append,List.length_append,List.length_singleton,
      List.length_singleton]

theorem widenLast_keeps (hne : l ≠ []) (h : s.Has y ∨ Covers l y) : Covers (widenLast s l) y := by
  obtain ⟨l,r,rfl⟩ := (List.eq_nil_or_concat' l).resolve_left hne
  rw [widenLast_concat]
  rw [covers_append,covers_cons] at h ⊢
  rcases h with hs | hl | hr | hnil
  · exact .inr (.inl hs.join_right)
  · exact .inl hl
  · exact .inr (.inl hr.join_left)
  · exact absurd hnil covers_nil

theorem widenLast_forall {P : Span → Prop} (hjoin : ∀ r s, P r → P s → P (r.join s)) (hs : P s)
    (hl : ∀ r ∈ l, P r) : ∀ r ∈ widenLast s l, P r := by
  rcases List.eq_nil_or_concat' l with rfl | ⟨l,r,rfl⟩
  · exact hl
  · rw [widenLast_concat]
    intro t ht
    rw [List.mem_append,List.mem_singleton] at ht
    rcases ht with ht | rfl
    · exact hl t (List.mem_append_left _ ht)
    · exact hjoin r s (hl r (by simp)) hs

theorem addRows_length (h : l.length ≤ osdMaxDirtyRanges) :
    (addRows s l).length ≤ osdMaxDirtyRanges := by
  rw [addRows]
  split
  · rw [widenLast_length]
    exact h
  next hnot =>
    by_cases habsorb :
        (absorb s (l.dropWhile s.before)).2.length = (l.dropWhile s.before).length
    · have hroom : l.length < osdMaxDirtyRanges := by
        by_contra hfull
        exact hnot ⟨habsorb,by omega⟩
      exact (insertSpan_length s l).trans hroom
    · exact (insertSpan_length_of_absorbed habsorb).trans h

/-- No row is lost, also when the list is full and out of order. -/
theorem addRows_keeps (h : s.Has y ∨ Covers l y) : Covers (addRows s l) y := by
  rw [addRows]
  split
  next hfull =>
    have hne : l ≠ [] := by
      rintro rfl
      exact absurd hfull.2 (by decide)
    exact widenLast_keeps hne h
  · exact insertSpan_keeps h

theorem addRows_forall {P : Span → Prop} (hjoin : ∀ r s, P r → P s → P (r.join s)) (hs : P s)
    (hl : ∀ r ∈ l, P r) : ∀ r ∈ addRows s l, P r := by
  rw [addRows]
  split
  · exact widenLast_forall hjoin hs hl
  · exact insertSpan_forall hjoin hs hl

end AnyOrder

section Refinement

variable (s : Span) {pre rest post : List Span} {d d' : OsdDirty}

private theorem holds_set (m : Span) (hcount : d.count = pre.length + 1 + post.length)
    (hmax : d.count ≤ osdMaxDirtyRanges) (hpre : d.At 0 pre) (hpost : d.At (pre.length + 1) post) :
    ∃ d', d.set pre.length m = some d' ∧ d'.Holds (pre ++ m :: post) := by
  obtain ⟨d',hset,hcount',hget,hother⟩ := d.set_of_lt m (i := pre.length) (by omega)
  refine ⟨d',hset,⟨?_,?_,at_append.mpr ⟨?_,?_,?_⟩⟩⟩
  · rw [hcount',hcount,List.length_append,List.length_cons]
    omega
  · rw [List.length_append,List.length_cons]
    omega
  · exact hpre.unchanged fun a _ ha => hother a (by omega)
  · rw [Nat.zero_add]
    exact hget
  · rw [Nat.zero_add]
    exact hpost.unchanged fun a ha _ => hother a (by omega)

private theorem merge_holds (m : Span) (h : d.Holds (pre ++ rest)) (hsuffix : post <:+ rest)
    (hlt : post.length < rest.length) :
    ∃ d', (dirtyShiftDown d.count (pre.length + 1) (pre.length + (rest.length - post.length)) d).bind
        (fun d₁ => { d₁ with
          count := d₁.count - ((pre.length + (rest.length - post.length) - pre.length) - 1) }.set
            pre.length m) = some d' ∧ d'.Holds (pre ++ m :: post) := by
  obtain ⟨run,rfl⟩ := hsuffix
  obtain ⟨hpre,hrest⟩ := at_append.mp h.entries
  have hpost := (at_append.mp hrest).2
  have hcount := h.count
  have hmax := h.length_le
  simp only [List.length_append] at hcount hmax hlt ⊢
  obtain ⟨d₁,hloop,hcount₁,hat,hkeep⟩ := dirtyShiftDown_spec d.count (pre.length + 1)
    (pre.length + (run.length + post.length - post.length)) (l := post) (by
      rw [Nat.add_sub_cancel]
      simpa [Nat.add_assoc] using hpost) (by omega) (by omega) (by omega) (by omega)
  obtain ⟨d₂,hset,hholds⟩ := holds_set (d := { d₁ with
      count := d₁.count - ((pre.length + (run.length + post.length - post.length) - pre.length) - 1) })
    m (by dsimp only; omega) (by dsimp only; omega)
    (hpre.unchanged fun a _ ha => hkeep a (by omega)) (hat.unchanged fun _ _ _ => rfl)
  exact ⟨d₂,by rw [hloop,Option.bind_some,hset],hholds⟩

private theorem insert_holds (m : Span) (h : d.Holds (pre ++ rest))
    (hroom : d.count < osdMaxDirtyRanges) :
    ∃ d', (dirtyShiftUp pre.length d.count d).bind
        (fun d₁ => { d₁ with count := d₁.count + 1 }.set pre.length m) = some d' ∧
      d'.Holds (pre ++ m :: rest) := by
  obtain ⟨hpre,hrest⟩ := at_append.mp h.entries
  have hcount := h.count
  rw [Nat.zero_add] at hrest
  rw [List.length_append] at hcount
  obtain ⟨d₁,hloop,hcount₁,hmoved,hkeep⟩ := dirtyShiftUp_spec (d := d) pre.length d.count hroom
  obtain ⟨d₂,hset,hholds⟩ := holds_set (d := { d₁ with count := d₁.count + 1 })
    m (by dsimp only; omega) (by dsimp only; omega)
    (hpre.unchanged fun a _ ha => hkeep a (.inl (by omega)))
    (hrest.moved 1 fun a ha hlt => hmoved a ha (by omega))
  exact ⟨d₂,by rw [hloop,Option.bind_some,hset],hholds⟩

private theorem widen_holds (h : d.Holds l) (hfull : osdMaxDirtyRanges ≤ d.count) :
    ∃ d', dirtyWiden d s.first s.last = some d' ∧ d'.Holds (widenLast s l) := by
  have hcount := h.count
  have hmax := h.length_le
  have hpos : 0 < osdMaxDirtyRanges := by decide
  obtain ⟨pre,r,rfl⟩ : ∃ pre r, l = pre ++ [r] := by
    rcases List.eq_nil_or_concat' l with rfl | hconcat
    · simp at hcount
      omega
    · exact hconcat
  obtain ⟨hpre,hlast⟩ := at_append.mp h.entries
  rw [Nat.zero_add] at hlast
  rw [List.length_append,List.length_singleton] at hcount hmax
  have hjoin : (⟨if s.first < r.first then s.first else r.first,
      if s.last > r.last then s.last else r.last⟩ : Span) = r.join s := by
    simp only [Span.join,Span.mk.injEq]
    constructor <;> split <;> omega
  obtain ⟨d',hset,hholds⟩ := holds_set (d := d) (r.join s) (by rw [List.length_nil]; omega)
    (by omega) hpre (show d.At _ [] from trivial)
  refine ⟨d',?_,by rwa [widenLast_concat]⟩
  rw [dirtyWiden,hcount,Nat.add_sub_cancel,hlast.1,Option.bind_some,hjoin,hset]

/-- Every `dirty_add` stays inside the array and does on the list what `addRows` says. -/
theorem dirtyAdd_holds (h : d.Holds l) :
    ∃ d', dirtyAdd d s.first s.last = some d' ∧ d'.Holds (addRows s l) := by
  have hsplit : l.takeWhile s.before ++ l.dropWhile s.before = l := List.takeWhile_append_dropWhile
  have hparts := h
  rw [← hsplit] at hparts
  have hrest := (at_append.mp hparts.entries).2
  rw [Nat.zero_add] at hrest
  have hlen := congrArg List.length hsplit
  rw [List.length_append] at hlen
  have hcount := h.count
  have habsorb := absorb_length s (l.dropWhile s.before)
  have hskip := dirtySkip_eq s d.count 0 h.entries (by omega) (by omega)
  rw [Nat.zero_add] at hskip
  rw [dirtyAdd,hskip,Option.bind_some,
    dirtyAbsorb_eq s d.count _ hrest (by omega) (by omega),Option.bind_some]
  dsimp only
  rcases Nat.lt_or_ge (absorb s (l.dropWhile s.before)).2.length (l.dropWhile s.before).length with
    hlt | hge
  · rw [if_pos (by omega),addRows,if_neg (by omega)]
    exact merge_holds _ hparts (absorb_suffix _ _) hlt
  · have hnone := absorb_eq_of_length (Nat.le_antisymm habsorb hge)
    rw [if_neg (by omega),addRows,hnone]
    by_cases hfull : osdMaxDirtyRanges ≤ d.count
    · rw [if_pos hfull,if_pos ⟨rfl,by omega⟩]
      exact widen_holds s h hfull
    · rw [if_neg hfull,if_neg (by omega),insertSpan,hnone]
      exact insert_holds s hparts (by omega)

end Refinement

end Esp32Ipc
