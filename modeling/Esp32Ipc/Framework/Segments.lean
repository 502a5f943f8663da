import Esp32Ipc.Framework.ByteMemory

/-!
# Segments laid end to end

Blocks are concatenated from some position on, and each is found again from where it starts and how
long it is. A table of little-endian words and a table of records of one width are the cases in
which the starts need not be stored.
-/

namespace Esp32Ipc.Framework

variable {α β : Type*}

/-- What `l` holds from position `p`, at most `n` elements. -/
def slice (l : List α) (p n : Nat) : List α := (l.drop p).take n

/-- Where each segment starts when they are laid end to end from `base`. -/
def starts : Nat → List (List α) → List Nat
  | _, [] => []
  | base, s :: ss => base :: starts (base + s.length) ss

/-- How far it is from each position to the next one, and from the last one to `stop`. -/
def untilNext (stop : Nat) : List Nat → List Nat
  | [] => []
  | [p] => [stop - p]
  | p :: q :: ps => (q - p) :: untilNext stop (q :: ps)

theorem slice_append_right (pre l : List α) (p n : Nat) :
    slice (pre ++ l) (pre.length + p) n = slice l p n := by
  rw [slice,List.drop_append,List.drop_eq_nil_of_le (by omega),List.nil_append,Nat.add_sub_cancel_left]
  rfl

theorem slice_self (pre s post : List α) : slice (pre ++ s ++ post) pre.length s.length = s := by
  rw [List.append_assoc,show pre.length = pre.length + 0 from rfl,slice_append_right]
  simp [slice]

@[simp] theorem starts_length (base : Nat) (segs : List (List α)) :
    (starts base segs).length = segs.length := by
  induction segs generalizing base with
  | nil => rfl
  | cons s ss ih => exact congrArg Nat.succ (ih _)

/-- Each segment is what stands at its start, for its length. -/
theorem zipWith_slice_starts (pre post : List α) (segs : List (List α)) :
    (starts pre.length segs).zipWith (slice (pre ++ segs.flatten ++ post)) (segs.map List.length) =
      segs := by
  induction segs generalizing pre with
  | nil => rfl
  | cons s ss ih =>
    have hrest := ih (pre ++ s)
    rw [List.length_append] at hrest
    rw [starts,List.map_cons,List.zipWith_cons_cons,List.flatten_cons,
      ← List.append_assoc pre s ss.flatten,hrest,List.append_assoc (pre ++ s),slice_self]

/-- Segments that fill what is left up to the end are delimited by their starts alone. -/
theorem untilNext_starts (base : Nat) (segs : List (List α)) :
    untilNext (base + segs.flatten.length) (starts base segs) = segs.map List.length := by
  induction segs generalizing base with
  | nil => rfl
  | cons s ss ih =>
    cases ss with
    | nil => simp [starts,untilNext]
    | cons t ts =>
      have hrest := ih (base + s.length)
      rw [Nat.add_assoc,← List.length_append,← List.flatten_cons] at hrest
      change (base + s.length - base) :: untilNext _ (starts (base + s.length) (t :: ts)) = _
      rw [hrest,Nat.add_sub_cancel_left]
      rfl

theorem mem_starts_bounds {base : Nat} {segs : List (List α)} {e : Nat × Nat}
    (h : e ∈ (starts base segs).zip (segs.map List.length)) :
    base ≤ e.1 ∧ e.1 + e.2 ≤ base + segs.flatten.length := by
  induction segs generalizing base with
  | nil => cases h
  | cons s ss ih =>
    rw [List.flatten_cons,List.length_append]
    rcases List.mem_cons.mp h with rfl | h
    · exact ⟨Nat.le_refl _,by dsimp only; omega⟩
    · have hrest := ih h
      omega

theorem starts_pairwise {base : Nat} {segs : List (List α)} :
    ((starts base segs).zip (segs.map List.length)).Pairwise fun e f => e.1 + e.2 ≤ f.1 := by
  induction segs generalizing base with
  | nil => exact List.Pairwise.nil
  | cons s ss ih =>
    apply List.pairwise_cons.mpr
    refine ⟨?_,ih⟩
    intro e he
    exact (mem_starts_bounds he).1

theorem dvd_of_mem_starts {k base p : Nat} {segs : List (List α)} (hbase : k ∣ base)
    (hsegs : ∀ s ∈ segs, k ∣ s.length) (h : p ∈ starts base segs) : k ∣ p := by
  induction segs generalizing base with
  | nil => cases h
  | cons s ss ih =>
    rcases List.mem_cons.mp h with rfl | h
    · exact hbase
    · exact ih (Nat.dvd_add hbase (hsegs s List.mem_cons_self))
        (fun t ht => hsegs t (List.mem_cons_of_mem _ ht)) h

section Records

variable (enc : β → List α) {w : Nat}

theorem flatMap_length_of_width (hw : ∀ b, (enc b).length = w) (l : List β) :
    (l.flatMap enc).length = w * l.length := by
  induction l with
  | nil => rfl
  | cons b l ih =>
    rw [List.flatMap_cons,List.length_append,hw,ih,List.length_cons]
    ring

theorem map_range_slice_records {γ : Type*} (hw : ∀ b, (enc b).length = w) (pre post : List α)
    (l : List β) (dec : List α → γ) :
    (List.range l.length).map (fun k => dec (slice (pre ++ l.flatMap enc ++ post) (pre.length + w * k) w)) =
      l.map fun b => dec (enc b) := by
  induction l generalizing pre with
  | nil => rfl
  | cons b l ih =>
    have hrest := ih (pre ++ enc b)
    rw [List.length_append,hw] at hrest
    rw [List.length_cons,List.range_succ_eq_map,List.map_cons,List.map_map,List.flatMap_cons,List.map_cons]
    refine congrArg₂ List.cons ?_ ?_
    · have hself := slice_self pre (enc b) (l.flatMap enc ++ post)
      rw [hw] at hself
      rw [Nat.mul_zero,Nat.add_zero,← List.append_assoc pre,List.append_assoc (pre ++ enc b),hself]
    · rw [← hrest]
      apply List.map_congr_left
      intro k _
      rw [Function.comp_apply,← List.append_assoc pre,Nat.mul_succ,Nat.add_assoc pre.length,
        Nat.add_comm w]

end Records

/-- The word that the four bytes from `p` stand for. -/
def wordAt (l : List UInt8) (p : Nat) : Nat := ByteMemory.ofBytes (slice l p 4)

theorem wordAt_append {w : Nat} (h : w < 4294967296) (pre post : List UInt8) :
    wordAt (pre ++ ByteMemory.wordBytes w ++ post) pre.length = w := by
  rw [wordAt,show (4 : Nat) = (ByteMemory.wordBytes w).length from rfl,slice_self,
    ByteMemory.ofBytes_wordBytes h]

end Esp32Ipc.Framework
