import Mathlib.Data.List.Basic

/-!
# Replacing every match of a regular expression

A pattern is a sequence of items: one letter of a class, a greedy repetition of a class, the end of
the text. Matches are taken from the left and do not overlap.
-/

namespace Esp32Ipc.Framework

variable {α : Type*}

inductive RegexItem (α : Type*) where
  | one (p : α → Bool)
  | star (p : α → Bool)
  | eos

/-- The length of a greedy run of `p` with which the rest of the pattern still matches. -/
def matchStar (p : α → Bool) (rest : List α → Option Nat) : List α → Option Nat
  | [] => rest []
  | a :: s =>
    match if p a then (matchStar p rest s).map (· + 1) else none with
    | some n => some n
    | none => rest (a :: s)

/-- The length of the match at the head of the text, if there is one. -/
def matchLength : List (RegexItem α) → List α → Option Nat
  | [], _ => some 0
  | .one p :: items, s =>
    match s with
    | [] => none
    | a :: s => if p a then (matchLength items s).map (· + 1) else none
  | .star p :: items, s => matchStar p (matchLength items) s
  | .eos :: items, s => if s.isEmpty then matchLength items [] else none

/-- `skip` letters of the last match are still to be passed over. -/
def replaceFrom (items : List (RegexItem α)) (f : List α → List α) : Nat → List α → List α
  | _, [] => []
  | skip + 1, _ :: s => replaceFrom items f skip s
  | 0, a :: s =>
    match matchLength items (a :: s) with
    | some (n + 1) => f ((a :: s).take (n + 1)) ++ replaceFrom items f n s
    -- no match, or one of no letters
    | _ => a :: replaceFrom items f 0 s

def regexReplace (items : List (RegexItem α)) (f : List α → List α) (s : List α) : List α :=
  replaceFrom items f 0 s

section Replace

variable {items : List (RegexItem α)} {f : List α → List α} {a : α} {s w : List α}

@[simp] theorem regexReplace_nil : regexReplace items f [] = [] := rfl

theorem replaceFrom_length (w s : List α) : replaceFrom items f w.length (w ++ s) = regexReplace items f s := by
  induction w with
  | nil => rfl
  | cons a w ih => exact ih

theorem regexReplace_match (hw : w ≠ []) (h : matchLength items (w ++ s) = some w.length) :
    regexReplace items f (w ++ s) = f w ++ regexReplace items f s := by
  cases w with
  | nil => exact absurd rfl hw
  | cons a w =>
    rw [List.cons_append,List.length_cons] at h
    rw [regexReplace,List.cons_append,replaceFrom,h]
    change f ((a :: (w ++ s)).take (w.length + 1)) ++ replaceFrom items f w.length (w ++ s) = _
    rw [List.take_succ_cons,List.take_left,replaceFrom_length]

theorem regexReplace_cons (h : matchLength items (a :: s) = none) :
    regexReplace items f (a :: s) = a :: regexReplace items f s := by
  rw [regexReplace,replaceFrom,h]
  rfl

/-- Text at none of whose letters a match begins stays as it is. -/
theorem regexReplace_append (h : ∀ u a v, w = u ++ a :: v → matchLength items (a :: v ++ s) = none) :
    regexReplace items f (w ++ s) = w ++ regexReplace items f s := by
  induction w with
  | nil => rfl
  | cons a w ih =>
    have hhead : matchLength items (a :: (w ++ s)) = none := h [] a w rfl
    have htail := ih fun u b v hw => h (a :: u) b v (by rw [hw,List.cons_append])
    rw [List.cons_append,regexReplace_cons hhead,htail,List.cons_append]

end Replace

section Word

variable {ps : List (α → Bool)} {f : List α → List α} {w s : List α}

theorem matchLength_word (h : List.Forall₂ (fun p a => p a = true) ps w) :
    matchLength (ps.map .one) (w ++ s) = some w.length := by
  induction h with
  | nil => rfl
  | cons hp hrest ih =>
    rw [List.map_cons,List.cons_append,matchLength]
    rw [if_pos hp,ih]
    rfl

theorem matchLength_short (h : w.length < ps.length) : matchLength (ps.map RegexItem.one) w = none := by
  induction ps generalizing w with
  | nil => simp at h
  | cons p ps ih =>
    cases w with
    | nil => rfl
    | cons a w =>
      rw [List.map_cons,matchLength,ih (Nat.lt_of_succ_lt_succ h)]
      split <;> rfl

theorem regexReplace_word (hps : ps ≠ []) (h : List.Forall₂ (fun p a => p a = true) ps w) :
    regexReplace (ps.map .one) f (w ++ s) = f w ++ regexReplace (ps.map .one) f s := by
  apply regexReplace_match _ (matchLength_word h)
  rintro rfl
  cases h
  exact hps rfl

theorem anyLetters (w : List α) :
    List.Forall₂ (fun (p : α → Bool) a => p a = true) (List.replicate w.length fun _ => true) w := by
  induction w with
  | nil => exact .nil
  | cons a w ih => exact .cons rfl ih

theorem regexReplace_short (h : s.length < ps.length) : regexReplace (ps.map .one) f s = s := by
  have hnone : ∀ u a v, s = u ++ a :: v → matchLength (ps.map RegexItem.one) (a :: v ++ []) = none := by
    intro u a v hs
    rw [List.append_nil]
    apply matchLength_short
    rw [hs,List.length_append] at h
    omega
  have happend := regexReplace_append (f := f) hnone
  simpa using happend

end Word

section LastRun

variable {p : α → Bool} {f : List α → List α} {w s : List α} {a : α}

theorem matchStar_end (p : α → Bool) (s : List α) :
    matchStar p (matchLength [.eos]) s = if s.all p then some s.length else none := by
  induction s with
  | nil => rfl
  | cons a s ih =>
    rw [matchStar,ih,List.all_cons]
    cases hp : p a <;> cases hs : s.all p <;> rfl

theorem matchLength_lastRun (p : α → Bool) (s : List α) :
    matchLength [.one p,.star p,.eos] s = if s ≠ [] ∧ s.all p then some s.length else none := by
  cases s with
  | nil => rfl
  | cons a s =>
    rw [matchLength,matchLength,matchStar_end,List.all_cons]
    cases hp : p a <;> cases hs : s.all p <;> simp

/-- `[p]+$` leaves all up to the last letter outside the class as it is. -/
theorem regexReplace_lastRun_append (ha : p a = false) :
    regexReplace [.one p,.star p,.eos] f (w ++ a :: s) =
      w ++ a :: regexReplace [.one p,.star p,.eos] f s := by
  have hnone : ∀ u b v, w ++ [a] = u ++ b :: v →
      matchLength [.one p,.star p,.eos] (b :: v ++ s) = none := by
    intro u b v hw
    have hmem : a ∈ b :: v := by
      have hlast := congrArg List.getLast? hw
      rw [List.getLast?_append,List.getLast?_append] at hlast
      simp only [List.getLast?_singleton,Option.some_or] at hlast
      cases hv : (b :: v).getLast? with
      | none => simp at hv
      | some c =>
        rw [hv,Option.some_or] at hlast
        rw [Option.some.inj hlast]
        exact List.mem_of_getLast? hv
    rw [matchLength_lastRun,if_neg]
    rintro ⟨_,hall⟩
    have hp := List.all_eq_true.mp hall a (List.mem_append_left _ hmem)
    rw [ha] at hp
    cases hp
  have happend := regexReplace_append (f := f) hnone
  simpa using happend

theorem regexReplace_lastRun (hw : w ≠ []) (hall : w.all p = true) :
    regexReplace [.one p,.star p,.eos] f w = f w := by
  have hmatch : matchLength [.one p,.star p,.eos] (w ++ []) = some w.length := by
    rw [List.append_nil,matchLength_lastRun,if_pos ⟨hw,hall⟩]
  have happend := regexReplace_match (f := f) hw hmatch
  simpa using happend

end LastRun

end Esp32Ipc.Framework
