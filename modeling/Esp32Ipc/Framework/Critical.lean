import Mathlib.Logic.Function.Basic
import Esp32Ipc.Framework.Run

/-!
# Critical sections

Calls that touch shared cells only between taking and giving one mutex. A call is a program of single
loads and stores, and the parties take their steps in any order; what the calls answer is what they
would have answered one after the other, in the order in which they gave the mutex back.
-/

namespace Esp32Ipc.Framework

/-- What a call does while it holds the mutex, and its answer. -/
inductive Critical (α β ρ : Type*) where
  | give (answer : ρ)
  | store (a : α) (v : β) (next : Critical α β ρ)
  | load (a : α) (next : β → Critical α β ρ)

variable {ι α β ρ κ τ : Type*} [DecidableEq ι] [DecidableEq α]

namespace Critical

/-- The section alone: its answer and the cells it leaves. -/
def exec : Critical α β ρ → (α → β) → ρ × (α → β)
  | give answer, cells => (answer,cells)
  | store a v next, cells => next.exec (Function.update cells a v)
  | load a next, cells => (next (cells a)).exec cells

/-- The cells it touches, alone. -/
def touches : Critical α β ρ → (α → β) → List α
  | give _, _ => []
  | store a v next, cells => a :: next.touches (Function.update cells a v)
  | load a next, cells => a :: (next (cells a)).touches cells

/-- The cell it touches next. -/
def nextCell : Critical α β ρ → Option α
  | give _ => none
  | store a _ _ => some a
  | load a _ => some a

theorem nextCell_touches {c : Critical α β ρ} {a : α} (h : c.nextCell = some a) (cells : α → β) :
    a ∈ c.touches cells := by
  cases c with
  | give answer => cases h
  | store b v next => exact Option.some.inj h ▸ List.mem_cons_self
  | load b next => exact Option.some.inj h ▸ List.mem_cons_self

end Critical

/-- The cells, the party inside with its call and the rest of its section, and the calls that are
over, with their answers. -/
structure Locked (ι α β ρ κ : Type*) where
  cells : α → β
  inside : Option (ι × κ × Critical α β ρ)
  answered : List (κ × ρ)

inductive LockedEvent (ι κ : Type*) where
  | take (party : ι) (call : κ)
  /-- The next load or store of the party inside. -/
  | access (party : ι)
  | give (party : ι)

def lockedStep (code : κ → Critical α β ρ) (s : Locked ι α β ρ κ) :
    LockedEvent ι κ → Option (Locked ι α β ρ κ)
  | .take party call =>
    match s.inside with
    | none => some { s with inside := some (party,call,code call) }
    | some _ => none
  | .access party =>
    match s.inside with
    | some (holder,call,.store a v next) =>
      if holder = party then
        some { s with cells := Function.update s.cells a v, inside := some (holder,call,next) }
      else none
    | some (holder,call,.load a next) =>
      if holder = party then some { s with inside := some (holder,call,next (s.cells a)) } else none
    | _ => none
  | .give party =>
    match s.inside with
    | some (holder,call,.give answer) =>
      if holder = party then some { s with inside := none, answered := s.answered ++ [(call,answer)] } else none
    | _ => none

/-- One call after the other. -/
def oneByOne (f : τ → κ → ρ × τ) (t : τ) : List κ → List ρ × τ
  | [] => ([],t)
  | call :: calls => ((f t call).1 :: (oneByOne f (f t call).2 calls).1,(oneByOne f (f t call).2 calls).2)

theorem oneByOne_append (f : τ → κ → ρ × τ) (t : τ) (calls calls' : List κ) :
    oneByOne f t (calls ++ calls') =
      ((oneByOne f t calls).1 ++ (oneByOne f (oneByOne f t calls).2 calls').1,
        (oneByOne f (oneByOne f t calls).2 calls').2) := by
  induction calls generalizing t with
  | nil => rfl
  | cons head calls ih =>
    rw [List.cons_append,oneByOne,ih]
    rfl

theorem oneByOne_length (f : τ → κ → ρ × τ) (t : τ) (calls : List κ) :
    (oneByOne f t calls).1.length = calls.length := by
  induction calls generalizing t with
  | nil => rfl
  | cons head calls ih => exact congrArg Nat.succ (ih (f t head).2)

section Step

variable {code : κ → Critical α β ρ} {s t : Locked ι α β ρ κ} {e : LockedEvent ι κ}

inductive LockedEffect (code : κ → Critical α β ρ) (s : Locked ι α β ρ κ) :
    LockedEvent ι κ → Locked ι α β ρ κ → Prop where
  | take (party : ι) (call : κ) (hfree : s.inside = none) :
      LockedEffect code s (.take party call) { s with inside := some (party,call,code call) }
  | store (party : ι) (call : κ) (a : α) (v : β) (next : Critical α β ρ)
      (hin : s.inside = some (party,call,.store a v next)) :
      LockedEffect code s (.access party)
        { s with cells := Function.update s.cells a v, inside := some (party,call,next) }
  | load (party : ι) (call : κ) (a : α) (next : β → Critical α β ρ)
      (hin : s.inside = some (party,call,.load a next)) :
      LockedEffect code s (.access party) { s with inside := some (party,call,next (s.cells a)) }
  | give (party : ι) (call : κ) (answer : ρ) (hin : s.inside = some (party,call,.give answer)) :
      LockedEffect code s (.give party) { s with inside := none, answered := s.answered ++ [(call,answer)] }

theorem lockedStep_effect (h : lockedStep code s e = some t) : LockedEffect code s e t := by
  cases e with
  | take party call =>
    cases hin : s.inside with
    | none =>
      simp only [lockedStep,hin] at h
      exact Option.some.inj h ▸ .take party call hin
    | some inside => simp [lockedStep,hin] at h
  | access party =>
    rcases hin : s.inside with _ | ⟨holder,call,_ | ⟨a,v,next⟩ | ⟨a,next⟩⟩
    · simp [lockedStep,hin] at h
    · simp [lockedStep,hin] at h
    · simp only [lockedStep,hin,Option.ite_none_right_eq_some] at h
      obtain ⟨rfl,h⟩ := h
      exact Option.some.inj h ▸ .store holder call a v next hin
    · simp only [lockedStep,hin,Option.ite_none_right_eq_some] at h
      obtain ⟨rfl,h⟩ := h
      exact Option.some.inj h ▸ .load holder call a next hin
  | give party =>
    rcases hin : s.inside with _ | ⟨holder,call,answer | ⟨a,v,next⟩ | ⟨a,next⟩⟩
    · simp [lockedStep,hin] at h
    · simp only [lockedStep,hin,Option.ite_none_right_eq_some] at h
      obtain ⟨rfl,h⟩ := h
      exact Option.some.inj h ▸ .give holder call answer hin
    · simp [lockedStep,hin] at h
    · simp [lockedStep,hin] at h

/-- A specification on states of its own: related to the cells, and every call alone answers as it
says, leaves them related and touches only cells in `within`. -/
structure Specifies (code : κ → Critical α β ρ) (R : (α → β) → τ → Prop) (f : τ → κ → ρ × τ)
    (within : α → Prop) : Prop where
  answer : ∀ cells t call, R cells t → ((code call).exec cells).1 = (f t call).1
  related : ∀ cells t call, R cells t → R ((code call).exec cells).2 (f t call).2
  touches : ∀ cells t call, R cells t → ∀ a ∈ (code call).touches cells, within a

/-- Where the party inside is in its section, the cells being as the calls that are over left them
otherwise. -/
structure Locked.Sound (s : Locked ι α β ρ κ) (code : κ → Critical α β ρ) (R : (α → β) → τ → Prop)
    (within : α → Prop) (t : τ) : Prop where
  free : s.inside = none → R s.cells t
  taken : ∀ party call rest, s.inside = some (party,call,rest) →
    ∃ cells, R cells t ∧ rest.exec s.cells = (code call).exec cells ∧
      ∀ a ∈ rest.touches s.cells, within a

variable {R : (α → β) → τ → Prop} {f : τ → κ → ρ × τ} {within : α → Prop} {x : τ}

theorem Locked.Sound.step (hspec : Specifies code R f within) (h : s.Sound code R within x)
    (hstep : lockedStep code s e = some t) :
    (t.answered = s.answered ∧ t.Sound code R within x) ∨
      ∃ call, t.answered = s.answered ++ [(call,(f x call).1)] ∧ t.Sound code R within (f x call).2 := by
  cases lockedStep_effect hstep with
  | take party call hfree =>
    refine .inl ⟨rfl,nofun,?_⟩
    intro party' call' rest hin
    obtain ⟨rfl,rfl,rfl⟩ := Option.some.inj hin
    exact ⟨s.cells,h.free hfree,rfl,hspec.touches s.cells x call (h.free hfree)⟩
  | store party call a v next hin =>
    obtain ⟨cells,hR,hexec,htouches⟩ := h.taken party call _ hin
    refine .inl ⟨rfl,nofun,?_⟩
    intro party' call' rest hin'
    obtain ⟨rfl,rfl,rfl⟩ := Option.some.inj hin'
    exact ⟨cells,hR,hexec,fun b hb => htouches b (List.mem_cons_of_mem a hb)⟩
  | load party call a next hin =>
    obtain ⟨cells,hR,hexec,htouches⟩ := h.taken party call _ hin
    refine .inl ⟨rfl,nofun,?_⟩
    intro party' call' rest hin'
    obtain ⟨rfl,rfl,rfl⟩ := Option.some.inj hin'
    exact ⟨cells,hR,hexec,fun b hb => htouches b (List.mem_cons_of_mem a hb)⟩
  | give party call answer hin =>
    obtain ⟨cells,hR,hexec,_⟩ := h.taken party call _ hin
    have hanswer : answer = (f x call).1 := by
      rw [← hspec.answer cells x call hR,← hexec]
      rfl
    have hcells : R s.cells (f x call).2 := by
      have hrelated := hspec.related cells x call hR
      rw [← hexec] at hrelated
      exact hrelated
    exact .inr ⟨call,by rw [hanswer],fun _ => hcells,nofun⟩

end Step

section Runs

variable {code : κ → Critical α β ρ} {R : (α → β) → τ → Prop} {f : τ → κ → ρ × τ} {within : α → Prop}
  {cells : α → β} {x : τ} {s : Locked ι α β ρ κ} {es : List (LockedEvent ι κ)}

/-- However the parties' steps interleave, the calls that are over answered as the specification does
when it takes them one after the other, and no access is outside. -/
theorem locked_oneByOne (hspec : Specifies code R f within) (hR : R cells x)
    (h : runEvents (lockedStep code) (⟨cells,none,[]⟩ : Locked ι α β ρ κ) es = some s) :
    s.answered.map Prod.snd = (oneByOne f x (s.answered.map Prod.fst)).1 ∧
      ∀ party call rest a, s.inside = some (party,call,rest) → rest.nextCell = some a → within a := by
  suffices hrun : s.answered.map Prod.snd = (oneByOne f x (s.answered.map Prod.fst)).1 ∧
      s.Sound code R within (oneByOne f x (s.answered.map Prod.fst)).2 by
    refine ⟨hrun.1,?_⟩
    intro party call rest a hin hnext
    obtain ⟨_,_,_,htouches⟩ := hrun.2.taken party call rest hin
    exact htouches a (Critical.nextCell_touches hnext s.cells)
  induction es, s, h using runEvents_induction with
  | nil => exact ⟨rfl,fun _ => hR,nofun⟩
  | concat es s e t hrun hstep ih =>
    obtain ⟨hanswers,hsound⟩ := ih
    rcases hsound.step hspec hstep with ⟨hanswered,ht⟩ | ⟨call,hanswered,ht⟩
    · rw [hanswered]
      exact ⟨hanswers,ht⟩
    · rw [hanswered,List.map_append,List.map_append,List.map_singleton,List.map_singleton,oneByOne_append,
        hanswers]
      exact ⟨rfl,ht⟩

/-- The answer of a call depends on the calls that were over before it, and on nothing else. -/
theorem locked_answer (hspec : Specifies code R f within) (hR : R cells x)
    (h : runEvents (lockedStep code) (⟨cells,none,[]⟩ : Locked ι α β ρ κ) es = some s)
    {before after : List (κ × ρ)} {call : κ} {answer : ρ}
    (hsplit : s.answered = before ++ (call,answer) :: after) :
    answer = (f (oneByOne f x (before.map Prod.fst)).2 call).1 := by
  have hanswers := (locked_oneByOne hspec hR h).1
  rw [hsplit,List.map_append,List.map_append,oneByOne_append] at hanswers
  have hlength : (before.map Prod.snd).length = (oneByOne f x (before.map Prod.fst)).1.length := by
    rw [oneByOne_length,List.length_map,List.length_map]
  exact (List.cons.inj (List.append_inj hanswers hlength).2).1

end Runs

end Esp32Ipc.Framework
