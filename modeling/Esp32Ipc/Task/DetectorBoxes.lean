import Esp32Ipc.Framework.Critical
import Esp32Ipc.Task.DetectorStart

/-!
# The boxes between the detect task and the encode task

`store_results` writes `s_boxes` and `s_box_count` field by field, and `ped_get_boxes` copies them out
field by field, each with `s_box_mutex` in hand. Both are programs of single loads and stores here.
-/

namespace Esp32Ipc

open Framework

inductive BoxField where
  | x1
  | y1
  | x2
  | y2
  | score
  deriving DecidableEq, Repr

/-- `dl::detect::result_t`. -/
structure DetResult where
  box : List Int
  score : Int
  deriving DecidableEq, Repr

/-- `s_box_count`, or a field of an entry of `s_boxes`. -/
inductive BoxCell where
  | count
  | field (n : Nat) (field : BoxField)
  deriving DecidableEq, Repr

abbrev BoxSection := Critical BoxCell Int (List DetBox)

/-- The loop of `store_results`, with its `n`; what follows it; the answer is nothing. -/
def storeResults : List DetResult → Nat → BoxSection
  | [], n => .store .count n (.give [])
  | res :: results, n =>
    if n ≥ detMaxBox then .store .count n (.give [])
    else
      match res.box with
      | x1 :: y1 :: x2 :: y2 :: _ =>
        .store (.field n .x1) x1 (.store (.field n .y1) y1 (.store (.field n .x2) x2
          (.store (.field n .y2) y2 (.store (.field n .score) res.score (storeResults results (n + 1))))))
      -- fewer than four coordinates: `continue`
      | _ => storeResults results n

/-- The `memcpy` of `ped_get_boxes`, from entry `i` on, `k` entries. -/
def copyBoxes : Nat → Nat → List DetBox → BoxSection
  | _, 0, out => .give out
  | i, k + 1, out =>
    .load (.field i .x1) fun x1 => .load (.field i .y1) fun y1 => .load (.field i .x2) fun x2 =>
      .load (.field i .y2) fun y2 => .load (.field i .score) fun score =>
        copyBoxes (i + 1) k (out ++ [⟨x1,y1,x2,y2,score⟩])

def getBoxes (max : Nat) : BoxSection :=
  .load .count fun count => copyBoxes 0 (if count < max then count.toNat else max) []

inductive BoxCall where
  /-- `store_results` of one inference. -/
  | storeResults (results : List DetResult)
  | getBoxes (max : Nat)
  deriving DecidableEq, Repr

def boxCode : BoxCall → BoxSection
  | .storeResults results => storeResults results 0
  | .getBoxes max => getBoxes max

/-- `s_boxes` and `s_box_count` before the first inference. -/
def boxStatics : BoxCell → Int := fun _ => 0

inductive BoxParty where
  | detect
  | encode
  deriving DecidableEq, Repr

/-- The results that have all coordinates. -/
def wholeBoxes (results : List DetResult) : List DetBox :=
  results.filterMap fun
    | ⟨x1 :: y1 :: x2 :: y2 :: _,score⟩ => some ⟨x1,y1,x2,y2,score⟩
    | _ => none

/-- The calls taken whole, with `ped_get_boxes` as it is elsewhere. -/
def boxCallWhole {elemNum : Nat} (ped : PedDetect elemNum) : BoxCall → List DetBox × PedDetect elemNum
  | .storeResults results => ([],{ ped with boxes := (wholeBoxes results).take detMaxBox })
  | .getBoxes max => (pedGetBoxes ped max,ped)

def BoxCell.InBounds : BoxCell → Prop
  | .count => True
  | .field n _ => n < detMaxBox

/-- Entry `k` of `s_boxes`. -/
def boxEntry (cells : BoxCell → Int) (k : Nat) : DetBox :=
  ⟨cells (.field k .x1),cells (.field k .y1),cells (.field k .x2),cells (.field k .y2),
    cells (.field k .score)⟩

section Copy

variable {cells : BoxCell → Int}

theorem copyBoxes_exec (i k : Nat) (out : List DetBox) :
    (copyBoxes i k out).exec cells = (out ++ (List.range' i k).map (boxEntry cells),cells) := by
  induction k generalizing i out with
  | zero => exact congrArg (·,cells) (List.append_nil out).symm
  | succ k ih =>
    change (copyBoxes (i + 1) k (out ++ [boxEntry cells i])).exec cells = _
    rw [ih,List.append_assoc,List.range'_succ]
    rfl

theorem copyBoxes_touches {i k : Nat} {out : List DetBox} (hbound : i + k ≤ detMaxBox) :
    ∀ a ∈ (copyBoxes i k out).touches cells, a.InBounds := by
  induction k generalizing i out with
  | zero => exact nofun
  | succ k ih =>
    intro a ha
    have hi : i < detMaxBox := by omega
    change a ∈ BoxCell.field i .x1 :: .field i .y1 :: .field i .x2 :: .field i .y2 :: .field i .score ::
      (copyBoxes (i + 1) k (out ++ [boxEntry cells i])).touches cells at ha
    simp only [List.mem_cons] at ha
    rcases ha with rfl | rfl | rfl | rfl | rfl | ha
    · exact hi
    · exact hi
    · exact hi
    · exact hi
    · exact hi
    · exact ih (by omega) a ha

end Copy

section Store

variable {cells : BoxCell → Int}

/-- The stores of the loop body. -/
def writeBox (cells : BoxCell → Int) (n : Nat) (box : DetBox) : BoxCell → Int :=
  Function.update (Function.update (Function.update (Function.update (Function.update cells
    (.field n .x1) box.x1) (.field n .y1) box.y1) (.field n .x2) box.x2) (.field n .y2) box.y2)
    (.field n .score) box.score

theorem boxEntry_writeBox (n : Nat) (box : DetBox) : boxEntry (writeBox cells n box) n = box := by
  simp [boxEntry,writeBox]

theorem boxEntry_writeBox_of_ne {k n : Nat} (hk : k ≠ n) (box : DetBox) :
    boxEntry (writeBox cells n box) k = boxEntry cells k := by
  simp [boxEntry,writeBox,hk]

/-- The entries before `n` are `l`. -/
def EntriesAre (cells : BoxCell → Int) (l : List DetBox) : Prop :=
  ∀ k (hk : k < l.length), boxEntry cells k = l[k]

theorem EntriesAre.write {l : List DetBox} (h : EntriesAre cells l) (box : DetBox) :
    EntriesAre (writeBox cells l.length box) (l ++ [box]) := by
  intro k hk
  rw [List.length_append,List.length_singleton] at hk
  rcases Nat.lt_or_ge k l.length with hold | hnew
  · rw [List.getElem_append_left hold,boxEntry_writeBox_of_ne (by omega)]
    exact h k hold
  · obtain rfl : k = l.length := by omega
    rw [boxEntry_writeBox,List.getElem_concat_length rfl]

theorem storeResults_cons (res : DetResult) (results : List DetResult) {n : Nat} (hn : n < detMaxBox) :
    (wholeBoxes (res :: results) = wholeBoxes results ∧
        storeResults (res :: results) n = storeResults results n) ∨
      ∃ box, wholeBoxes (res :: results) = box :: wholeBoxes results ∧
        (∀ cells, (storeResults (res :: results) n).exec cells =
          (storeResults results (n + 1)).exec (writeBox cells n box)) ∧
        ∀ cells, (storeResults (res :: results) n).touches cells =
          .field n .x1 :: .field n .y1 :: .field n .x2 :: .field n .y2 :: .field n .score ::
            (storeResults results (n + 1)).touches (writeBox cells n box) := by
  have hloop : ¬n ≥ detMaxBox := by omega
  obtain ⟨_ | ⟨x1,_ | ⟨y1,_ | ⟨x2,_ | ⟨y2,box⟩⟩⟩⟩,score⟩ := res
  · exact .inl ⟨rfl,if_neg hloop⟩
  · exact .inl ⟨rfl,if_neg hloop⟩
  · exact .inl ⟨rfl,if_neg hloop⟩
  · exact .inl ⟨rfl,if_neg hloop⟩
  · refine .inr ⟨⟨x1,y1,x2,y2,score⟩,rfl,fun cells => ?_,fun cells => ?_⟩
    · rw [storeResults,if_neg hloop]
      rfl
    · rw [storeResults,if_neg hloop]
      rfl

/-- The cells hold the boxes of one inference. -/
structure BoxesAre (cells : BoxCell → Int) (l : List DetBox) : Prop where
  count : cells .count = l.length
  length_le : l.length ≤ detMaxBox
  entries : EntriesAre cells l

theorem EntriesAre.publish {l : List DetBox} (h : EntriesAre cells l) (hl : l.length ≤ detMaxBox) :
    BoxesAre (Function.update cells .count (l.length : Int)) l where
  count := Function.update_self _ _ _
  length_le := hl
  entries := fun k hk => (h k hk : boxEntry cells k = l[k])

theorem storeResults_exec (results : List DetResult) {l : List DetBox} (h : EntriesAre cells l)
    (hl : l.length ≤ detMaxBox) :
    ((storeResults results l.length).exec cells).1 = [] ∧
      BoxesAre ((storeResults results l.length).exec cells).2
        (l ++ (wholeBoxes results).take (detMaxBox - l.length)) ∧
      ∀ a ∈ (storeResults results l.length).touches cells, a.InBounds := by
  have hcount : ∀ a ∈ [BoxCell.count], a.InBounds := fun a ha => List.mem_singleton.mp ha ▸ trivial
  induction results generalizing l cells with
  | nil =>
    rw [show wholeBoxes [] = [] from rfl,List.take_nil,List.append_nil]
    exact ⟨rfl,h.publish hl,hcount⟩
  | cons res results ih =>
    by_cases hn : l.length < detMaxBox
    · rcases storeResults_cons res results hn with ⟨hwhole,hloop⟩ | ⟨box,hwhole,hexec,htouches⟩
      · rw [hwhole,hloop]
        exact ih h hl
      · have hlength : (l ++ [box]).length = l.length + 1 := List.length_append
        obtain ⟨hanswer,hboxes,hbounds⟩ := ih (h.write box) (by omega)
        rw [hlength] at hanswer hboxes hbounds
        have htake : (box :: wholeBoxes results).take (detMaxBox - l.length) =
            box :: (wholeBoxes results).take (detMaxBox - (l.length + 1)) := by
          rw [show detMaxBox - l.length = detMaxBox - (l.length + 1) + 1 by omega,List.take_succ_cons]
        rw [hwhole,hexec,htouches,htake]
        refine ⟨hanswer,by simpa using hboxes,?_⟩
        intro a ha
        simp only [List.mem_cons] at ha
        rcases ha with rfl | rfl | rfl | rfl | rfl | ha
        · exact hn
        · exact hn
        · exact hn
        · exact hn
        · exact hn
        · exact hbounds a ha
    · have hfull : storeResults (res :: results) l.length = .store .count l.length (.give []) :=
        if_pos (Nat.le_of_not_lt hn)
      rw [hfull,show detMaxBox - l.length = 0 by omega,List.take_zero,List.append_nil]
      exact ⟨rfl,h.publish hl,hcount⟩

end Store

section Calls

variable {elemNum : Nat} {ped : PedDetect elemNum} {cells : BoxCell → Int}

/-- The cells hold the boxes that a detector with a mutex has. -/
def HoldBoxes (cells : BoxCell → Int) (ped : PedDetect elemNum) : Prop :=
  ped.boxMutex ≠ none ∧ BoxesAre cells ped.boxes

theorem BoxesAre.entries_take {l : List DetBox} (h : BoxesAre cells l) (n : Nat) (hn : n ≤ l.length) :
    (List.range' 0 n).map (boxEntry cells) = l.take n := by
  apply List.ext_getElem
  · simp [hn]
  · intro k hk hk'
    rw [List.length_take] at hk'
    rw [List.getElem_map,List.getElem_range',List.getElem_take]
    simpa using h.entries k (by omega)

theorem getBoxes_exec {l : List DetBox} (h : BoxesAre cells l) (max : Nat) :
    (getBoxes max).exec cells = (l.take max,cells) ∧ ∀ a ∈ (getBoxes max).touches cells, a.InBounds := by
  have hle := h.length_le
  have hmin : (if cells .count < max then (cells .count).toNat else max) = min max l.length := by
    rw [h.count]
    split <;> omega
  constructor
  · change (copyBoxes 0 (if cells .count < max then (cells .count).toNat else max) []).exec cells = _
    rw [hmin,copyBoxes_exec,List.nil_append,h.entries_take _ (Nat.min_le_right _ _),
      ← List.take_eq_take_min]
  · intro a ha
    change a ∈ BoxCell.count ::
      (copyBoxes 0 (if cells .count < max then (cells .count).toNat else max) []).touches cells at ha
    rcases List.mem_cons.mp ha with rfl | ha
    · exact trivial
    · exact copyBoxes_touches (by omega) a ha

theorem storeResults_boxes (cells : BoxCell → Int) (results : List DetResult) :
    ((storeResults results 0).exec cells).1 = [] ∧
      BoxesAre ((storeResults results 0).exec cells).2 ((wholeBoxes results).take detMaxBox) ∧
      ∀ a ∈ (storeResults results 0).touches cells, a.InBounds := by
  have hnone : EntriesAre cells [] := fun _ hk => absurd hk (Nat.not_lt_zero _)
  exact storeResults_exec results hnone (Nat.zero_le _)

theorem pedGetBoxes_of_mutex (h : ped.boxMutex ≠ none) (max : Nat) :
    pedGetBoxes ped max = ped.boxes.take max := by
  rw [pedGetBoxes]
  cases hmutex : ped.boxMutex with
  | none => exact absurd hmutex h
  | some mutex => rfl

theorem boxCode_specifies :
    Specifies boxCode (HoldBoxes : (BoxCell → Int) → PedDetect elemNum → Prop) boxCallWhole BoxCell.InBounds where
  answer := by
    intro cells ped call h
    cases call with
    | storeResults results => exact (storeResults_boxes cells results).1
    | getBoxes max =>
      change ((getBoxes max).exec cells).1 = pedGetBoxes ped max
      rw [(getBoxes_exec h.2 max).1,pedGetBoxes_of_mutex h.1]
  related := by
    intro cells ped call h
    cases call with
    | storeResults results => exact ⟨h.1,(storeResults_boxes cells results).2.1⟩
    | getBoxes max =>
      change HoldBoxes ((getBoxes max).exec cells).2 ped
      rw [(getBoxes_exec h.2 max).1]
      exact h
  touches := by
    intro cells ped call h
    cases call with
    | storeResults results => exact (storeResults_boxes cells results).2.2
    | getBoxes max => exact (getBoxes_exec h.2 max).2

def boxesAfter (boxes : List DetBox) : BoxCall → List DetBox
  | .storeResults results => (wholeBoxes results).take detMaxBox
  | .getBoxes _ => boxes

/-- The boxes of the last inference that is over, if there is one. -/
def latestBoxes (calls : List BoxCall) : List DetBox := calls.foldl boxesAfter []

theorem oneByOne_boxes (ped : PedDetect elemNum) (calls : List BoxCall) :
    (oneByOne boxCallWhole ped calls).2 = { ped with boxes := calls.foldl boxesAfter ped.boxes } := by
  induction calls generalizing ped with
  | nil => rfl
  | cons call calls ih =>
    rw [oneByOne,ih]
    cases call <;> rfl

end Calls

section Runs

variable {elemNum : Nat} {s : Locked BoxParty BoxCell Int (List DetBox) BoxCall}
  {es : List (LockedEvent BoxParty BoxCall)}

/-- However the stores of the detect task and the loads of the encode task interleave, each
`ped_get_boxes` hands out the first boxes of the last inference stored before it, never a mixture of
two; and no access leaves `s_boxes`. -/
theorem boxes_snapshot (h : runEvents (lockedStep boxCode) ⟨boxStatics,none,[]⟩ es = some s) :
    (∀ before after max out, s.answered = before ++ (.getBoxes max,out) :: after →
        out = (latestBoxes (before.map Prod.fst)).take max) ∧
      ∀ party call rest a, s.inside = some (party,call,rest) → rest.nextCell = some a → a.InBounds := by
  have hstart : HoldBoxes boxStatics ({ pedStatics with boxMutex := some 0 } : PedDetect 0) :=
    ⟨nofun,rfl,Nat.zero_le _,fun _ hk => absurd hk (Nat.not_lt_zero _)⟩
  refine ⟨?_,(locked_oneByOne boxCode_specifies hstart h).2⟩
  intro before after max out hsplit
  have hanswer := locked_answer boxCode_specifies hstart h hsplit
  rw [oneByOne_boxes] at hanswer
  exact hanswer

def accesses (party : BoxParty) (k : Nat) : List (LockedEvent BoxParty BoxCall) :=
  List.replicate k (.access party)

/-- Before the first inference, after one with a short result, and after one with no pedestrian. -/
def inTurnCalls : List (LockedEvent BoxParty BoxCall) :=
  [.take .encode (.getBoxes 5)] ++ accesses .encode 1 ++
    [.give .encode,.take .detect (.storeResults [⟨[1,2,3,4],80⟩,⟨[5],70⟩,⟨[6,7,8,9],60⟩])] ++
    accesses .detect 11 ++ [.give .detect,.take .encode (.getBoxes 5)] ++ accesses .encode 11 ++
    [.give .encode,.take .detect (.storeResults [])] ++ accesses .detect 1 ++
    [.give .detect,.take .encode (.getBoxes 5)] ++ accesses .encode 1 ++ [.give .encode]

theorem boxes_snapshot_inTurn : ∃ s : Locked BoxParty BoxCell Int (List DetBox) BoxCall,
    runEvents (lockedStep boxCode) ⟨boxStatics,none,[]⟩ inTurnCalls = some s ∧
    s.answered = [(.getBoxes 5,[]),(.storeResults [⟨[1,2,3,4],80⟩,⟨[5],70⟩,⟨[6,7,8,9],60⟩],[]),
      (.getBoxes 5,[⟨1,2,3,4,80⟩,⟨6,7,8,9,60⟩]),(.storeResults [],[]),(.getBoxes 5,[])] ∧
    (∀ before after max out, s.answered = before ++ (.getBoxes max,out) :: after →
        out = (latestBoxes (before.map Prod.fst)).take max) ∧
      ∀ party call rest a, s.inside = some (party,call,rest) → rest.nextCell = some a → a.InBounds := by
  have hrun : runEvents (lockedStep boxCode) ⟨boxStatics,none,[]⟩ inTurnCalls = some _ := rfl
  exact ⟨_,hrun,rfl,boxes_snapshot hrun⟩

end Runs

end Esp32Ipc
