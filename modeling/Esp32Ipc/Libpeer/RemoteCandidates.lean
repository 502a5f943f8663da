import Esp32Ipc.Framework.Run

/-!
# Remote candidates

Candidates of the remote peer come as lines of its description and one by one. Each is parsed
straight into the entry at the running count, and the count then moves past the entry, or does not
and the entry is written over by the next. An access outside the array gives `none`.
-/

namespace Esp32Ipc

open Framework

def agentMaxCandidates : Nat := 10

variable {Candidate Foundation : Type}

/-- `remote_candidates` and `remote_candidates_count` of an agent. -/
structure Agent (Candidate : Type) where
  remoteCandidates : Fin agentMaxCandidates → Candidate
  remoteCandidatesCount : Nat

/-- How `ice_candidate_from_description` parses a candidate: what it returns and what it leaves in
the entry it is given. -/
structure ParsedCandidate (Candidate : Type) where
  ret : Int
  entry : Candidate

inductive CandidateEvent (Candidate : Type) where
  | line (parsed : ParsedCandidate Candidate)
  | add (parsed : ParsedCandidate Candidate)

def CandidateEvent.parsed : CandidateEvent Candidate → ParsedCandidate Candidate
  | .line parsed => parsed
  | .add parsed => parsed

namespace Agent

def get (a : Agent Candidate) (i : Nat) : Option Candidate :=
  if h : i < agentMaxCandidates then some (a.remoteCandidates ⟨i,h⟩) else none

/-- `ice_candidate_from_description` on the entry at the count. -/
def writeNext (a : Agent Candidate) (entry : Candidate) : Option (Agent Candidate) :=
  if h : a.remoteCandidatesCount < agentMaxCandidates then
    some { a with
      remoteCandidates := Function.update a.remoteCandidates ⟨a.remoteCandidatesCount,h⟩ entry }
  else none

end Agent

section Calls

/-- `peer_connection_add_ice_candidate`, with what it returns. -/
def peerConnectionAddIceCandidate (a : Agent Candidate) (parsed : ParsedCandidate Candidate) :
    Option (Agent Candidate × Int) :=
  (a.writeNext parsed.entry).map fun a =>
    if parsed.ret < 0 then (a,-1)
    else if parsed.ret = 0 then
      ({ a with remoteCandidatesCount := a.remoteCandidatesCount + 1 },0)
    else (a,0)

variable [DecidableEq Foundation] (foundation : Candidate → Foundation) (countAfter : Nat → Nat → Nat)

/-- The search of `agent_set_remote_description` for an entry with the foundation of the new one. -/
def findFoundation (a : Agent Candidate) : Nat → Nat → Option Nat
  | 0, i => some i
  | fuel + 1, i =>
    if i < a.remoteCandidatesCount then
      (a.get i).bind fun c => (a.get a.remoteCandidatesCount).bind fun new =>
        if foundation c = foundation new then some i else findFoundation a fuel (i + 1)
    else some i

/-- The `a=candidate` branch of `agent_set_remote_description`. The patch shows it up to the search;
what the rest does to the count when the search stopped at `i` is `countAfter i`. -/
def agentSetRemoteDescription (a : Agent Candidate) (parsed : ParsedCandidate Candidate) :
    Option (Agent Candidate) :=
  (a.writeNext parsed.entry).bind fun a =>
    if parsed.ret = 0 then
      (findFoundation foundation a a.remoteCandidatesCount 0).map fun i =>
        { a with remoteCandidatesCount := countAfter i a.remoteCandidatesCount }
    else some a

def candidateStep (a : Agent Candidate) : CandidateEvent Candidate → Option (Agent Candidate)
  | .line parsed => agentSetRemoteDescription foundation countAfter a parsed
  | .add parsed => (peerConnectionAddIceCandidate a parsed).map (·.1)

end Calls

/-- The count goes up by one when no entry has the foundation of the new one, and stays otherwise. -/
structure CountsNew (countAfter : Nat → Nat → Nat) : Prop where
  new : ∀ count, countAfter count count = count + 1
  known : ∀ i count, i < count → countAfter i count = count

section Kept

variable [DecidableEq Foundation] (foundation : Candidate → Foundation)

/-- The candidate is usable, and if it comes in a description its foundation is not among those
kept. -/
def CandidateEvent.Wanted (kept : List Candidate) : CandidateEvent Candidate → Prop
  | .line parsed => parsed.ret = 0 ∧ ∀ c ∈ kept, foundation c ≠ foundation parsed.entry
  | .add parsed => parsed.ret = 0

instance (kept : List Candidate) (e : CandidateEvent Candidate) :
    Decidable (e.Wanted foundation kept) :=
  match e with
  | .line parsed => inferInstanceAs (Decidable (parsed.ret = 0 ∧ ∀ c ∈ kept, _ ≠ _))
  | .add parsed => inferInstanceAs (Decidable (parsed.ret = 0))

/-- Keep a wanted candidate if there is still room for it. -/
def keepFitting (kept : List Candidate) (e : CandidateEvent Candidate) : List Candidate :=
  if e.Wanted foundation kept ∧ kept.length < agentMaxCandidates then kept ++ [e.parsed.entry]
  else kept

def firstThatFit (events : List (CandidateEvent Candidate)) : List Candidate :=
  events.foldl (keepFitting foundation) []

end Kept

/-- The entries up to the count are those of `kept`. -/
structure Agent.Holds (a : Agent Candidate) (kept : List Candidate) : Prop where
  count : a.remoteCandidatesCount = kept.length
  entries : ∀ i (h : i < kept.length), a.get i = some kept[i]

/-- Along the run no access leaves the array, the count stays within it, a candidate that is skipped
or malformed leaves the count as it is, and the entries are the first candidates that fit. -/
structure KeepsFirst [DecidableEq Foundation] (foundation : Candidate → Foundation)
    (countAfter : Nat → Nat → Nat) (a : Agent Candidate) (events : List (CandidateEvent Candidate)) :
    Prop where
  run : ∀ seen, seen <+: events → ∃ t, runEvents (candidateStep foundation countAfter) a seen =
    some t ∧ t.remoteCandidatesCount ≤ agentMaxCandidates ∧ t.Holds (firstThatFit foundation seen)
  skipped : ∀ m ∈ moments (candidateStep foundation countAfter) a events, m.2.parsed.ret ≠ 0 →
    ∀ t, candidateStep foundation countAfter m.1 m.2 = some t →
      t.remoteCandidatesCount = m.1.remoteCandidatesCount

section Entries

variable {a : Agent Candidate} {kept : List Candidate}

theorem writeNext_full (entry : Candidate) (h : a.Holds kept) (hfull : agentMaxCandidates ≤ kept.length) :
    a.writeNext entry = none := by
  rw [Agent.writeNext,dif_neg]
  rw [h.count]
  omega

theorem writeNext_holds (entry : Candidate) (h : a.Holds kept)
    (hroom : kept.length < agentMaxCandidates) :
    ∃ t, a.writeNext entry = some t ∧ t.Holds kept ∧ t.get kept.length = some entry := by
  have hcount := h.count
  refine ⟨_,dif_pos (by omega),⟨hcount,?_⟩,?_⟩
  · intro i hi
    have hne : (⟨i,by omega⟩ : Fin agentMaxCandidates) ≠ ⟨a.remoteCandidatesCount,by omega⟩ := by
      rw [Ne,Fin.mk.injEq]
      omega
    rw [← h.entries i hi]
    simp only [Agent.get,Function.update_of_ne hne]
  · simp [Agent.get,hroom,hcount]

theorem Agent.Holds.push {entry : Candidate} (h : a.Holds kept)
    (hnew : a.get kept.length = some entry) :
    ({ a with remoteCandidatesCount := kept.length + 1 } : Agent Candidate).Holds
      (kept ++ [entry]) where
  count := by rw [List.length_append,List.length_singleton]
  entries i hi := by
    rw [List.length_append,List.length_singleton] at hi
    rcases Nat.lt_or_ge i kept.length with hlt | hge
    · rw [List.getElem_append_left hlt]
      exact h.entries i hlt
    · obtain rfl : i = kept.length := by omega
      rw [List.getElem_append_right (le_refl _)]
      simp only [Nat.sub_self,List.getElem_cons_zero]
      exact hnew

variable [DecidableEq Foundation] (foundation : Candidate → Foundation)

theorem findFoundation_spec {entry : Candidate} (h : a.Holds kept)
    (hnew : a.get kept.length = some entry) (fuel i : Nat) (hi : i ≤ kept.length)
    (hfuel : kept.length ≤ i + fuel) :
    (∃ j, findFoundation foundation a fuel i = some j ∧ j < kept.length ∧
      ∃ c ∈ kept, foundation c = foundation entry) ∨
    findFoundation foundation a fuel i = some kept.length ∧
      ∀ c ∈ kept.drop i, foundation c ≠ foundation entry := by
  induction fuel generalizing i with
  | zero =>
    obtain rfl : i = kept.length := by omega
    exact .inr ⟨rfl,by simp⟩
  | succ fuel ih =>
    rw [findFoundation,h.count]
    by_cases hlt : i < kept.length
    · rw [if_pos hlt,h.entries i hlt,Option.bind_some,hnew,Option.bind_some]
      by_cases hsame : foundation kept[i] = foundation entry
      · rw [if_pos hsame]
        exact .inl ⟨i,rfl,hlt,kept[i],List.getElem_mem hlt,hsame⟩
      · rw [if_neg hsame]
        rcases ih (i + 1) hlt (by omega) with hfound | ⟨hend,hrest⟩
        · exact .inl hfound
        · refine .inr ⟨hend,?_⟩
          rw [List.drop_eq_getElem_cons hlt]
          exact List.forall_mem_cons.mpr ⟨hsame,hrest⟩
    · rw [if_neg hlt]
      obtain rfl : i = kept.length := by omega
      exact .inr ⟨rfl,by simp⟩

end Entries

section Steps

variable [DecidableEq Foundation] {foundation : Candidate → Foundation} {countAfter : Nat → Nat → Nat}
  {a t : Agent Candidate} {kept : List Candidate}

theorem keepFitting_wanted {e : CandidateEvent Candidate} (h : e.Wanted foundation kept)
    (hroom : kept.length < agentMaxCandidates) :
    keepFitting foundation kept e = kept ++ [e.parsed.entry] := if_pos ⟨h,hroom⟩

theorem keepFitting_unwanted {e : CandidateEvent Candidate} (h : ¬e.Wanted foundation kept) :
    keepFitting foundation kept e = kept := if_neg fun hw => h hw.1

variable (foundation) in
theorem candidateStep_holds (hcount : CountsNew countAfter) (h : a.Holds kept)
    (hroom : kept.length < agentMaxCandidates) (e : CandidateEvent Candidate) :
    ∃ t, candidateStep foundation countAfter a e = some t ∧
      t.Holds (keepFitting foundation kept e) := by
  obtain ⟨t,hwrite,hkept,hnew⟩ := writeNext_holds e.parsed.entry h hroom
  have hpush := hkept.push hnew
  cases e with
  | add parsed =>
    change a.writeNext parsed.entry = some t at hwrite
    simp only [candidateStep,peerConnectionAddIceCandidate,hwrite,Option.map_some,hkept.count]
    by_cases hret : parsed.ret = 0
    · rw [if_neg (by omega),if_pos hret,keepFitting_wanted (e := .add parsed) hret hroom]
      exact ⟨_,rfl,hpush⟩
    · rw [if_neg hret,keepFitting_unwanted (e := .add parsed) hret]
      split <;> exact ⟨t,rfl,hkept⟩
  | line parsed =>
    change a.writeNext parsed.entry = some t at hwrite
    simp only [candidateStep,agentSetRemoteDescription,hwrite,Option.bind_some,hkept.count]
    by_cases hret : parsed.ret = 0
    · rw [if_pos hret]
      rcases findFoundation_spec foundation hkept hnew kept.length 0 (Nat.zero_le _) (by omega) with
        ⟨j,hfind,hj,c,hc,hsame⟩ | ⟨hfind,hfresh⟩
      · rw [hfind,Option.map_some,hcount.known j _ hj,
          keepFitting_unwanted (e := .line parsed) fun hw => hw.2 c hc hsame]
        exact ⟨_,rfl,rfl,hkept.entries⟩
      · rw [List.drop_zero] at hfresh
        rw [hfind,Option.map_some,hcount.new,
          keepFitting_wanted (e := .line parsed) ⟨hret,hfresh⟩ hroom]
        exact ⟨_,rfl,hpush⟩
    · rw [if_neg hret,keepFitting_unwanted (e := .line parsed) fun hw => hret hw.1]
      exact ⟨t,rfl,hkept⟩

theorem candidateStep_full (h : a.Holds kept) (hfull : agentMaxCandidates ≤ kept.length)
    (e : CandidateEvent Candidate) : candidateStep foundation countAfter a e = none := by
  cases e with
  | line parsed =>
    rw [candidateStep,agentSetRemoteDescription,writeNext_full _ h hfull,Option.bind_none]
  | add parsed =>
    rw [candidateStep,peerConnectionAddIceCandidate,writeNext_full _ h hfull,Option.map_none,
      Option.map_none]

theorem writeNext_count {entry : Candidate} (h : a.writeNext entry = some t) :
    t.remoteCandidatesCount = a.remoteCandidatesCount := by
  rw [Agent.writeNext] at h
  split at h
  · cases Option.some.inj h
    rfl
  · simp at h

theorem candidateStep_skipped {e : CandidateEvent Candidate} (hret : e.parsed.ret ≠ 0)
    (h : candidateStep foundation countAfter a e = some t) :
    t.remoteCandidatesCount = a.remoteCandidatesCount := by
  cases e with
  | line parsed =>
    change parsed.ret ≠ 0 at hret
    simp only [candidateStep,agentSetRemoteDescription,Option.bind_eq_some_iff] at h
    obtain ⟨u,hwrite,hrest⟩ := h
    rw [if_neg hret] at hrest
    cases Option.some.inj hrest
    exact writeNext_count hwrite
  | add parsed =>
    change parsed.ret ≠ 0 at hret
    simp only [candidateStep,peerConnectionAddIceCandidate,Option.map_map,
      Option.map_eq_some_iff] at h
    obtain ⟨u,hwrite,rfl⟩ := h
    rw [← writeNext_count hwrite]
    simp only [Function.comp_apply,hret,if_false]
    split <;> rfl

end Steps

section Runs

variable [DecidableEq Foundation] {foundation : Candidate → Foundation} {countAfter : Nat → Nat → Nat}
  {a : Agent Candidate} {events seen : List (CandidateEvent Candidate)}

theorem firstThatFit_concat (events : List (CandidateEvent Candidate)) (e : CandidateEvent Candidate) :
    firstThatFit foundation (events ++ [e]) =
      keepFitting foundation (firstThatFit foundation events) e := by
  rw [firstThatFit,List.foldl_concat]
  rfl

variable (foundation) in
theorem firstThatFit_length_concat (events : List (CandidateEvent Candidate))
    (e : CandidateEvent Candidate) :
    (firstThatFit foundation events).length ≤ (firstThatFit foundation (events ++ [e])).length ∧
      (firstThatFit foundation (events ++ [e])).length ≤
        (firstThatFit foundation events).length + 1 := by
  rw [firstThatFit_concat,keepFitting]
  split
  · rw [List.length_append,List.length_singleton]
    omega
  · omega

theorem firstThatFit_mono (h : seen <+: events) :
    (firstThatFit foundation seen).length ≤ (firstThatFit foundation events).length := by
  obtain ⟨rest,rfl⟩ := h
  induction rest using List.reverseRecOn with
  | nil => rw [List.append_nil]
  | append_singleton rest e ih =>
    rw [← List.append_assoc]
    exact ih.trans (firstThatFit_length_concat foundation _ e).1

/-- While the array has room the run keeps the first candidates. -/
theorem candidates_run (hcount : CountsNew countAfter) (ha : a.Holds [])
    (seen : List (CandidateEvent Candidate))
    (hroom : ∀ before e, before ++ [e] <+: seen →
      (firstThatFit foundation before).length < agentMaxCandidates) :
    ∃ t, runEvents (candidateStep foundation countAfter) a seen = some t ∧
      t.Holds (firstThatFit foundation seen) := by
  induction seen using List.reverseRecOn with
  | nil => exact ⟨a,rfl,ha⟩
  | append_singleton seen e ih =>
    obtain ⟨t,hrun,hholds⟩ := ih fun before f h => hroom before f (h.trans (List.prefix_append _ _))
    obtain ⟨u,hstep,hkept⟩ := candidateStep_holds foundation hcount hholds
      (hroom seen e List.prefix_rfl) e
    refine ⟨u,runEvents_concat.mpr ⟨t,hrun,hstep⟩,?_⟩
    rw [firstThatFit_concat]
    exact hkept

/-- Candidates never leave the array exactly when at most nine are kept of all but the last: the
next one is parsed into the entry at the count whether there is one or not. -/
theorem candidates_keepFirst_iff (hcount : CountsNew countAfter) (ha : a.Holds [])
    (events : List (CandidateEvent Candidate)) :
    KeepsFirst foundation countAfter a events ↔
      (firstThatFit foundation events.dropLast).length < agentMaxCandidates := by
  constructor
  · intro h
    rcases List.eq_nil_or_concat' events with rfl | ⟨seen,e,rfl⟩
    · exact Nat.zero_lt_succ 9
    · obtain ⟨t,hrun,_,hholds⟩ := h.run seen (List.prefix_append _ _)
      obtain ⟨u,hrun',_⟩ := h.run (seen ++ [e]) List.prefix_rfl
      obtain ⟨t',hseen,hstep⟩ := runEvents_concat.mp hrun'
      obtain rfl : t = t' := Option.some.inj (hrun.symm.trans hseen)
      rw [List.dropLast_concat]
      by_contra hfull
      rw [candidateStep_full hholds (by omega) e] at hstep
      exact absurd hstep (by simp)
  · intro hroom
    have hbefore : ∀ before e, before ++ [e] <+: events →
        (firstThatFit foundation before).length < agentMaxCandidates := by
      intro before e ⟨rest,hrest⟩
      refine (firstThatFit_mono ?_).trans_lt hroom
      rw [← hrest,List.append_assoc,List.dropLast_append_of_ne_nil (by simp)]
      exact List.prefix_append _ _
    refine ⟨?_,fun m _ hret t => candidateStep_skipped hret⟩
    intro seen hseen
    obtain ⟨t,hrun,hholds⟩ := candidates_run hcount ha seen fun before e h =>
      hbefore before e (h.trans hseen)
    refine ⟨t,hrun,?_,hholds⟩
    rw [hholds.count]
    rcases List.eq_nil_or_concat' seen with rfl | ⟨before,e,rfl⟩
    · exact Nat.zero_le _
    · exact (firstThatFit_length_concat foundation before e).2.trans (hbefore before e hseen)

/-- A usable line, one with the same foundation, a malformed one, and a candidate added later. -/
theorem candidates_keepFirst_iff_four :
    KeepsFirst id (fun i count => if i = count then count + 1 else count) ⟨fun _ => 0,0⟩
        [.line ⟨0,7⟩,.line ⟨0,7⟩,.line ⟨-1,3⟩,.add ⟨0,7⟩] ↔
      (firstThatFit id [.line ⟨0,7⟩,.line ⟨0,7⟩,.line ⟨-1,3⟩,CandidateEvent.add ⟨0,7⟩].dropLast).length <
        agentMaxCandidates := by
  have hcount : CountsNew fun i count => if i = count then count + 1 else count :=
    ⟨fun _ => if_pos rfl,fun _ _ h => if_neg (Nat.ne_of_lt h)⟩
  exact candidates_keepFirst_iff hcount ⟨rfl,by simp⟩ _

/-- The eleventh usable candidate is written past the end of the array. -/
theorem candidates_eleventh :
    ¬KeepsFirst id (fun i count => if i = count then count + 1 else count) ⟨fun _ => 0,0⟩
      ((List.range 11).map fun n => .add ⟨0,n⟩) := by
  intro h
  obtain ⟨t,hrun,_⟩ := h.run _ List.prefix_rfl
  have hnone : runEvents (candidateStep id fun i count => if i = count then count + 1 else count)
      ⟨fun _ => 0,0⟩ ((List.range 11).map fun n => .add ⟨0,n⟩) = none := rfl
  rw [hnone] at hrun
  exact absurd hrun (by simp)

end Runs

end Esp32Ipc
