import Esp32Ipc.Libpeer.PendingOffer

/-!
# Which offer requests are answered

`peer_signaling_on_pub_event` leaves the id of an offer request in `g_ps.id` on the signaling task;
`peer_signaling_onicecandidate` reads it twice on the peer task, to see that there is one and to put
it into the payload, and stores 0 when it is done, whatever the id is by then.
-/

namespace Esp32Ipc

open Framework

def PeerSignalingEvent.request : PeerSignalingEvent → Option Int
  | .processLoop request => request
  | _ => none

def PeerSignalingEvent.description : PeerSignalingEvent → Option String
  | .onicecandidate description => some description
  | _ => none

/-- Serialised already, with `g_ps.id = 0` still to come. -/
def OnicecandidatePoint.pastPrint : OnicecandidatePoint → Bool
  | .idle | .serialising _ => false
  | .testing _ | .dropping _ | .parking _ | .finishing => true

/-- The payloads that may yet be parked. -/
def OnicecandidatePoint.parkable : OnicecandidatePoint → List OfferPayload
  | .testing payload | .parking payload => [payload]
  | .idle | .serialising _ | .dropping _ | .finishing => []

def OnicecandidatePoint.described : OnicecandidatePoint → List String
  | .serialising description => [description]
  | .idle | .testing _ | .dropping _ | .parking _ | .finishing => []

namespace PeerSignaling

/-- The request that the next payload will carry. -/
def answerable (s : PeerSignaling) : List Int :=
  match s.producer with
  | .idle => if 0 < s.id then [s.id] else []
  | .serialising _ => [s.id]
  | _ => []

/-- `g_ps.id` holds a request that `onicecandidate` has still to put into a payload. -/
def Waits (s : PeerSignaling) (id : Int) : Prop := s.producer.pastPrint = false ∧ s.id = id

/-- Nothing more is serialised before the next request. -/
def Spent (s : PeerSignaling) : Prop := s.producer.pastPrint = true ∨ s.producer = .idle ∧ s.id = 0

end PeerSignaling

/-- A `cJSON_PrintUnformatted` that gets its memory. -/
def Prints (m : PeerSignaling × PeerSignalingEvent) : Prop :=
  m.2 = .print ∧ m.1.heap.alloc.1 ≠ none

section Histories

open PeerSignaling

variable {s t : PeerSignaling} {e : PeerSignalingEvent}

/-- A request is used up by the payload that carries it, by the next request or by the `id = 0`. -/
theorem answerable_step (hstep : peerSignalingStep s e = some t) :
    (t.built.map OfferPayload.id ++ t.answerable).Sublist
      (s.built.map OfferPayload.id ++ s.answerable ++ e.request.toList) := by
  cases peerSignalingStep_effect hstep with
  | posted | nothing | found | clear | publish | release => exact List.sublist_append_left _ _
  | requested hproducer hid => simp [answerable,hproducer,hid]
  | printed hproducer | outOfMemory hproducer | occupied hproducer | empty hproducer
  | drop hproducer | park hproducer => simp [answerable,hproducer]
  | finish hproducer => simp [answerable,hproducer]
  | @processLoop request hconsumer =>
    cases request with
    | none => exact List.sublist_append_left _ _
    | some id =>
      have hone : ({ s with id := id, consumer := .idle } : PeerSignaling).answerable.Sublist [id] := by
        simp only [answerable]
        split
        · split_ifs
          · exact List.Sublist.refl _
          · exact List.nil_sublist _
        · exact List.Sublist.refl _
        · exact List.nil_sublist _
      exact (List.sublist_append_left _ _).append hone

theorem described_step (hstep : peerSignalingStep s e = some t) :
    (t.built.map OfferPayload.result ++ t.producer.described).Sublist
      (s.built.map OfferPayload.result ++ s.producer.described ++ e.description.toList) := by
  cases peerSignalingStep_effect hstep with
  | posted | nothing | found | clear | publish | release | processLoop => exact List.sublist_append_left _ _
  | requested hproducer | printed hproducer | outOfMemory hproducer | occupied hproducer
  | empty hproducer | drop hproducer | park hproducer | finish hproducer =>
    simp [OnicecandidatePoint.described,PeerSignalingEvent.description,hproducer]

theorem parkable_step (h : (s.parked ++ s.producer.parkable).Sublist s.built)
    (hstep : peerSignalingStep s e = some t) : (t.parked ++ t.producer.parkable).Sublist t.built := by
  cases peerSignalingStep_effect hstep with
  | posted | nothing | found | clear | publish | release | processLoop => exact h
  | requested hproducer | outOfMemory hproducer | empty hproducer | drop hproducer | finish hproducer =>
    rw [hproducer] at h
    exact h
  | printed hproducer =>
    rw [hproducer] at h
    have hbuilt : s.parked.Sublist s.built := by simpa [OnicecandidatePoint.parkable] using h
    exact hbuilt.append (List.Sublist.refl _)
  | occupied hproducer =>
    have hbuilt : s.parked.Sublist s.built := (List.sublist_append_left _ _).trans h
    simpa [OnicecandidatePoint.parkable] using hbuilt
  | park hproducer =>
    rw [hproducer] at h
    simpa [OnicecandidatePoint.parkable] using h

end Histories

section Answers

open PeerSignaling

variable {heap : Heap} {es : List PeerSignalingEvent} {s t u : PeerSignaling}

theorem parkable_reachable (h : Reachable peerSignalingStep (PeerSignaling.start heap) s) :
    (s.parked ++ s.producer.parkable).Sublist s.built :=
  Reachable.invariant (fun _ _ _ => parkable_step) (List.Sublist.refl _) h

theorem history_reachable (h : Reachable peerSignalingStep (PeerSignaling.start heap) s) :
    s.Handshake ∧ s.History := by
  refine Reachable.invariant (I := fun s => s.Handshake ∧ s.History) (fun s e t hs hstep => ?_) ?_ h
  · exact ⟨handshake_step hs.1 hstep,history_step hs.1 hs.2 hstep⟩
  · exact ⟨⟨by simp [PeerSignaling.start],by simp [PeerSignaling.start]⟩,
      ⟨by simp [PeerSignaling.start],rfl,List.Perm.nil⟩⟩

/-- No request is answered twice or out of its turn, and no offer is sent that was not asked for. -/
theorem offers_answerRequests (hrun : runEvents peerSignalingStep (PeerSignaling.start heap) es = some s) :
    ((s.published ++ s.unsent).map OfferPayload.id).Sublist (es.filterMap PeerSignalingEvent.request) ∧
      ((s.published ++ s.unsent).map OfferPayload.result).Sublist
        (es.filterMap PeerSignalingEvent.description) := by
  have hparked : s.parked.Sublist s.built :=
    (List.sublist_append_left _ _).trans (parkable_reachable ⟨es,hrun⟩)
  have hrequests := runEvents_sublist (fun s => s.built.map OfferPayload.id ++ s.answerable) _
    (fun _ _ _ => answerable_step) hrun
  have hdescriptions := runEvents_sublist
    (fun s => s.built.map OfferPayload.result ++ s.producer.described) _
    (fun _ _ _ => described_step) hrun
  rw [(history_reachable ⟨es,hrun⟩).2.parked]
  constructor
  · exact ((hparked.map _).trans (List.sublist_append_left _ _)).trans hrequests
  · exact ((hparked.map _).trans (List.sublist_append_left _ _)).trans hdescriptions

/-- Request 8 comes in after the first look at `g_ps.id` and takes the place of 7. -/
theorem offers_answerRequests_overtaken : ∃ es s,
    runEvents peerSignalingStep (PeerSignaling.start .ample) es = some s ∧
      es.filterMap PeerSignalingEvent.request = [7,8] ∧ s.published = [⟨0,8,"v=0"⟩] ∧
      ((s.published ++ s.unsent).map OfferPayload.id).Sublist (es.filterMap PeerSignalingEvent.request) :=
  ⟨[.loop,.processLoop (some 7),.onicecandidate "v=0",.loop,.processLoop (some 8),.print,.test,.park,
    .loop,.clear,.publish],_,rfl,rfl,rfl,
    (offers_answerRequests (rfl : runEvents peerSignalingStep (PeerSignaling.start .ample) _ = _)).1⟩

end Answers

section Request

open PeerSignaling

variable {es : List PeerSignalingEvent} {s t u : PeerSignaling} {e : PeerSignalingEvent} {id : Int}

theorem spent_step (h : s.Spent) (hquiet : e.request = none) (hstep : peerSignalingStep s e = some t) :
    t.Spent ∧ t.built = s.built ∧ e ≠ .print := by
  cases peerSignalingStep_effect hstep with
  | posted | nothing | found | clear | publish | release => exact ⟨h,rfl,by simp⟩
  | requested hproducer hid | printed hproducer | outOfMemory hproducer =>
    rw [Spent,hproducer] at h
    simp [OnicecandidatePoint.pastPrint] at h
    try omega
  | occupied | empty | drop | park => exact ⟨.inl rfl,rfl,by simp⟩
  | finish => exact ⟨.inr ⟨rfl,rfl⟩,rfl,by simp⟩
  | processLoop =>
    obtain rfl := hquiet
    exact ⟨h,rfl,by simp⟩

theorem waits_step (h : s.Waits id) (hquiet : e.request = none) (hstep : peerSignalingStep s e = some t) :
    t.Waits id ∧ t.built = s.built ∧ e ≠ .print ∨
      t.Spent ∧ ((t.built = s.built ∧ ¬Prints (s,e)) ∨
        (∃ p : OfferPayload, p.id = id ∧ t.built = s.built ++ [p]) ∧ Prints (s,e)) := by
  obtain ⟨hpast,hid⟩ := h
  cases peerSignalingStep_effect hstep with
  | posted | nothing | found | clear | publish | release => exact .inl ⟨⟨hpast,hid⟩,rfl,by simp⟩
  | requested => exact .inl ⟨⟨rfl,hid⟩,rfl,by simp⟩
  | outOfMemory _ halloc =>
    exact .inr ⟨.inl rfl,.inl ⟨rfl,fun hprints => hprints.2 (congrArg Prod.fst halloc)⟩⟩
  | printed _ halloc =>
    refine .inr ⟨.inl rfl,.inr ⟨⟨_,hid,rfl⟩,rfl,?_⟩⟩
    rw [halloc]
    simp
  | occupied hproducer | empty hproducer | drop hproducer | park hproducer | finish hproducer =>
    rw [hproducer] at hpast
    cases hpast
  | processLoop =>
    obtain rfl := hquiet
    exact .inl ⟨⟨hpast,hid⟩,rfl,by simp⟩

theorem spent_run (h : s.Spent) (hrun : runEvents peerSignalingStep s es = some t)
    (hquiet : ∀ e ∈ es, e.request = none) :
    t.Spent ∧ t.built = s.built ∧ ∀ m ∈ moments peerSignalingStep s es, ¬Prints m := by
  induction es, t, hrun using runEvents_induction with
  | nil => exact ⟨h,rfl,by simp [moments]⟩
  | concat es t e u hrun hstep ih =>
    obtain ⟨ht,hbuilt,hnone⟩ := ih fun f hf => hquiet f (List.mem_append_left _ hf)
    obtain ⟨hu,hlast,hprint⟩ := spent_step ht (hquiet e (by simp)) hstep
    refine ⟨hu,hlast.trans hbuilt,?_⟩
    rw [moments_concat hrun]
    intro m hm
    rcases List.mem_append.mp hm with hm | hm
    · exact hnone m hm
    · rw [List.mem_singleton.mp hm]
      exact fun hprints => hprint hprints.1

theorem waits_run (h : s.Waits id) (hrun : runEvents peerSignalingStep s es = some t)
    (hquiet : ∀ e ∈ es, e.request = none) :
    (t.built = s.built ∧ ∀ m ∈ moments peerSignalingStep s es, ¬Prints m) ∨
      (∃ p : OfferPayload, p.id = id ∧ t.built = s.built ++ [p]) ∧
        ∃ m ∈ moments peerSignalingStep s es, Prints m := by
  induction es generalizing s with
  | nil =>
    obtain rfl : s = t := Option.some.inj hrun
    exact .inl ⟨rfl,by simp [moments]⟩
  | cons e es ih =>
    obtain ⟨u,hstep,hrest⟩ := Option.bind_eq_some_iff.mp hrun
    have hlater : ∀ f ∈ es, f.request = none := fun f hf => hquiet f (List.mem_cons_of_mem _ hf)
    rw [moments_cons hstep]
    rcases waits_step h (hquiet e List.mem_cons_self) hstep with
      ⟨hu,hbuilt,hprint⟩ | ⟨hu,⟨hbuilt,hprint⟩ | ⟨⟨p,hp,hbuilt⟩,hprint⟩⟩
    · rcases ih hu hrest hlater with ⟨ht,hnone⟩ | ⟨⟨p,hp,ht⟩,m,hm,hprints⟩
      · exact .inl ⟨ht.trans hbuilt,List.forall_mem_cons.mpr ⟨fun hprints => hprint hprints.1,hnone⟩⟩
      · exact .inr ⟨⟨p,hp,by rw [ht,hbuilt]⟩,m,List.mem_cons_of_mem _ hm,hprints⟩
    · obtain ⟨_,ht,hnone⟩ := spent_run hu hrest hlater
      exact .inl ⟨ht.trans hbuilt,List.forall_mem_cons.mpr ⟨hprint,hnone⟩⟩
    · obtain ⟨_,ht,_⟩ := spent_run hu hrest hlater
      exact .inr ⟨⟨p,hp,ht.trans hbuilt⟩,_,List.mem_cons_self,hprint⟩

theorem request_step (hrequest : peerSignalingStep s (.processLoop (some id)) = some u) :
    u.producer = s.producer ∧ u.id = id ∧ u.built = s.built := by
  cases peerSignalingStep_effect hrequest with
  | processLoop => exact ⟨rfl,rfl,rfl⟩

theorem id_step (hquiet : e.request = none) (hstep : peerSignalingStep s e = some t) :
    t.id = if e = .finish then 0 else s.id := by
  cases peerSignalingStep_effect hstep with
  | processLoop =>
    obtain rfl := hquiet
    rfl
  | _ => rfl

theorem id_run (hrun : runEvents peerSignalingStep s es = some t) (hquiet : ∀ e ∈ es, e.request = none) :
    t.id = if PeerSignalingEvent.finish ∈ es then 0 else s.id := by
  induction es, t, hrun using runEvents_induction with
  | nil => rfl
  | concat es t e u hrun hstep ih =>
    have hbefore := ih fun f hf => hquiet f (List.mem_append_left _ hf)
    rw [id_step (hquiet e (by simp)) hstep,hbefore]
    by_cases he : e = .finish
    · simp [he]
    · simp [he,Ne.symm he]

/-- A request that comes in while `onicecandidate` is past its serialising gets no payload; any other
one is in the next payload that gets its memory. Either way `g_ps.id` holds it up to the first
`g_ps.id = 0` after it. -/
theorem request_answered_iff (hrequest : peerSignalingStep s (.processLoop (some id)) = some u)
    (hrun : runEvents peerSignalingStep u es = some t) (hquiet : ∀ e ∈ es, e.request = none) :
    (t.built = s.built ∨ ∃ p : OfferPayload, p.id = id ∧ t.built = s.built ++ [p]) ∧
      (t.built ≠ s.built ↔
        s.producer.pastPrint = false ∧ ∃ m ∈ moments peerSignalingStep u es, Prints m) ∧
      t.id = if PeerSignalingEvent.finish ∈ es then 0 else id := by
  obtain ⟨hproducer,hid,hsame⟩ := request_step hrequest
  have hlast := id_run hrun hquiet
  rw [hid] at hlast
  rw [← hproducer,← hsame]
  cases hpast : u.producer.pastPrint with
  | true =>
    obtain ⟨_,hbuilt,_⟩ := spent_run (.inl hpast) hrun hquiet
    exact ⟨.inl hbuilt,by simp [hbuilt],hlast⟩
  | false =>
    rcases waits_run ⟨hpast,hid⟩ hrun hquiet with ⟨hbuilt,hnone⟩ | ⟨⟨p,hp,hbuilt⟩,hsome⟩
    · refine ⟨.inl hbuilt,⟨fun h => absurd hbuilt h,?_⟩,hlast⟩
      rintro ⟨_,m,hm,hprints⟩
      exact absurd hprints (hnone m hm)
    · refine ⟨.inr ⟨p,hp,hbuilt⟩,⟨fun _ => ⟨rfl,hsome⟩,fun _ => ?_⟩,hlast⟩
      rw [hbuilt]
      simp

/-- The second request comes in before the `g_ps.id = 0` of the first one's offer. -/
theorem request_answered_iff_cleared : ∃ s u t,
    runEvents peerSignalingStep (PeerSignaling.start .ample) [.loop,.processLoop (some 7),
      .onicecandidate "v=0",.print,.test,.loop] = some s ∧
    peerSignalingStep s (.processLoop (some 8)) = some u ∧
    runEvents peerSignalingStep u [.park,.finish,.onicecandidate "v=0"] = some t ∧ t.built = s.built ∧
    t.id = 0 := by
  refine ⟨_,_,_,rfl,rfl,rfl,?_,rfl⟩
  by_contra hbuilt
  have hwaits := ((request_answered_iff (rfl : peerSignalingStep _ (.processLoop (some 8)) = _)
    (rfl : runEvents peerSignalingStep _ [.park,.finish,.onicecandidate "v=0"] = _) (by decide)).2.1.mp hbuilt).1
  cases hwaits

end Request

end Esp32Ipc
