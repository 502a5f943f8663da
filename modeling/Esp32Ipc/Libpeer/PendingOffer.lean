import Esp32Ipc.Framework.Run
import Esp32Ipc.Platform.Ledger

/-!
# Handing an offer to the signaling task

`peer_signaling_onicecandidate` runs on the peer task and parks the offer it has serialised in
`pending_payload`, `peer_signaling_loop` runs on the signaling task, takes it from there and publishes
it. Neither takes a lock. A step is one load or store of `pending_payload`, or what a call does
between two of them.
-/

namespace Esp32Ipc

open Framework

/-- What `cJSON_PrintUnformatted` returned: a block, with the request answered and its result. -/
structure OfferPayload where
  block : Nat
  id : Int
  result : String
  deriving DecidableEq, Repr

/-- `peer_signaling_onicecandidate` between two of its steps: past the check of the id, with the
payload serialised, behind the test of `pending_payload` either way, and before `g_ps.id = 0`. -/
inductive OnicecandidatePoint where
  | idle
  | serialising (description : String)
  | testing (payload : OfferPayload)
  | dropping (payload : OfferPayload)
  | parking (payload : OfferPayload)
  | finishing
  deriving DecidableEq, Repr

/-- `peer_signaling_loop` between two of its steps; `clearing` has loaded the pointer. -/
inductive SignalingPoint where
  | idle
  | clearing (payload : OfferPayload)
  | publishing (payload : OfferPayload)
  | freeing (payload : OfferPayload)
  | processing
  deriving DecidableEq, Repr

/-- `g_ps`, the heap, both tasks, and the history: payloads serialised, dropped, parked and
published, in this order each. -/
structure PeerSignaling where
  id : Int
  pendingPayload : Option OfferPayload
  heap : Heap
  producer : OnicecandidatePoint
  consumer : SignalingPoint
  built : List OfferPayload
  dropped : List OfferPayload
  parked : List OfferPayload
  published : List OfferPayload

def PeerSignaling.start (heap : Heap) : PeerSignaling where
  id := 0
  pendingPayload := none
  heap := heap
  producer := .idle
  consumer := .idle
  built := []
  dropped := []
  parked := []
  published := []

/-- `processLoop` carries the id of an offer request that `MQTT_ProcessLoop` may hand to
`peer_signaling_on_pub_event`. -/
inductive PeerSignalingEvent where
  | onicecandidate (description : String)
  | print
  | test
  | drop
  | park
  | finish
  | loop
  | clear
  | publish
  | release
  | processLoop (request : Option Int)
  deriving DecidableEq, Repr

def PeerSignalingEvent.onPeerTask : PeerSignalingEvent → Bool
  | .onicecandidate _ | .print | .test | .drop | .park | .finish => true
  | .loop | .clear | .publish | .release | .processLoop _ => false

def peerSignalingStep (s : PeerSignaling) : PeerSignalingEvent → Option PeerSignaling
  | .onicecandidate description =>
    match s.producer with
    | .idle =>
      if 0 < s.id then some { s with producer := .serialising description }
      -- the HTTP post
      else some s
    | _ => none
  | .print =>
    match s.producer with
    | .serialising description =>
      match s.heap.alloc with
      | (none, heap) => some { s with heap := heap, producer := .finishing }
      | (some block, heap) =>
        let payload : OfferPayload := ⟨block,s.id,description⟩
        some { s with heap := heap, producer := .testing payload, built := s.built ++ [payload] }
    | _ => none
  | .test =>
    match s.producer with
    | .testing payload =>
      if s.pendingPayload ≠ none then some { s with producer := .dropping payload }
      else some { s with producer := .parking payload }
    | _ => none
  | .drop =>
    match s.producer with
    | .dropping payload =>
      some { s with
        heap := s.heap.free payload.block
        producer := .finishing
        dropped := s.dropped ++ [payload] }
    | _ => none
  | .park =>
    match s.producer with
    | .parking payload =>
      some { s with
        pendingPayload := some payload
        producer := .finishing
        parked := s.parked ++ [payload] }
    | _ => none
  | .finish =>
    match s.producer with
    | .finishing => some { s with id := 0, producer := .idle }
    | _ => none
  | .loop =>
    match s.consumer with
    | .idle =>
      match s.pendingPayload with
      | none => some { s with consumer := .processing }
      | some payload => some { s with consumer := .clearing payload }
    | _ => none
  | .clear =>
    match s.consumer with
    | .clearing payload => some { s with pendingPayload := none, consumer := .publishing payload }
    | _ => none
  | .publish =>
    match s.consumer with
    | .publishing payload =>
      some { s with consumer := .freeing payload, published := s.published ++ [payload] }
    | _ => none
  | .release =>
    match s.consumer with
    | .freeing payload =>
      some { s with heap := s.heap.free payload.block, consumer := .processing }
    | _ => none
  | .processLoop request =>
    match s.consumer with
    | .processing => some { s with id := request.getD s.id, consumer := .idle }
    | _ => none

def OnicecandidatePoint.inHand : OnicecandidatePoint → List OfferPayload
  | .testing payload | .dropping payload | .parking payload => [payload]
  | .idle | .serialising _ | .finishing => []

/-- From the clearing of the pointer to the `free`. -/
def SignalingPoint.inHand : SignalingPoint → List OfferPayload
  | .publishing payload | .freeing payload => [payload]
  | .idle | .clearing _ | .processing => []

def SignalingPoint.unsent : SignalingPoint → List OfferPayload
  | .publishing payload => [payload]
  | .idle | .clearing _ | .freeing _ | .processing => []

namespace PeerSignaling

/-- The payloads not freed. -/
def held (s : PeerSignaling) : List OfferPayload :=
  s.producer.inHand ++ (s.pendingPayload.toList ++ s.consumer.inHand)

/-- The payloads parked and not published, the next one first. -/
def unsent (s : PeerSignaling) : List OfferPayload :=
  s.consumer.unsent ++ s.pendingPayload.toList

end PeerSignaling

inductive PayloadPlace where
  | producer
  | dropped
  | pending
  | consumer
  | published
  deriving DecidableEq, Repr

def PeerSignaling.At (s : PeerSignaling) (p : OfferPayload) : PayloadPlace → Prop
  | .producer => p ∈ s.producer.inHand ∧ p.block ∈ s.heap.live
  | .dropped => p ∈ s.dropped ∧ p.block ∉ s.heap.live
  | .pending => s.pendingPayload = some p ∧ p.block ∈ s.heap.live
  | .consumer => p ∈ s.consumer.inHand ∧ p.block ∈ s.heap.live
  | .published => p ∈ s.published ∧ p.block ∉ s.heap.live

/-- Over the run to `s`: every payload is in one place and the heap holds just those not freed;
payloads are published once and in the order they were parked, by the signaling task, and are live
when they are; a pointer that is set is only ever taken out, and a payload is dropped only for an
earlier one still unsent. -/
structure HandsOver (heap : Heap) (es : List PeerSignalingEvent) (s : PeerSignaling) : Prop where
  distinct : (s.built.map OfferPayload.block).Nodup
  place : ∀ p ∈ s.built, ∃! place, s.At p place
  live : s.heap.live = heap.live ∪ (s.held.map OfferPayload.block).toFinset
  faults : s.heap.faults = heap.faults
  once : s.published.Nodup
  order : s.published ++ s.unsent = s.parked
  use : ∀ m ∈ moments peerSignalingStep (PeerSignaling.start heap) es, m.2 = .publish →
    ∀ p, m.1.consumer = .publishing p → p.block ∈ m.1.heap.live
  overwrite : ∀ m ∈ moments peerSignalingStep (PeerSignaling.start heap) es, ∀ t p,
    peerSignalingStep m.1 m.2 = some t → m.1.pendingPayload = some p →
    t.pendingPayload = some p ∨ t.pendingPayload = none ∧ t.consumer = .publishing p
  drop : ∀ m ∈ moments peerSignalingStep (PeerSignaling.start heap) es, ∀ t p,
    peerSignalingStep m.1 m.2 = some t → m.2 = .test → t.producer = .dropping p →
    ∃ earlier, m.1.pendingPayload = some earlier ∧ earlier ∈ m.1.parked ∧ earlier ∉ m.1.published
  publisher : ∀ m ∈ moments peerSignalingStep (PeerSignaling.start heap) es, ∀ t,
    peerSignalingStep m.1 m.2 = some t → m.2.onPeerTask = true → t.published = m.1.published

section Steps

variable {s t : PeerSignaling} {e : PeerSignalingEvent}

/-- What the steps do. -/
inductive PeerSignalingEffect (s : PeerSignaling) : PeerSignalingEvent → PeerSignaling → Prop where
  | requested {description : String} (hproducer : s.producer = .idle) (hid : 0 < s.id) :
      PeerSignalingEffect s (.onicecandidate description)
        { s with producer := .serialising description }
  | posted {description : String} : PeerSignalingEffect s (.onicecandidate description) s
  | outOfMemory {description : String} {heap : Heap} (hproducer : s.producer = .serialising description)
      (halloc : s.heap.alloc = (none,heap)) :
      PeerSignalingEffect s .print { s with heap := heap, producer := .finishing }
  | printed {description : String} {block : Nat} {heap : Heap}
      (hproducer : s.producer = .serialising description) (halloc : s.heap.alloc = (some block,heap)) :
      PeerSignalingEffect s .print { s with
        heap := heap
        producer := .testing ⟨block,s.id,description⟩
        built := s.built ++ [⟨block,s.id,description⟩] }
  | occupied {payload earlier : OfferPayload} (hproducer : s.producer = .testing payload)
      (hpending : s.pendingPayload = some earlier) :
      PeerSignalingEffect s .test { s with producer := .dropping payload }
  | empty {payload : OfferPayload} (hproducer : s.producer = .testing payload)
      (hpending : s.pendingPayload = none) :
      PeerSignalingEffect s .test { s with producer := .parking payload }
  | drop {payload : OfferPayload} (hproducer : s.producer = .dropping payload) :
      PeerSignalingEffect s .drop { s with
        heap := s.heap.free payload.block
        producer := .finishing
        dropped := s.dropped ++ [payload] }
  | park {payload : OfferPayload} (hproducer : s.producer = .parking payload) :
      PeerSignalingEffect s .park { s with
        pendingPayload := some payload
        producer := .finishing
        parked := s.parked ++ [payload] }
  | finish (hproducer : s.producer = .finishing) :
      PeerSignalingEffect s .finish { s with id := 0, producer := .idle }
  | nothing (hconsumer : s.consumer = .idle) :
      PeerSignalingEffect s .loop { s with consumer := .processing }
  | found {payload : OfferPayload} (hconsumer : s.consumer = .idle)
      (hpending : s.pendingPayload = some payload) :
      PeerSignalingEffect s .loop { s with consumer := .clearing payload }
  | clear {payload : OfferPayload} (hconsumer : s.consumer = .clearing payload) :
      PeerSignalingEffect s .clear
        { s with pendingPayload := none, consumer := .publishing payload }
  | publish {payload : OfferPayload} (hconsumer : s.consumer = .publishing payload) :
      PeerSignalingEffect s .publish
        { s with consumer := .freeing payload, published := s.published ++ [payload] }
  | release {payload : OfferPayload} (hconsumer : s.consumer = .freeing payload) :
      PeerSignalingEffect s .release
        { s with heap := s.heap.free payload.block, consumer := .processing }
  | processLoop {request : Option Int} (hconsumer : s.consumer = .processing) :
      PeerSignalingEffect s (.processLoop request)
        { s with id := request.getD s.id, consumer := .idle }

theorem peerSignalingStep_effect (hstep : peerSignalingStep s e = some t) :
    PeerSignalingEffect s e t := by
  cases e with
  | onicecandidate description =>
    simp only [peerSignalingStep] at hstep
    split at hstep
    next hproducer =>
      split_ifs at hstep with hid
      · rw [← Option.some.inj hstep]
        exact .requested hproducer hid
      · rw [← Option.some.inj hstep]
        exact .posted
    next => cases hstep
  | print =>
    simp only [peerSignalingStep] at hstep
    split at hstep
    next description hproducer =>
      split at hstep
      next heap halloc =>
        rw [← Option.some.inj hstep]
        exact .outOfMemory hproducer halloc
      next block heap halloc =>
        rw [← Option.some.inj hstep]
        exact .printed hproducer halloc
    next => cases hstep
  | test =>
    simp only [peerSignalingStep] at hstep
    split at hstep
    next payload hproducer =>
      split_ifs at hstep with hpending
      · obtain ⟨earlier,hpending⟩ := Option.ne_none_iff_exists'.mp hpending
        rw [← Option.some.inj hstep]
        exact .occupied hproducer hpending
      · rw [← Option.some.inj hstep]
        exact .empty hproducer (not_not.mp hpending)
    next => cases hstep
  | drop =>
    simp only [peerSignalingStep] at hstep
    split at hstep
    next payload hproducer =>
      rw [← Option.some.inj hstep]
      exact .drop hproducer
    next => cases hstep
  | park =>
    simp only [peerSignalingStep] at hstep
    split at hstep
    next payload hproducer =>
      rw [← Option.some.inj hstep]
      exact .park hproducer
    next => cases hstep
  | finish =>
    simp only [peerSignalingStep] at hstep
    split at hstep
    next hproducer =>
      rw [← Option.some.inj hstep]
      exact .finish hproducer
    next => cases hstep
  | loop =>
    simp only [peerSignalingStep] at hstep
    split at hstep
    next hconsumer =>
      split at hstep
      next hpending =>
        rw [← Option.some.inj hstep]
        exact .nothing hconsumer
      next payload hpending =>
        rw [← Option.some.inj hstep]
        exact .found hconsumer hpending
    next => cases hstep
  | clear =>
    simp only [peerSignalingStep] at hstep
    split at hstep
    next payload hconsumer =>
      rw [← Option.some.inj hstep]
      exact .clear hconsumer
    next => cases hstep
  | publish =>
    simp only [peerSignalingStep] at hstep
    split at hstep
    next payload hconsumer =>
      rw [← Option.some.inj hstep]
      exact .publish hconsumer
    next => cases hstep
  | release =>
    simp only [peerSignalingStep] at hstep
    split at hstep
    next payload hconsumer =>
      rw [← Option.some.inj hstep]
      exact .release hconsumer
    next => cases hstep
  | processLoop request =>
    simp only [peerSignalingStep] at hstep
    split at hstep
    next hconsumer =>
      rw [← Option.some.inj hstep]
      exact .processLoop hconsumer
    next => cases hstep

end Steps

namespace PeerSignaling

/-- What either task knows of the pointer from its last look at it, the other one notwithstanding. -/
structure Handshake (s : PeerSignaling) : Prop where
  clearing : ∀ p, s.consumer = .clearing p → s.pendingPayload = some p
  parking : ∀ p, s.producer = .parking p → s.pendingPayload = none

/-- The payloads parked are those published and those to come, the rest was dropped or is in the
producer's hand. -/
structure History (s : PeerSignaling) : Prop where
  freeing : ∀ p, s.consumer = .freeing p → p ∈ s.published
  parked : s.published ++ s.unsent = s.parked
  built : s.built.Perm (s.dropped ++ s.parked ++ s.producer.inHand)

/-- The blocks held are those of the payloads held. -/
structure Memory (heap : Heap) (s : PeerSignaling) : Prop where
  took : ∃ asked, heap.Took asked (s.held.map OfferPayload.block) s.heap
  nodup : (s.built.map OfferPayload.block).Nodup
  since : ∀ p ∈ s.built, heap.requests ≤ p.block ∧ p.block < s.heap.requests

end PeerSignaling

section Invariants

open PeerSignaling

variable {heap : Heap} {s t : PeerSignaling} {e : PeerSignalingEvent}

theorem handshake_step (h : s.Handshake) (hstep : peerSignalingStep s e = some t) : t.Handshake := by
  cases peerSignalingStep_effect hstep with
  | posted => exact h
  | requested hproducer | outOfMemory hproducer | printed hproducer | occupied hproducer
  | drop hproducer | finish hproducer => exact ⟨h.clearing,by simp⟩
  | empty hproducer hpending => exact ⟨h.clearing,fun _ _ => hpending⟩
  | @park payload hproducer =>
    refine ⟨fun p hp => ?_,by simp⟩
    have hnone := h.parking payload hproducer
    rw [h.clearing p hp] at hnone
    cases hnone
  | nothing | publish | release | processLoop => exact ⟨by simp,h.parking⟩
  | found hconsumer hpending =>
    refine ⟨?_,h.parking⟩
    rintro _ ⟨⟩
    exact hpending
  | clear => exact ⟨by simp,fun _ _ => rfl⟩

theorem history_step (hshake : s.Handshake) (h : s.History)
    (hstep : peerSignalingStep s e = some t) : t.History := by
  have hparked := h.parked
  have hbuilt := h.built
  cases peerSignalingStep_effect hstep with
  | posted => exact h
  | requested hproducer | outOfMemory hproducer | finish hproducer | occupied hproducer
  | empty hproducer =>
    rw [hproducer] at hbuilt
    exact ⟨h.freeing,h.parked,hbuilt⟩
  | printed hproducer =>
    rw [hproducer] at hbuilt
    exact ⟨h.freeing,h.parked,(hbuilt.trans (by simp [OnicecandidatePoint.inHand])).append_right _⟩
  | @drop payload hproducer =>
    rw [hproducer] at hbuilt
    refine ⟨h.freeing,h.parked,hbuilt.trans ?_⟩
    have hswap : (s.dropped ++ (s.parked ++ [payload])).Perm (s.dropped ++ ([payload] ++ s.parked)) :=
      List.perm_append_comm.append_left _
    simpa [OnicecandidatePoint.inHand] using hswap
  | @park payload hproducer =>
    rw [hproducer] at hbuilt
    rw [unsent,hshake.parking payload hproducer] at hparked
    refine ⟨h.freeing,?_,hbuilt.trans ?_⟩
    · rw [← hparked]
      simp [unsent]
    · simp [OnicecandidatePoint.inHand]
  | nothing hconsumer | processLoop hconsumer =>
    rw [unsent,hconsumer] at hparked
    exact ⟨by simp,hparked,h.built⟩
  | found hconsumer =>
    rw [unsent,hconsumer] at hparked
    exact ⟨by simp,hparked,h.built⟩
  | @clear payload hconsumer =>
    rw [unsent,hconsumer,hshake.clearing payload hconsumer] at hparked
    exact ⟨by simp,hparked,h.built⟩
  | @publish payload hconsumer =>
    rw [unsent,hconsumer] at hparked
    refine ⟨?_,?_,h.built⟩
    · rintro _ ⟨⟩
      exact List.mem_append_right _ List.mem_cons_self
    · rw [← hparked]
      simp [unsent,SignalingPoint.unsent]
  | release hconsumer =>
    rw [unsent,hconsumer] at hparked
    exact ⟨by simp,hparked,h.built⟩

theorem memory_step (hshake : s.Handshake) (h : s.Memory heap)
    (hstep : peerSignalingStep s e = some t) : t.Memory heap := by
  obtain ⟨asked,htook⟩ := h.took
  cases peerSignalingStep_effect hstep with
  | posted => exact h
  | requested hproducer | finish hproducer | occupied hproducer
  | empty hproducer =>
    rw [held,hproducer] at htook
    exact ⟨⟨asked,htook⟩,h.nodup,h.since⟩
  | outOfMemory hproducer halloc =>
    rw [held,hproducer] at htook
    have htook' := htook.of_alloc_none halloc
    refine ⟨⟨_,htook'⟩,h.nodup,fun p hp => ⟨(h.since p hp).1,?_⟩⟩
    have hlt := (h.since p hp).2
    rw [htook.requests] at hlt
    exact hlt.trans (by rw [htook'.requests]; exact Nat.lt_succ_self _)
  | @printed description block heap' hproducer halloc =>
    rw [held,hproducer] at htook
    obtain ⟨htook',hblock⟩ := htook.of_alloc_some halloc
    have hnext : heap'.requests = heap.requests + (asked + 1) := htook'.requests
    have hold : s.heap.requests = heap.requests + asked := htook.requests
    refine ⟨⟨_,htook'⟩,?_,?_⟩
    · rw [List.map_append,List.map_singleton]
      apply List.nodup_append.mpr
      refine ⟨h.nodup,List.nodup_singleton _,?_⟩
      intro b hb c hc
      obtain ⟨p,hp,rfl⟩ := List.mem_map.mp hb
      have hlt := (h.since p hp).2
      have hc : c = block := List.mem_singleton.mp hc
      omega
    · intro p hp
      change heap.requests ≤ p.block ∧ p.block < heap'.requests
      rcases List.mem_append.mp hp with hp | hp
      · have hsince := h.since p hp
        omega
      · have hp : p.block = block := by rw [List.mem_singleton.mp hp]
        omega
  | @drop payload hproducer =>
    rw [held,hproducer] at htook
    refine ⟨⟨asked,htook.free⟩,h.nodup,?_⟩
    simpa using h.since
  | @park payload hproducer =>
    rw [held,hproducer,hshake.parking payload hproducer] at htook
    exact ⟨⟨asked,htook⟩,h.nodup,h.since⟩
  | nothing hconsumer | processLoop hconsumer | found hconsumer | publish hconsumer =>
    rw [held,hconsumer] at htook
    exact ⟨⟨asked,htook⟩,h.nodup,h.since⟩
  | @clear payload hconsumer =>
    rw [held,hconsumer,hshake.clearing payload hconsumer] at htook
    exact ⟨⟨asked,htook⟩,h.nodup,h.since⟩
  | @release payload hconsumer =>
    have hlast : (s.held.map OfferPayload.block).Perm (payload.block ::
        (s.producer.inHand ++ s.pendingPayload.toList).map OfferPayload.block) := by
      rw [held,hconsumer,← List.append_assoc]
      exact List.Perm.map _ (List.perm_append_singleton _ _)
    refine ⟨⟨asked,?_⟩,h.nodup,by simpa using h.since⟩
    have hfree := (htook.perm hlast).free
    simpa [held,SignalingPoint.inHand] using hfree

end Invariants

section Places

open PeerSignaling

variable {heap : Heap} {s : PeerSignaling} {p : OfferPayload}

theorem SignalingPoint.mem_inHand {consumer : SignalingPoint} (hp : p ∈ consumer.unsent) :
    p ∈ consumer.inHand := by
  cases consumer with
  | publishing => exact hp
  | idle | clearing | freeing | processing => cases hp

theorem mem_consumer_inHand (h : s.History) (hp : p ∈ s.consumer.inHand) :
    p ∈ s.consumer.unsent ∨ p ∈ s.published := by
  cases hconsumer : s.consumer with
  | publishing payload =>
    rw [hconsumer] at hp
    exact .inl hp
  | freeing payload =>
    rw [hconsumer] at hp
    rw [List.mem_singleton.mp hp]
    exact .inr (h.freeing payload hconsumer)
  | idle | clearing | processing =>
    rw [hconsumer] at hp
    cases hp

theorem mem_built (h : s.History) : p ∈ s.built ↔
    p ∈ s.dropped ∨ p ∈ s.published ∨ p ∈ s.consumer.unsent ∨ s.pendingPayload = some p ∨
      p ∈ s.producer.inHand := by
  rw [h.built.mem_iff,← h.parked,unsent]
  simp only [List.mem_append,Option.mem_toList]
  tauto

theorem mem_held : p ∈ s.held ↔
    p ∈ s.producer.inHand ∨ s.pendingPayload = some p ∨ p ∈ s.consumer.inHand := by
  simp [held]

theorem held_built (h : s.History) (hp : p ∈ s.held) : p ∈ s.built := by
  rw [mem_built h]
  rcases mem_held.mp hp with hp | hp | hp
  · exact .inr (.inr (.inr (.inr hp)))
  · exact .inr (.inr (.inr (.inl hp)))
  · rcases mem_consumer_inHand h hp with hp | hp
    · exact .inr (.inr (.inl hp))
    · exact .inr (.inl hp)

theorem mem_live_iff (h : s.History) (hmemory : s.Memory heap) (hp : p ∈ s.built) :
    p.block ∈ s.heap.live ↔ p ∈ s.held := by
  obtain ⟨asked,htook⟩ := hmemory.took
  rw [htook.live,Finset.mem_union,List.mem_toFinset,List.mem_map]
  constructor
  · rintro (hold | ⟨q,hq,hblock⟩)
    · have hlt := heap.live_lt _ hold
      have hsince := (hmemory.since p hp).1
      omega
    · rwa [List.inj_on_of_nodup_map hmemory.nodup hp (held_built h hq) hblock.symm]
  · intro hp
    exact .inr ⟨p,hp,rfl⟩

theorem payloads_nodup (h : s.History) (hmemory : s.Memory heap) :
    (s.dropped ++ (s.published ++ (s.consumer.unsent ++ s.pendingPayload.toList)) ++
      s.producer.inHand).Nodup := by
  have hbuilt : s.built.Nodup := List.Nodup.of_map _ hmemory.nodup
  have hparked : s.published ++ (s.consumer.unsent ++ s.pendingPayload.toList) = s.parked := h.parked
  rw [hparked]
  exact h.built.nodup_iff.mp hbuilt

/-- No payload is in two places. -/
theorem places_apart (h : s.History) (hmemory : s.Memory heap) :
    (p ∈ s.dropped → p ∉ s.published ∧ s.pendingPayload ≠ some p ∧ p ∉ s.consumer.inHand ∧
      p ∉ s.producer.inHand) ∧
    (p ∈ s.producer.inHand → p ∉ s.published ∧ s.pendingPayload ≠ some p ∧ p ∉ s.consumer.inHand) ∧
    (s.pendingPayload = some p → p ∉ s.published ∧ p ∉ s.consumer.inHand) := by
  have hconsumer := mem_consumer_inHand (p := p) h
  obtain ⟨hleft,_,hproducer⟩ := List.nodup_append.mp (payloads_nodup h hmemory)
  obtain ⟨_,hright,hdropped⟩ := List.nodup_append.mp hleft
  obtain ⟨_,hunsent,hpublished⟩ := List.nodup_append.mp hright
  obtain ⟨_,_,hpending⟩ := List.nodup_append.mp hunsent
  refine ⟨fun hp => ?_,fun hp => ?_,fun hp => ?_⟩
  · have hparked : ¬p ∈ s.published ++ (s.consumer.unsent ++ s.pendingPayload.toList) :=
      fun hq => hdropped p hp p hq rfl
    have hhand : p ∉ s.producer.inHand := fun hq => hproducer p (List.mem_append_left _ hp) p hq rfl
    simp only [List.mem_append,Option.mem_toList] at hparked
    grind
  · have hparked : ¬p ∈ s.published ++ (s.consumer.unsent ++ s.pendingPayload.toList) :=
      fun hq => hproducer p (List.mem_append_right _ hq) p hp rfl
    simp only [List.mem_append,Option.mem_toList] at hparked
    grind
  · have hmem : p ∈ s.pendingPayload.toList := Option.mem_toList.mpr hp
    have hsent : p ∉ s.published := fun hq => hpublished p hq p (List.mem_append_right _ hmem) rfl
    have hhand : p ∉ s.consumer.unsent := fun hq => hpending p hq p hmem rfl
    grind

theorem place_unique (h : s.History) (hmemory : s.Memory heap) (hp : p ∈ s.built)
    {a b : PayloadPlace} (ha : s.At p a) (hb : s.At p b) : a = b := by
  obtain ⟨hdropped,hproducer,hpending⟩ := places_apart (p := p) h hmemory
  have hlive := mem_live_iff h hmemory hp
  rw [mem_held] at hlive
  cases a <;> cases b <;> simp only [PeerSignaling.At] at ha hb <;> first | rfl | grind

theorem exists_place (h : s.History) (hmemory : s.Memory heap) (hp : p ∈ s.built) :
    ∃ place, s.At p place := by
  obtain ⟨hdropped,hproducer,hpending⟩ := places_apart (p := p) h hmemory
  have hlive := mem_live_iff h hmemory hp
  rw [mem_held] at hlive
  rcases (mem_built h).mp hp with hin | hin | hin | hin | hin
  · exact ⟨.dropped,hin,by grind⟩
  · -- published, and perhaps not freed yet
    by_cases hconsumer : p ∈ s.consumer.inHand
    · exact ⟨.consumer,hconsumer,by grind⟩
    · exact ⟨.published,hin,by grind⟩
  · exact ⟨.consumer,SignalingPoint.mem_inHand hin,by grind [SignalingPoint.mem_inHand]⟩
  · exact ⟨.pending,hin,by grind⟩
  · exact ⟨.producer,hin,by grind⟩

end Places

section Runs

variable {heap : Heap} {es : List PeerSignalingEvent} {s t : PeerSignaling} {e : PeerSignalingEvent}

/-- The three invariants together. -/
private def Sound (heap : Heap) (s : PeerSignaling) : Prop :=
  s.Handshake ∧ s.History ∧ s.Memory heap

private theorem sound_reachable (h : Reachable peerSignalingStep (PeerSignaling.start heap) s) :
    Sound heap s := by
  refine Reachable.invariant (fun s e t hs hstep => ?_) ?_ h
  · obtain ⟨hshake,hhistory,hmemory⟩ := hs
    exact ⟨handshake_step hshake hstep,history_step hshake hhistory hstep,
      memory_step hshake hmemory hstep⟩
  · refine ⟨⟨by simp [PeerSignaling.start],by simp [PeerSignaling.start]⟩,?_,?_⟩
    · exact ⟨by simp [PeerSignaling.start],rfl,List.Perm.nil⟩
    · exact ⟨⟨0,Heap.Took.refl heap⟩,List.nodup_nil,by simp [PeerSignaling.start]⟩

theorem test_dropping {p : OfferPayload} (hstep : peerSignalingStep s .test = some t)
    (ht : t.producer = .dropping p) : ∃ earlier, s.pendingPayload = some earlier := by
  cases peerSignalingStep_effect hstep with
  | occupied _ hpending => exact ⟨_,hpending⟩
  | empty => cases ht

theorem pendingPayload_kept {p : OfferPayload} (h : s.Handshake)
    (hstep : peerSignalingStep s e = some t) (hp : s.pendingPayload = some p) :
    t.pendingPayload = some p ∨ t.pendingPayload = none ∧ t.consumer = .publishing p := by
  cases peerSignalingStep_effect hstep with
  | park hproducer =>
    rw [h.parking _ hproducer] at hp
    cases hp
  | clear hconsumer =>
    rw [h.clearing _ hconsumer] at hp
    exact .inr ⟨rfl,congrArg _ (Option.some.inj hp)⟩
  | _ => exact .inl hp

theorem published_onPeerTask (hstep : peerSignalingStep s e = some t)
    (he : e.onPeerTask = true) : t.published = s.published := by
  cases peerSignalingStep_effect hstep with
  | publish => cases he
  | _ => rfl

/-- Over every interleaving of the two tasks. -/
theorem pendingPayload_handsOver
    (hrun : runEvents peerSignalingStep (PeerSignaling.start heap) es = some s) :
    HandsOver heap es s := by
  obtain ⟨hshake,hhistory,hmemory⟩ := sound_reachable ⟨es,hrun⟩
  obtain ⟨asked,htook⟩ := hmemory.took
  have hsound : ∀ m ∈ moments peerSignalingStep (PeerSignaling.start heap) es, Sound heap m.1 :=
    fun m hm => sound_reachable (mem_moments_reachable hm)
  have hnodup := payloads_nodup hhistory hmemory
  refine ⟨hmemory.nodup,?_,htook.live,htook.faults,?_,hhistory.parked,?_,?_,?_,?_⟩
  · intro p hp
    obtain ⟨place,hplace⟩ := exists_place hhistory hmemory hp
    exact ⟨place,hplace,fun _ h => place_unique hhistory hmemory hp h hplace⟩
  · have hright := (List.nodup_append.mp (List.nodup_append.mp hnodup).1).2.1
    exact (List.nodup_append.mp hright).1
  · intro m hm _ p hp
    obtain ⟨_,hhistory,hmemory⟩ := hsound m hm
    have hheld : p ∈ m.1.held := mem_held.mpr (.inr (.inr (by rw [hp]; exact List.mem_cons_self)))
    exact (mem_live_iff hhistory hmemory (held_built hhistory hheld)).mpr hheld
  · intro m hm t p hstep hp
    exact pendingPayload_kept (hsound m hm).1 hstep hp
  · intro m hm t p hstep htest ht
    rw [htest] at hstep
    obtain ⟨_,hhistory,hmemory⟩ := hsound m hm
    obtain ⟨earlier,hearlier⟩ := test_dropping hstep ht
    refine ⟨earlier,hearlier,?_,((places_apart hhistory hmemory).2.2 hearlier).1⟩
    rw [← hhistory.parked,PeerSignaling.unsent]
    exact List.mem_append_right _ (List.mem_append_right _ (Option.mem_toList.mpr hearlier))
  · intro m _ t hstep he
    exact published_onPeerTask hstep he

/-- Two requests; the offer for the second finds the first one's still in `pending_payload`. -/
theorem pendingPayload_handsOver_twoOffers : ∃ s,
    runEvents peerSignalingStep (PeerSignaling.start .ample) [.loop,.processLoop (some 7),.loop,
      .onicecandidate "v=0",.print,.test,.park,.finish,.processLoop (some 8),.onicecandidate "v=0",
      .print,.test,.drop,.loop,.clear,.publish,.release] = some s ∧
    s.dropped = [⟨1,8,"v=0"⟩] ∧ s.published = [⟨0,7,"v=0"⟩] ∧
    HandsOver .ample [.loop,.processLoop (some 7),.loop,.onicecandidate "v=0",.print,.test,.park,
      .finish,.processLoop (some 8),.onicecandidate "v=0",.print,.test,.drop,.loop,.clear,.publish,
      .release] s :=
  ⟨_,rfl,rfl,rfl,pendingPayload_handsOver rfl⟩

/-- Between the `cJSON_PrintUnformatted` and the store only the producer's own variable points to
the payload. -/
theorem pendingPayload_onTheWay : ∃ s,
    runEvents peerSignalingStep (PeerSignaling.start .ample)
      [.loop,.processLoop (some 7),.onicecandidate "v=0",.print,.test] = some s ∧
    ⟨0,7,"v=0"⟩ ∈ s.built ∧ ∀ place, place ≠ .producer → ¬s.At ⟨0,7,"v=0"⟩ place := by
  refine ⟨_,rfl,List.mem_cons_self,?_⟩
  intro place hplace hat
  cases place with
  | producer => exact hplace rfl
  | dropped | consumer | published => cases hat.1
  | pending => cases hat.1

end Runs

end Esp32Ipc
