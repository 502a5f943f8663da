import Esp32Ipc.Framework.Drain
import Esp32Ipc.Task.Audio
import Esp32Ipc.Task.Webrtc

/-!
# Media on its way through the peer task

`task_audio` and the encode task push into their rings whenever they have something; the peer task
empties both in each pass of `peer_connection_loop` while the connection is in the state COMPLETED,
the audio ring first. A ring outlives the connection it was filled for. Calls on a ring are taken as
a whole here; what its two sides may see of each other in between is another module's subject.
-/

namespace Esp32Ipc

open Framework

inductive MediaStream where
  | audio
  | video
  deriving DecidableEq, Repr

/-- The peer task is outside the media part of `peer_connection_loop`, or in one of its two loops. -/
inductive PeerPoint where
  | outside
  | draining (stream : MediaStream)
  deriving DecidableEq, Repr

structure PeerMedia where
  w : Webrtc
  peer : PeerPoint
  /-- What `rtp_encoder_encode` was given, for either encoder. -/
  encoded : List (MediaStream × List UInt8)

inductive MediaEvent where
  /-- A round of `task_audio`; the read may fail. -/
  | audioRead (read : Option (List Int16))
  | sendVideo (buf : List UInt8)
  | stateChange (state : PeerConnectionState)
  | enter
  /-- The test of one of the two `while` loops and, if it holds, the body. -/
  | iterate
  deriving DecidableEq

def PeerConnection.rb (pc : PeerConnection) : MediaStream → Buffer
  | .audio => pc.audioRb
  | .video => pc.videoRb

def PeerConnection.popHead (pc : PeerConnection) : MediaStream → PeerConnection
  | .audio => { pc with audioRb := bufferPopHead pc.audioRb }
  | .video => { pc with videoRb := bufferPopHead pc.videoRb }

/-- Where a loop ends when its ring is empty. -/
def MediaStream.next : MediaStream → PeerPoint
  | .audio => .draining .video
  | .video => .outside

def peerConnectionSendOn : MediaStream → PeerConnection → List UInt8 → Int × PeerConnection
  | .audio => peerConnectionSendAudio
  | .video => peerConnectionSendVideo

def webrtcSendOn (stream : MediaStream) : Webrtc → List UInt8 → Int × Webrtc :=
  webrtcSend (peerConnectionSendOn stream)

def PeerMedia.start : PeerMedia := ⟨⟨some peerConnectionNew,.closed⟩,.outside,[]⟩

def mediaStep (s : PeerMedia) : MediaEvent → Option PeerMedia
  | .audioRead none => some s
  | .audioRead (some pcm) => some { s with w := (webrtcSendAudio s.w (pcm.map g711aEncode)).2 }
  | .sendVideo buf => some { s with w := (webrtcSendVideo s.w buf).2 }
  -- `on_ice_state_change`, from whichever task changes the state
  | .stateChange state => some { s with w := { s.w with state := state } }
  | .enter =>
    if s.peer = .outside ∧ webrtcIsStreaming s.w = true then some { s with peer := .draining .audio }
    else none
  | .iterate =>
    match s.w.pc, s.peer with
    | some pc, .draining stream =>
      match bufferFront (pc.rb stream) with
      | some data =>
        some { s with
          w := { s.w with pc := some (pc.popHead stream) }
          encoded := s.encoded ++ [(stream,data)] }
      | none => some { s with peer := stream.next }
    | _, _ => none

/-- The payload that an event offers to a ring. -/
def MediaEvent.offer : MediaEvent → Option (MediaStream × List UInt8)
  | .audioRead read => read.map fun pcm => (.audio,pcm.map g711aEncode)
  | .sendVideo buf => some (.video,buf)
  | _ => none

/-- The payload that the ring took, by the answer of `webrtc_send_*`. -/
def mediaAccepts (m : PeerMedia × MediaEvent) : Option (MediaStream × List UInt8) :=
  m.2.offer.filter fun p => decide (0 < (webrtcSendOn p.1 m.1.w p.2).1)

def acceptedOn (stream : MediaStream) (ms : List (PeerMedia × MediaEvent)) : List (List UInt8) :=
  (ms.filterMap mediaAccepts).filterMap fun p => if p.1 = stream then some p.2 else none

theorem acceptedOn_append (stream : MediaStream) (ms ms' : List (PeerMedia × MediaEvent)) :
    acceptedOn stream (ms ++ ms') = acceptedOn stream ms ++ acceptedOn stream ms' := by
  rw [acceptedOn,List.filterMap_append,List.filterMap_append]
  rfl

def PeerMedia.transmitted (s : PeerMedia) (stream : MediaStream) : List (List UInt8) :=
  s.encoded.filterMap fun p => if p.1 = stream then some p.2 else none

section Send

variable {w : Webrtc} {pc : PeerConnection} {stream : MediaStream} {l : List (List UInt8)}
  {buf : List UInt8}

theorem peerConnectionSendOn_cases (hholds : (pc.rb stream).Holds l) :
    peerConnectionSendOn stream pc buf = (-1,pc) ∨
      (peerConnectionSendOn stream pc buf).1 = buf.length ∧ 0 < buf.length ∧
        ((peerConnectionSendOn stream pc buf).2.rb stream).Holds (l ++ [buf]) ∧
        ∀ other, other ≠ stream → (peerConnectionSendOn stream pc buf).2.rb other = pc.rb other := by
  cases stream with
  | audio =>
    rcases bufferPushTail_holds hholds buf with hrefused | ⟨hret,hlen,hpushed⟩
    · left
      change ((bufferPushTail (pc.rb .audio) buf).1,{ pc with audioRb := (bufferPushTail (pc.rb .audio) buf).2 }) = _
      rw [hrefused]
      rfl
    · refine .inr ⟨hret,hlen,hpushed,?_⟩
      rintro (_ | _) hother
      · exact absurd rfl hother
      · rfl
  | video =>
    rcases bufferPushTail_holds hholds buf with hrefused | ⟨hret,hlen,hpushed⟩
    · left
      change ((bufferPushTail (pc.rb .video) buf).1,{ pc with videoRb := (bufferPushTail (pc.rb .video) buf).2 }) = _
      rw [hrefused]
      rfl
    · refine .inr ⟨hret,hlen,hpushed,?_⟩
      rintro (_ | _) hother
      · rfl
      · exact absurd rfl hother

theorem webrtcSendOn_cases (buf : List UInt8) (hpc : w.pc = some pc) (hholds : (pc.rb stream).Holds l) :
    ((webrtcSendOn stream w buf).1 ≤ 0 ∧ (webrtcSendOn stream w buf).2 = w) ∨
      (0 < (webrtcSendOn stream w buf).1 ∧ ∃ pc',
        (webrtcSendOn stream w buf).2 = { w with pc := some pc' } ∧
          (pc'.rb stream).Holds (l ++ [buf]) ∧ ∀ other, other ≠ stream → pc'.rb other = pc.rb other) := by
  have hw : { w with pc := some pc } = w := hpc ▸ rfl
  rw [webrtcSendOn,webrtcSend,hpc]
  dsimp only
  by_cases hgate : (!webrtcIsStreaming w || decide (buf.length = 0)) = true
  · rw [if_pos hgate]
    exact .inl ⟨le_rfl,rfl⟩
  · rw [if_neg hgate]
    rcases peerConnectionSendOn_cases hholds with hrefused | ⟨hret,hlen,hpushed,hothers⟩
    · rw [hrefused]
      exact .inl ⟨by simp,hw⟩
    · rw [if_neg (by omega)]
      exact .inr ⟨Int.natCast_pos.mpr hlen,_,rfl,hpushed,hothers⟩

end Send

section Refinement

/-- What the pass still has to empty. -/
def PeerPoint.todo : PeerPoint → List MediaStream
  | .outside => []
  | .draining .audio => [.audio,.video]
  | .draining .video => [.video]

/-- The rings hold the queues that the abstract server empties. -/
structure PeerMedia.Refines (s : PeerMedia) (a : Drain MediaStream (List UInt8)) : Prop where
  rings : ∃ pc, s.w.pc = some pc ∧ ∀ stream, (pc.rb stream).Holds (a.queue stream)
  out : s.encoded = a.out
  todo : s.peer.todo = a.todo

/-- The step of the abstract server that an event is, if it is one. -/
def mediaImage (m : PeerMedia × MediaEvent) : List (DrainEvent MediaStream (List UInt8)) :=
  match m.2 with
  | .enter => [.enter]
  | .iterate => [.serve]
  | _ => ((mediaAccepts m).map fun p => .accept p.1 p.2).toList

variable {s t : PeerMedia} {a : Drain MediaStream (List UInt8)} {stream : MediaStream} {e : MediaEvent}
  {pc : PeerConnection} {buf : List UInt8}

theorem next_todo (stream : MediaStream) : stream :: stream.next.todo = (PeerPoint.draining stream).todo := by
  cases stream <;> rfl

theorem popHead_rb (pc : PeerConnection) (stream : MediaStream) :
    (pc.popHead stream).rb stream = bufferPopHead (pc.rb stream) := by
  cases stream <;> rfl

theorem popHead_rb_of_ne {other : MediaStream} (pc : PeerConnection) (h : other ≠ stream) :
    (pc.popHead stream).rb other = pc.rb other := by
  cases stream <;> cases other <;> first | rfl | exact absurd rfl h

theorem refines_send (h : s.Refines a) (hsend : e.offer = some (stream,buf))
    (himage : mediaImage (s,e) = ((mediaAccepts (s,e)).map fun p => .accept p.1 p.2).toList) :
    ∃ b, runEvents (drainStep [.audio,.video]) a (mediaImage (s,e)) = some b ∧
      PeerMedia.Refines { s with w := (webrtcSendOn stream s.w buf).2 } b := by
  obtain ⟨pc,hpc,hholds⟩ := h.rings
  have haccepts : mediaAccepts (s,e) =
      if 0 < (webrtcSendOn stream s.w buf).1 then some (stream,buf) else none := by
    rw [mediaAccepts,hsend]
    by_cases hpos : 0 < (webrtcSendOn stream s.w buf).1
    · rw [if_pos hpos,Option.filter_some,if_pos (decide_eq_true hpos)]
    · rw [if_neg hpos,Option.filter_some,if_neg (by simpa using hpos)]
  rw [himage,haccepts]
  rcases webrtcSendOn_cases buf hpc (hholds stream) with ⟨hret,hw⟩ | ⟨hret,pc',hw,hpushed,hothers⟩
  · rw [if_neg (not_lt.mpr hret),hw]
    exact ⟨a,rfl,h⟩
  · rw [if_pos hret,hw]
    refine ⟨_,rfl,⟨pc',rfl,?_⟩,h.out,h.todo⟩
    intro other
    change (pc'.rb other).Holds (Function.update a.queue stream (a.queue stream ++ [buf]) other)
    by_cases hother : other = stream
    · subst hother
      rw [Function.update_self]
      exact hpushed
    · rw [Function.update_of_ne hother,hothers other hother]
      exact hholds other

/-- Every event is a step of the server that empties the two queues, audio first, or none. -/
theorem mediaStep_refines (s : PeerMedia) (e : MediaEvent) (t : PeerMedia)
    (a : Drain MediaStream (List UInt8)) (h : s.Refines a) (hstep : mediaStep s e = some t) :
    ∃ b, runEvents (drainStep [.audio,.video]) a (mediaImage (s,e)) = some b ∧ t.Refines b := by
  cases e with
  | audioRead read =>
    cases read with
    | none =>
      obtain rfl := Option.some.inj hstep
      exact ⟨a,rfl,h⟩
    | some pcm =>
      have hsent := refines_send h (rfl : (MediaEvent.audioRead (some pcm)).offer = _) rfl
      exact Option.some.inj hstep ▸ hsent
  | sendVideo buf =>
    have hsent := refines_send h (rfl : (MediaEvent.sendVideo buf).offer = _) rfl
    exact Option.some.inj hstep ▸ hsent
  | stateChange state =>
    obtain rfl := Option.some.inj hstep
    exact ⟨a,rfl,h.rings,h.out,h.todo⟩
  | enter =>
    simp only [mediaStep,Option.ite_none_right_eq_some] at hstep
    obtain ⟨⟨houtside,_⟩,hstep⟩ := hstep
    obtain rfl := Option.some.inj hstep
    have hidle : a.todo = [] := by rw [← h.todo,houtside]; rfl
    have henter : drainStep [.audio,.video] a .enter = some { a with todo := [.audio,.video] } := by
      simp only [drainStep,hidle]
    exact ⟨_,runEvents_single henter,h.rings,h.out,rfl⟩
  | iterate =>
    obtain ⟨pc,hpc,hholds⟩ := h.rings
    have htodo := h.todo
    simp only [mediaStep,hpc] at hstep
    cases hpeer : s.peer with
    | outside => simp [hpeer] at hstep
    | draining stream =>
      rw [hpeer,← next_todo] at htodo
      simp only [hpeer] at hstep
      cases hqueue : a.queue stream with
      | nil =>
        have hempty := bufferPopHead_empty (hqueue ▸ hholds stream)
        simp only [hempty.1] at hstep
        obtain rfl := Option.some.inj hstep
        have hserve : drainStep [.audio,.video] a .serve = some { a with todo := stream.next.todo } := by
          simp only [drainStep,← htodo,hqueue]
        exact ⟨_,runEvents_single hserve,⟨pc,hpc,hholds⟩,h.out,rfl⟩
      | cons x l =>
        obtain ⟨hfront,hpop⟩ := bufferPopHead_holds (hqueue ▸ hholds stream)
        simp only [hfront] at hstep
        obtain rfl := Option.some.inj hstep
        have hserve : drainStep [.audio,.video] a .serve = some { a with
            queue := Function.update a.queue stream l
            out := a.out ++ [(stream,x)] } := by
          simp only [drainStep,← htodo,hqueue]
        refine ⟨_,runEvents_single hserve,⟨_,rfl,?_⟩,congrArg (· ++ [(stream,x)]) h.out,
          (next_todo stream).symm.trans htodo⟩
        intro other
        change ((pc.popHead stream).rb other).Holds (Function.update a.queue stream l other)
        by_cases hother : other = stream
        · subst hother
          rw [popHead_rb,Function.update_self]
          exact hpop
        · rw [popHead_rb_of_ne pc hother,Function.update_of_ne hother]
          exact hholds other

theorem start_refines : PeerMedia.start.Refines ⟨fun _ => [],[],[]⟩ where
  rings := by
    refine ⟨peerConnectionNew,rfl,?_⟩
    rintro (_ | _)
    · exact bufferNew_holds (by decide) (by decide)
    · exact bufferNew_holds (by decide) (by decide)
  out := rfl
  todo := rfl

theorem mediaImage_cases (m : PeerMedia × MediaEvent) :
    (m.2 = .enter ∧ mediaImage m = [.enter] ∧ mediaAccepts m = none) ∨
      (m.2 = .iterate ∧ mediaImage m = [.serve] ∧ mediaAccepts m = none) ∨
      (m.2 ≠ .enter ∧ m.2 ≠ .iterate ∧ mediaImage m = [] ∧ mediaAccepts m = none) ∨
      (m.2 ≠ .enter ∧ m.2 ≠ .iterate ∧ ∃ p, mediaImage m = [.accept p.1 p.2] ∧ mediaAccepts m = some p) := by
  have hsend : ∀ m : PeerMedia × MediaEvent, m.2 ≠ .enter → m.2 ≠ .iterate →
      mediaImage m = ((mediaAccepts m).map fun p => .accept p.1 p.2).toList →
      (m.2 ≠ .enter ∧ m.2 ≠ .iterate ∧ mediaImage m = [] ∧ mediaAccepts m = none) ∨
        (m.2 ≠ .enter ∧ m.2 ≠ .iterate ∧
          ∃ p, mediaImage m = [.accept p.1 p.2] ∧ mediaAccepts m = some p) := by
    intro m henter hiterate himage
    cases haccepts : mediaAccepts m with
    | none => exact .inl ⟨henter,hiterate,by rw [himage,haccepts]; rfl,rfl⟩
    | some p => exact .inr ⟨henter,hiterate,p,by rw [himage,haccepts]; rfl,rfl⟩
  obtain ⟨s,e⟩ := m
  cases e with
  | audioRead read => exact .inr (.inr (hsend _ nofun nofun rfl))
  | sendVideo buf => exact .inr (.inr (hsend _ nofun nofun rfl))
  | stateChange state => exact .inr (.inr (hsend _ nofun nofun rfl))
  | enter => exact .inl ⟨rfl,rfl,rfl⟩
  | iterate => exact .inr (.inl ⟨rfl,rfl,rfl⟩)

theorem acceptedOf_image (stream : MediaStream) (ms : List (PeerMedia × MediaEvent)) :
    acceptedOf stream (ms.flatMap mediaImage) = acceptedOn stream ms := by
  induction ms with
  | nil => rfl
  | cons m ms ih =>
    rw [List.flatMap_cons,acceptedOf_append,ih,acceptedOn,acceptedOn,List.filterMap_cons]
    rcases mediaImage_cases m with ⟨_,himage,haccepts⟩ | ⟨_,himage,haccepts⟩ | ⟨_,_,himage,haccepts⟩ |
      ⟨_,_,p,himage,haccepts⟩
    · rw [himage,haccepts]
      rfl
    · rw [himage,haccepts]
      rfl
    · rw [himage,haccepts]
      rfl
    · rw [himage,haccepts]
      by_cases hp : p.1 = stream <;> simp [acceptedOf,hp]

theorem image_counts (ms : List (PeerMedia × MediaEvent)) :
    (ms.flatMap mediaImage).countP DrainEvent.isServe = ms.countP fun m => decide (m.2 = .iterate) := by
  induction ms with
  | nil => rfl
  | cons m ms ih =>
    rw [List.flatMap_cons,List.countP_append,List.countP_cons,ih,Nat.add_comm]
    apply congrArg
    rcases mediaImage_cases m with ⟨he,himage,_⟩ | ⟨he,himage,_⟩ | ⟨_,he,himage,_⟩ | ⟨_,he,p,himage,_⟩
    · simp [himage,he,DrainEvent.isServe]
    · simp [himage,he,DrainEvent.isServe]
    · simp [himage,he]
    · simp [himage,he,DrainEvent.isServe]

theorem image_inside {ms : List (PeerMedia × MediaEvent)} (h : ∀ m ∈ ms, m.2 ≠ .enter) :
    ∀ f ∈ ms.flatMap mediaImage, f.isEnter = false := by
  intro f hf
  obtain ⟨m,hm,hf⟩ := List.mem_flatMap.mp hf
  rcases mediaImage_cases m with ⟨he,_⟩ | ⟨_,himage,_⟩ | ⟨_,_,himage,_⟩ | ⟨_,_,p,himage,_⟩
  · exact absurd he (h m hm)
  · rw [himage,List.mem_singleton] at hf
    exact hf ▸ rfl
  · rw [himage] at hf
    exact absurd hf List.not_mem_nil
  · rw [himage,List.mem_singleton] at hf
    exact hf ▸ rfl

end Refinement

section Runs

variable {s t : PeerMedia} {pre es : List MediaEvent}

theorem mediaRun_refines (h : runEvents mediaStep .start es = some s) :
    ∃ a, runEvents (drainStep [.audio,.video]) ⟨fun _ => [],[],[]⟩
      ((moments mediaStep .start es).flatMap mediaImage) = some a ∧ s.Refines a :=
  runEvents_simulates mediaStep_refines start_refines h

/-- Over every run, whatever the state did in between, what a ring took in is what was transmitted
on its stream and, after that, what the ring still holds. -/
theorem media_inOrder (h : runEvents mediaStep .start es = some s) :
    ∃ pc, s.w.pc = some pc ∧ ∀ stream, ∃ waiting, (pc.rb stream).Holds waiting ∧
      acceptedOn stream (moments mediaStep .start es) = s.transmitted stream ++ waiting := by
  obtain ⟨a,hrun,hrefines⟩ := mediaRun_refines h
  obtain ⟨pc,hpc,hholds⟩ := hrefines.rings
  refine ⟨pc,hpc,fun stream => ⟨a.queue stream,hholds stream,?_⟩⟩
  have hconserved := drain_conserves hrun stream
  rw [acceptedOf_image] at hconserved
  rw [PeerMedia.transmitted,hrefines.out]
  exact hconserved.symm

theorem transmitted_length (s : PeerMedia) :
    (s.transmitted .audio).length + (s.transmitted .video).length = s.encoded.length := by
  obtain ⟨w,peer,encoded⟩ := s
  induction encoded with
  | nil => rfl
  | cons p l ih =>
    rcases p with ⟨_ | _,data⟩
    · simp [PeerMedia.transmitted] at ih ⊢
      omega
    · simp [PeerMedia.transmitted] at ih ⊢
      omega

theorem outside_or_iterates (h : runEvents mediaStep .start es = some s) :
    s.peer = .outside ∨ ∃ t, mediaStep s .iterate = some t := by
  obtain ⟨pc,hpc,_⟩ := media_inOrder h
  cases hpeer : s.peer with
  | outside => exact .inl rfl
  | draining stream =>
    right
    simp only [mediaStep,hpc,hpeer]
    cases bufferFront (pc.rb stream) with
    | none => exact ⟨_,rfl⟩
    | some data => exact ⟨_,rfl⟩

theorem encoded_length_le (h : runEvents mediaStep .start es = some s) :
    s.encoded.length ≤ (acceptedOn .audio (moments mediaStep .start es)).length +
      (acceptedOn .video (moments mediaStep .start es)).length := by
  obtain ⟨pc,_,horder⟩ := media_inOrder h
  obtain ⟨audio,_,haudio⟩ := horder .audio
  obtain ⟨video,_,hvideo⟩ := horder .video
  have hlength := transmitted_length s
  rw [haudio,hvideo,List.length_append,List.length_append]
  omega

/-- A pass of the peer task, whatever is pushed and whatever becomes of the connection meanwhile. Once
it has turned to the video, every audio payload accepted before it has been transmitted; once it is
over, so has every video payload. It tests its loops no more often than payloads were accepted and not
yet transmitted when it began, or arrived since, and twice more; and until it is over it can go on. -/
theorem peerLoop_flushes (hpre : runEvents mediaStep .start pre = some s)
    (hpass : runEvents mediaStep s (.enter :: es) = some t) (hinside : .enter ∉ es) :
    (t.peer ≠ .draining .audio →
        acceptedOn .audio (moments mediaStep .start pre) <+: t.transmitted .audio) ∧
      (t.peer = .outside → ∀ stream,
        acceptedOn stream (moments mediaStep .start pre) <+: t.transmitted stream) ∧
      es.count .iterate + s.encoded.length ≤
        (acceptedOn .audio (moments mediaStep .start (pre ++ .enter :: es))).length +
          (acceptedOn .video (moments mediaStep .start (pre ++ .enter :: es))).length + 2 ∧
      (t.peer = .outside ∨ ∃ u, mediaStep t .iterate = some u) := by
  obtain ⟨a,ha,hs⟩ := mediaRun_refines hpre
  obtain ⟨u,henter,hes⟩ := Option.bind_eq_some_iff.mp hpass
  obtain ⟨b,hb,hu⟩ := mediaStep_refines s .enter u a hs henter
  obtain ⟨c,hc,ht⟩ := runEvents_simulates mediaStep_refines hu hes
  have hall : runEvents mediaStep .start (pre ++ .enter :: es) = some t := by
    rw [runEvents_append,hpre]
    exact hpass
  have hu' : u = { s with peer := .draining .audio } := by
    simp only [mediaStep,Option.ite_none_right_eq_some] at henter
    exact (Option.some.inj henter.2).symm
  have htodo : b.todo = [.audio,.video] := by
    rw [← hu.todo,hu']
    rfl
  have hflushed : ∀ stream, stream ∉ t.peer.todo →
      acceptedOn stream (moments mediaStep .start pre) <+: t.transmitted stream := by
    intro stream hleft
    have hin : stream ∈ b.todo := by
      rw [htodo]
      cases stream <;> decide
    have hbefore := drain_conserves ha stream
    have hentered := drain_conserves hb stream
    rw [acceptedOf_image] at hbefore
    have hflush := drain_flushes hc hin (ht.todo ▸ hleft)
    rw [hentered,hbefore] at hflush
    rw [PeerMedia.transmitted,ht.out]
    exact (List.append_nil (acceptedOn stream _)) ▸ hflush
  have hevents : ∀ m ∈ moments mediaStep u es, m.2 ∈ es := by
    intro m hm
    rw [← moments_map_snd hes]
    exact List.mem_map_of_mem hm
  have hcounts := drain_counts hc (image_inside fun m hm he => hinside (he ▸ hevents m hm))
  have hiterates : es.count .iterate = (moments mediaStep u es).countP fun m => decide (m.2 = .iterate) := by
    conv_lhs => rw [← moments_map_snd hes,List.count,List.countP_map]
    rfl
  have hlength := encoded_length_le hall
  refine ⟨fun hvideo => hflushed .audio ?_,fun houtside stream => hflushed stream ?_,?_,
    outside_or_iterates hall⟩
  · cases hpeer : t.peer with
    | outside => exact List.not_mem_nil
    | draining stream =>
      cases stream with
      | audio => exact absurd hpeer hvideo
      | video => decide
  · rw [houtside]
    exact List.not_mem_nil
  · rw [image_counts,← hiterates,← ht.out,htodo,← hu.out,hu'] at hcounts
    simp only [List.length_cons,List.length_nil] at hcounts
    omega

/-- A video frame waits, the connection completes, an audio packet comes first. -/
def firstPass : List MediaEvent :=
  [.stateChange .completed,.sendVideo [1,2,3,4],.audioRead (some [0,-9])]

theorem peerLoop_flushes_firstPass : ∃ s t, runEvents mediaStep .start firstPass = some s ∧
    runEvents mediaStep s [.enter,.iterate,.iterate,.iterate,.iterate] = some t ∧
    (t.peer ≠ .draining .audio →
        acceptedOn .audio (moments mediaStep .start firstPass) <+: t.transmitted .audio) ∧
      (t.peer = .outside → ∀ stream,
        acceptedOn stream (moments mediaStep .start firstPass) <+: t.transmitted stream) ∧
      [MediaEvent.iterate,.iterate,.iterate,.iterate].count .iterate + s.encoded.length ≤
        (acceptedOn .audio (moments mediaStep .start
          (firstPass ++ [.enter,.iterate,.iterate,.iterate,.iterate]))).length +
          (acceptedOn .video (moments mediaStep .start
            (firstPass ++ [.enter,.iterate,.iterate,.iterate,.iterate]))).length + 2 ∧
      (t.peer = .outside ∨ ∃ u, mediaStep t .iterate = some u) := by
  have hpre : runEvents mediaStep .start firstPass = some _ := rfl
  exact ⟨_,_,hpre,rfl,peerLoop_flushes hpre rfl (by decide)⟩

end Runs

section Video

variable {s t : PeerMedia} {e : MediaEvent}

theorem acceptedVideo_single (he : ∀ buf, e ≠ .sendVideo buf) : acceptedOn .video [(s,e)] = [] := by
  rw [acceptedOn,List.filterMap_cons]
  cases haccepts : mediaAccepts (s,e) with
  | none => rfl
  | some p =>
    obtain ⟨hoffer,_⟩ := Option.filter_eq_some_iff.mp haccepts
    cases e with
    | audioRead read =>
      obtain ⟨pcm,_,rfl⟩ := Option.map_eq_some_iff.mp hoffer
      rfl
    | sendVideo buf => exact absurd rfl (he buf)
    | stateChange state => cases hoffer
    | enter => cases hoffer
    | iterate => cases hoffer

theorem sendVideo_single (buf : List UInt8) : acceptedOn .video [(s,.sendVideo buf)] =
    if 0 < (webrtcSendVideo s.w buf).1 then [buf] else [] := by
  have haccepts : mediaAccepts (s,.sendVideo buf) =
      if 0 < (webrtcSendVideo s.w buf).1 then some (.video,buf) else none := by
    change (some (MediaStream.video,buf)).filter _ = _
    rw [Option.filter_some]
    exact if_congr decide_eq_true_iff rfl rfl
  rw [acceptedOn,List.filterMap_cons,haccepts]
  by_cases hpos : 0 < (webrtcSendVideo s.w buf).1
  · rw [if_pos hpos,if_pos hpos]
    rfl
  · rw [if_neg hpos,if_neg hpos]
    rfl

theorem mediaStep_encodes (hstep : mediaStep s e = some t) :
    t.encoded = s.encoded ∨ ∃ stream data, t.encoded = s.encoded ++ [(stream,data)] := by
  cases e with
  | audioRead read => cases read <;> exact .inl (Option.some.inj hstep ▸ rfl)
  | sendVideo buf => exact .inl (Option.some.inj hstep ▸ rfl)
  | stateChange state => exact .inl (Option.some.inj hstep ▸ rfl)
  | enter =>
    simp only [mediaStep,Option.ite_none_right_eq_some] at hstep
    exact .inl (Option.some.inj hstep.2 ▸ rfl)
  | iterate =>
    cases hpc : s.w.pc with
    | none => simp [mediaStep,hpc] at hstep
    | some pc =>
      cases hpeer : s.peer with
      | outside => simp [mediaStep,hpc,hpeer] at hstep
      | draining stream =>
        simp only [mediaStep,hpc,hpeer] at hstep
        cases hfront : bufferFront (pc.rb stream) with
        | none =>
          simp only [hfront] at hstep
          exact .inl (Option.some.inj hstep ▸ rfl)
        | some data =>
          simp only [hfront] at hstep
          obtain rfl := Option.some.inj hstep
          exact .inr ⟨stream,data,rfl⟩

end Video

section Uplink

variable {s : PeerMedia} {es : List MediaEvent}

def audioReads (es : List MediaEvent) : List (List Int16) :=
  es.filterMap fun
    | .audioRead read => read
    | _ => none

theorem acceptedAudio_single (m : PeerMedia × MediaEvent) :
    acceptedOn .audio [m] = [] ∨
      ∃ pcm, audioReads [m.2] = [pcm] ∧ acceptedOn .audio [m] = [pcm.map g711aEncode] := by
  rw [acceptedOn,List.filterMap_cons]
  cases haccepts : mediaAccepts m with
  | none => exact .inl rfl
  | some p =>
    obtain ⟨hoffer,_⟩ := Option.filter_eq_some_iff.mp haccepts
    obtain ⟨s,e⟩ := m
    cases e with
    | audioRead read =>
      obtain ⟨pcm,rfl,rfl⟩ := Option.map_eq_some_iff.mp hoffer
      exact .inr ⟨pcm,rfl,rfl⟩
    | sendVideo buf =>
      obtain rfl := Option.some.inj hoffer
      exact .inl rfl
    | stateChange state => cases hoffer
    | enter => cases hoffer
    | iterate => cases hoffer

theorem acceptedAudio_eq (ms : List (PeerMedia × MediaEvent)) :
    ∃ reads : List (List Int16), reads.Sublist (audioReads (ms.map Prod.snd)) ∧
      acceptedOn .audio ms = reads.map fun pcm => pcm.map g711aEncode := by
  induction ms with
  | nil => exact ⟨[],List.Sublist.refl [],rfl⟩
  | cons m ms ih =>
    obtain ⟨reads,hsub,heq⟩ := ih
    have hreads : audioReads ((m :: ms).map Prod.snd) =
        audioReads [m.2] ++ audioReads (ms.map Prod.snd) := by
      rw [List.map_cons,← List.singleton_append]
      exact List.filterMap_append
    rw [← List.singleton_append,acceptedOn_append,List.singleton_append,hreads,heq]
    rcases acceptedAudio_single m with hnone | ⟨pcm,hread,hone⟩
    · exact ⟨reads,hsub.trans (List.sublist_append_right _ _),by rw [hnone]; rfl⟩
    · exact ⟨pcm :: reads,hread ▸ hsub.cons_cons pcm,by rw [hone]; rfl⟩

end Uplink

end Esp32Ipc
