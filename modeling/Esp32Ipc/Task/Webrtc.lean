import Esp32Ipc.Libpeer.BufferAccess

/-!
# Handing media to the peer connection

`webrtc_send_video` and `webrtc_send_audio` only push into the ring of their stream. The rings are
sized in `libpeer_config.h`, the largest encoded frame in `app_config.h`.
-/

namespace Esp32Ipc

open Framework

def configVideoBufferSize : Nat := 2 * 150 * 1024

def configAudioBufferSize : Nat := 168 * 25

def h264MaxFrameBytes : Nat := 640 * 1024

inductive PeerConnectionState where
  | closed
  | new
  | checking
  | connected
  | completed
  | failed
  deriving DecidableEq, Repr

/-- The rings of a `PeerConnection`. -/
structure PeerConnection where
  videoRb : Buffer
  audioRb : Buffer

/-- `s_pc` and `s_state`. -/
structure Webrtc where
  pc : Option PeerConnection
  state : PeerConnectionState

def peerConnectionNew : PeerConnection :=
  ⟨bufferNew configVideoBufferSize, bufferNew configAudioBufferSize⟩

/-- `peer_connection_send_video`, which is handed straight to `buffer_push_tail`. -/
def peerConnectionSendVideo (pc : PeerConnection) (buf : List UInt8) : Int × PeerConnection :=
  let (ret, rb) := bufferPushTail pc.videoRb buf
  (ret, { pc with videoRb := rb })

/-- `peer_connection_send_audio`, the same on the other ring. -/
def peerConnectionSendAudio (pc : PeerConnection) (buf : List UInt8) : Int × PeerConnection :=
  let (ret, rb) := bufferPushTail pc.audioRb buf
  (ret, { pc with audioRb := rb })

def webrtcIsStreaming (w : Webrtc) : Bool := w.pc.isSome && w.state = .completed

/-- `webrtc_send`: gate on the state, hand off. -/
def webrtcSend (send : PeerConnection → List UInt8 → Int × PeerConnection) (w : Webrtc)
    (buf : List UInt8) : Int × Webrtc :=
  match w.pc with
  | none => (0, w)
  | some pc =>
    if !webrtcIsStreaming w || buf.length = 0 then (0, w)
    else
      let (ret, pc) := send pc buf
      (if ret < 0 then ret else buf.length, { w with pc := some pc })

def webrtcSendVideo (w : Webrtc) (buf : List UInt8) : Int × Webrtc :=
  webrtcSend peerConnectionSendVideo w buf

def webrtcSendAudio (w : Webrtc) (buf : List UInt8) : Int × Webrtc :=
  webrtcSend peerConnectionSendAudio w buf

section Drained

variable {w : Webrtc} {pc : PeerConnection} {frame : List UInt8}

theorem webrtcSendVideo_streaming (hpc : w.pc = some pc) (hstate : w.state = .completed)
    (hframe : 1 ≤ frame.length) :
    webrtcSendVideo w frame =
      (if (bufferPushTail pc.videoRb frame).1 < 0 then (bufferPushTail pc.videoRb frame).1
        else frame.length,
        { w with pc := some { pc with videoRb := (bufferPushTail pc.videoRb frame).2 } }) := by
  have hstreaming : webrtcIsStreaming w = true := by simp [webrtcIsStreaming,hpc,hstate]
  have hgate : (!webrtcIsStreaming w || decide (frame.length = 0)) = false := by
    rw [hstreaming]
    simpa using List.length_pos_iff.mp hframe
  rw [webrtcSendVideo,webrtcSend,hpc]
  dsimp only
  rw [if_neg (by rw [hgate]; simp)]
  rfl

theorem bufferPushTail_empty {rb : Buffer} (hempty : rb.head = rb.tail) (hhead : rb.head < rb.size)
    (hframe : 1 ≤ frame.length) :
    0 ≤ (bufferPushTail rb frame).1 ↔
      alignSize frame.length < rb.size - rb.head ∨ alignSize frame.length ≤ rb.head := by
  have hahead : rb.FitsAhead (alignSize frame.length) ↔
      alignSize frame.length < rb.size - rb.head := by
    rw [Buffer.FitsAhead,if_neg (by omega)]
    omega
  have hstart : rb.FitsAtStart (alignSize frame.length) ↔ alignSize frame.length ≤ rb.head :=
    and_iff_right hempty.le
  rw [bufferPushTail_eq hhead (hempty ▸ hhead) hframe,← hahead,← hstart]
  split_ifs <;> simp_all

/-- Over every run of pushes and pops on the video ring that ends with the ring empty, a frame is
accepted exactly when its entry fits before the offset that the traffic left or behind it. -/
theorem webrtcSendVideo_drained_iff {es : List BufferOp} (hpc : w.pc = some pc)
    (hstate : w.state = .completed)
    (hrun : runEvents bufferStep (bufferNew configVideoBufferSize) es = some pc.videoRb)
    (hempty : pc.videoRb.head = pc.videoRb.tail) (hframe : 1 ≤ frame.length) :
    (webrtcSendVideo w frame).1 = frame.length ↔
      alignSize frame.length < configVideoBufferSize - pc.videoRb.head ∨
        alignSize frame.length ≤ pc.videoRb.head := by
  obtain ⟨l,hholds,hsize,_⟩ := buffer_queue (by decide) (by decide) hrun
  have hpush := bufferPushTail_empty hempty hholds.indices.1 hframe
  rw [hsize] at hpush
  rw [webrtcSendVideo_streaming hpc hstate hframe,← hpush]
  dsimp only
  split_ifs <;> omega

/-- One small frame has been through the ring. -/
theorem webrtcSendVideo_drained_iff_oneFrame : ∃ pc : PeerConnection, pc.videoRb.head = 8 ∧
    ((webrtcSendVideo ⟨some pc,.completed⟩ [1,2,3]).1 = 3 ↔
      8 < configVideoBufferSize - pc.videoRb.head ∨ 8 ≤ pc.videoRb.head) := by
  have hrun : runEvents bufferStep (bufferNew configVideoBufferSize) [.push [7,7,7,7],.pop] =
    some (bufferPopHead (bufferPushTail (bufferNew configVideoBufferSize) [7,7,7,7]).2) := rfl
  exact ⟨⟨_,bufferNew configAudioBufferSize⟩,by decide,
    webrtcSendVideo_drained_iff rfl rfl hrun (by decide) (by decide)⟩

/-- The ring as `buffer_new` leaves it refuses a frame of 375 KB, well below the largest that the
encoder may return. -/
theorem webrtcSendVideo_drained_refuses :
    runEvents bufferStep (bufferNew configVideoBufferSize) [] = some peerConnectionNew.videoRb ∧
      peerConnectionNew.videoRb.head = peerConnectionNew.videoRb.tail ∧
      1 ≤ (List.replicate 384000 (0 : UInt8)).length ∧
      (List.replicate 384000 (0 : UInt8)).length ≤ h264MaxFrameBytes ∧
      (webrtcSendVideo ⟨some peerConnectionNew,.completed⟩ (List.replicate 384000 0)).1 = -1 := by
  have hlength : (List.replicate 384000 (0 : UInt8)).length = 384000 := List.length_replicate
  have hpush : (bufferPushTail peerConnectionNew.videoRb (List.replicate 384000 0)).1 = -1 := by
    rw [bufferPushTail_eq (by decide) (by decide) (by omega),hlength,if_neg (by decide),
      if_neg (by decide)]
  rw [webrtcSendVideo_streaming rfl rfl (by omega),hpush,hlength]
  exact ⟨rfl,rfl,by omega,by decide,rfl⟩

end Drained

section VideoRing

/-- Over every run of pushes, peaks and pops on the video ring, each access is inside its backing
store and each length word aligned, exactly when no payload is stored after one that had to go to
the start of the ring with a length that is no multiple of four. -/
theorem videoRing_accesses_iff {rb : Buffer} {es : List RingCall}
    (hrun : runEvents ringCallStep (bufferNew configVideoBufferSize) es = some rb) :
    (∀ m ∈ moments ringCallStep (bufferNew configVideoBufferSize) es, ∀ a ∈ ringAccesses m.1 m.2,
        a.Within configVideoBufferSize ∧ a.Aligned) ↔
      (moments ringCallStep (bufferNew configVideoBufferSize) es).Pairwise fun a b =>
        ¬(RingWrapsUnaligned a ∧ RingFits b) := by
  rw [← ringAccesses_iff (by decide) (by decide) (by decide) hrun]
  have hsize : ∀ m ∈ moments ringCallStep (bufferNew configVideoBufferSize) es,
      m.1.size = configVideoBufferSize := by
    intro m hm
    obtain ⟨pre,hpre⟩ := mem_moments_reachable hm
    exact ringRun_size hpre
  constructor
  · intro h m hm a ha
    rw [hsize m hm]
    exact h m hm a ha
  · intro h m hm a ha
    rw [← hsize m hm]
    exact h m hm a ha

/-- The second frame goes to the start of the ring, and a third behind it while it is still there. -/
def wrapCalls : List RingCall :=
  [.push (List.replicate 200000 7),.pop,.push (List.replicate 150000 7),.peak,.push [7,7,7,7],.pop,.pop]

theorem videoRing_accesses_iff_wraps :
    (∃ m ∈ moments ringCallStep (bufferNew configVideoBufferSize) wrapCalls,
      RingAccess.payload 0 150000 ∈ ringAccesses m.1 m.2) ∧
    ∀ m ∈ moments ringCallStep (bufferNew configVideoBufferSize) wrapCalls, ∀ a ∈ ringAccesses m.1 m.2,
      a.Within configVideoBufferSize ∧ a.Aligned := by
  have hlength : ∀ n, (List.replicate n (7 : UInt8)).length = n := fun n => List.length_replicate
  have hrun : runEvents ringCallStep (bufferNew configVideoBufferSize) wrapCalls = some _ := rfl
  have hstart : (bufferNew configVideoBufferSize).Holds [] := bufferNew_holds (by decide) (by decide)
  obtain ⟨a,hrunA,hholdsA,hsizeA,htailA⟩ :=
    pushPop_ahead hstart (hlength 200000) (by decide) (by decide)
  have hindices := hholdsA.indices
  have heq := hindices.2.2.mpr rfl
  have hsize : a.size = 307200 := by rw [hsizeA]; rfl
  have htail : a.tail = 200004 := by rw [htailA]; decide
  have hahead : ¬a.FitsAhead (alignSize 150000) := by
    rw [Buffer.FitsAhead,if_neg (by omega),htail,hsize]
    decide
  have hroom : a.FitsAtStart (alignSize 150000) := ⟨heq.le,by rw [heq,htail]; decide⟩
  have hpairs : (moments ringCallStep (bufferNew configVideoBufferSize) wrapCalls).Pairwise fun a b =>
      ¬(RingWrapsUnaligned a ∧ RingFits b) := by
    apply List.Pairwise.imp_of_mem (R := fun _ _ => True) _ (List.pairwise_of_forall fun _ _ => trivial)
    rintro ⟨rb,call⟩ b hm _ _ ⟨hwraps,_⟩
    have hcall : call ∈ wrapCalls := by
      rw [← moments_map_snd hrun]
      exact List.mem_map_of_mem hm
    simp only [wrapCalls,List.mem_cons,List.not_mem_nil,or_false] at hcall
    rcases hcall with rfl | rfl | rfl | rfl | rfl | rfl | rfl
    · exact hwraps.2.2 (by rw [hlength])
    · exact hwraps
    · exact hwraps.2.2 (by rw [hlength])
    · exact hwraps
    · exact hwraps.2.2 rfl
    · exact hwraps
    · exact hwraps
  refine ⟨⟨(a,.push (List.replicate 150000 7)),?_,?_⟩,(videoRing_accesses_iff hrun).mpr hpairs⟩
  · change _ ∈ moments ringCallStep _ ([RingCall.push (List.replicate 200000 7),.pop] ++ _)
    rw [moments_append hrunA]
    exact List.mem_append_right _ List.mem_cons_self
  · rw [ringAccesses,bufferPushAccesses_eq hindices.1 hindices.2.1 (by rw [hlength]; decide),hlength,
      if_neg hahead,if_pos hroom]
    exact List.mem_cons_of_mem _ List.mem_cons_self

/-- Three frames that each leave the ring empty, and then one of four bytes. -/
def pastEndCalls : List RingCall :=
  [.push (List.replicate 200000 7),.pop,.push (List.replicate 150001 7),.pop,
    .push (List.replicate 157191 7),.pop,.push [7,7,7,7]]

/-- The length word of the last frame is stored at 307197, off the grid and one byte past the end
of the ring. -/
theorem videoRing_past_end :
    (∃ rb, runEvents ringCallStep (bufferNew configVideoBufferSize) pastEndCalls = some rb) ∧
      ∃ m ∈ moments ringCallStep (bufferNew configVideoBufferSize) pastEndCalls,
        RingAccess.length 307197 ∈ ringAccesses m.1 m.2 ∧
          ¬(RingAccess.length 307197).Within configVideoBufferSize ∧
          ¬(RingAccess.length 307197).Aligned := by
  have hlength : ∀ n, (List.replicate n (7 : UInt8)).length = n := fun n => List.length_replicate
  have hstart : (bufferNew configVideoBufferSize).Holds [] := bufferNew_holds (by decide) (by decide)
  obtain ⟨a,hrunA,hholdsA,hsizeA,htailA⟩ :=
    pushPop_ahead hstart (hlength 200000) (by decide) (by decide)
  obtain ⟨b,hrunB,hholdsB,hsizeB,htailB⟩ :=
    pushPop_atStart hholdsA (hlength 150001) (by decide) (by rw [hsizeA,htailA]; decide)
      (by rw [htailA]; decide)
  obtain ⟨c,hrunC,hholdsC,hsizeC,htailC⟩ :=
    pushPop_ahead hholdsB (hlength 157191) (by decide) (by rw [hsizeB,hsizeA,htailB]; decide)
  have htail : c.tail = 307197 := by rw [htailC,htailB]; decide
  have hsize : c.size = 307200 := by rw [hsizeC,hsizeB,hsizeA]; rfl
  have hrun : runEvents ringCallStep (bufferNew configVideoBufferSize)
      ([RingCall.push (List.replicate 200000 7),.pop] ++
        ([RingCall.push (List.replicate 150001 7),.pop] ++
          [RingCall.push (List.replicate 157191 7),.pop])) = some c := by
    rw [runEvents_append,hrunA,Option.bind_some,runEvents_append,hrunB,Option.bind_some,hrunC]
  have hindices := hholdsC.indices
  have heq := hindices.2.2.mpr rfl
  have hahead : ¬c.FitsAhead (alignSize ([7,7,7,7] : List UInt8).length) := by
    rw [Buffer.FitsAhead,if_neg (by omega),htail,hsize]
    decide
  have hroom : c.FitsAtStart (alignSize ([7,7,7,7] : List UInt8).length) :=
    ⟨heq.le,by rw [heq,htail]; decide⟩
  have hcalls : pastEndCalls = ([RingCall.push (List.replicate 200000 7),.pop] ++
      ([RingCall.push (List.replicate 150001 7),.pop] ++
        [RingCall.push (List.replicate 157191 7),.pop])) ++ [RingCall.push [7,7,7,7]] := by
    simp only [pastEndCalls,List.cons_append,List.nil_append]
  rw [hcalls,moments_concat hrun]
  refine ⟨⟨_,runEvents_concat.mpr ⟨c,hrun,rfl⟩⟩,(c,.push [7,7,7,7]),?_,?_,?_,?_⟩
  · exact List.mem_append_right _ List.mem_cons_self
  · rw [ringAccesses,bufferPushAccesses_eq hindices.1 hindices.2.1 (by decide),if_neg hahead,
      if_pos hroom,htail]
    exact List.mem_cons_self
  · change ¬307197 + 4 ≤ configVideoBufferSize
    decide
  · change ¬307197 % 4 = 0
    decide

end VideoRing

end Esp32Ipc
