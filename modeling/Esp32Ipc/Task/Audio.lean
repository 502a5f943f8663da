import Esp32Ipc.Core.G711Curve
import Mathlib.Data.List.Forall2

/-!
# Uplink audio

`task_audio` reads samples from the codec, encodes them one by one and hands the bytes of each read to
`webrtc_send_audio`. Whoever receives them decodes them one by one, as `task_speaker` does with the
downlink.
-/

namespace Esp32Ipc

/-- The packets that `task_audio` sends. A read holds the samples it left in `pcm`, or is `none`
where it failed. -/
def taskAudio (reads : List (Option (List Int16))) : List (List UInt8) :=
  -- a failed read: `continue`
  reads.filterMap fun read => read.map fun pcm => pcm.map g711aEncode

/-- The samples read. -/
def audioSamples (reads : List (Option (List Int16))) : List Int16 :=
  reads.flatMap fun read => read.getD []

/-- The bytes sent, whatever the cuts between packets. -/
def audioBytes (reads : List (Option (List Int16))) : List UInt8 := (taskAudio reads).flatten

/-- A hop that decodes a stream and encodes it again. -/
def audioHop (alaw : List UInt8) : List UInt8 := (alaw.map g711aPcm).map g711aEncode

/-- What the ends of a stream may expect of each other: `xs` were sent as `alaw`. -/
structure AlawStream (xs : List Int16) (alaw : List UInt8) : Prop where
  decoded : List.Forall₂ (fun (x : Int16) d => (0 < d ↔ 0 ≤ x.toInt) ∧
    32 * |d - x.toInt| ≤ max 256 |x.toInt|) xs (alaw.map g711aDecode)
  hops : ∀ k, audioHop^[k] alaw = alaw
  encodes : ∀ x ∈ xs, EncodesInRange x
  decodes : ∀ code ∈ alaw, DecodesInRange code

section Stream

theorem audioBytes_eq (reads : List (Option (List Int16))) :
    audioBytes reads = (audioSamples reads).map g711aEncode := by
  induction reads with
  | nil => rfl
  | cons read reads ih =>
    rw [audioBytes,audioSamples] at ih
    cases read with
    | none => simpa [audioBytes,audioSamples,taskAudio] using ih
    | some pcm => simpa [audioBytes,audioSamples,taskAudio] using ih

theorem audioHop_eq (alaw : List UInt8) : audioHop alaw = alaw := by
  rw [audioHop,List.map_map]
  exact List.map_id'' g711aEncode_pcm alaw

theorem alawStream_map (xs : List Int16) : AlawStream xs (xs.map g711aEncode) where
  decoded := by
    rw [List.map_map,List.forall₂_map_right_iff]
    exact List.forall₂_same.mpr fun x _ => ⟨g711aDecode_encode_pos x,g711aDecode_encode_error x⟩
  hops := fun k => Function.iterate_fixed (audioHop_eq _) k
  encodes := fun x _ => encodesInRange x
  decodes := fun code _ => decodesInRange code

theorem forall₂_decode_encode {xs ys : List Int16} (h : List.Forall₂ (· ≤ ·) xs ys) :
    List.Forall₂ (· ≤ ·) ((xs.map g711aEncode).map g711aDecode)
      ((ys.map g711aEncode).map g711aDecode) := by
  rw [List.map_map,List.map_map,List.forall₂_map_left_iff,List.forall₂_map_right_iff]
  exact h.imp fun _ _ => g711aDecode_encode_mono

/-- Over any audio stream the two directions fit together, and a stream that is nowhere above
another is nowhere above it once decoded. -/
theorem taskAudio_stream (reads : List (Option (List Int16))) :
    AlawStream (audioSamples reads) (audioBytes reads) ∧
      ∀ reads', List.Forall₂ (· ≤ ·) (audioSamples reads) (audioSamples reads') →
        List.Forall₂ (· ≤ ·) ((audioBytes reads).map g711aDecode)
          ((audioBytes reads').map g711aDecode) := by
  rw [audioBytes_eq]
  refine ⟨alawStream_map _,?_⟩
  intro reads' h
  rw [audioBytes_eq]
  exact forall₂_decode_encode h

/-- The ends of the scale and the step between the signs, below two reads of silence. -/
theorem taskAudio_stream_extremes :
    List.Forall₂ (· ≤ ·) ((audioBytes [some [-32768,-1],none,some [0,32767]]).map g711aDecode)
      ((audioBytes [some [0,0,0],some [32767]]).map g711aDecode) :=
  (taskAudio_stream [some [-32768,-1],none,some [0,32767]]).2 [some [0,0,0],some [32767]] (by decide)

end Stream

end Esp32Ipc
