import Mathlib.Data.Int.Init
import Mathlib.Tactic

/-!
# G.711 A-law

The companding curve of `g711.c`. A code word carries a sign, a segment number and the four bits
kept of the magnitude.
-/

namespace Esp32Ipc

/-- The segment boundaries of the curve, on the magnitude that remains after `>> 3`. -/
def segEnd : List UInt16 := [0x1F,0x3F,0x7F,0xFF,0x1FF,0x3FF,0x7FF,0xFFF]

/-- The search of `g711a_encode`: 8 when no boundary is large enough. -/
def g711aSegment (pcm : UInt16) : Nat := segEnd.findIdx fun last => pcm ≤ last

/-- The `int` that `g711a_encode` casts to `uint16_t`. -/
def g711aInt (sample : Int16) : Int := if sample < 0 then -sample.toInt - 1 else sample.toInt

/-- `g711a_encode`. -/
def g711aEncode (sample : Int16) : UInt8 :=
  let pcm := UInt16.ofInt (g711aInt sample)
  let mask : UInt8 := if sample ≥ 0 then 0xD5 else 0x55
  let pcm := pcm >>> 3
  let seg := g711aSegment pcm
  if seg ≥ 8 then 0x7F ^^^ mask
  else
    let aval := UInt8.ofNat (seg <<< 4)
    let aval :=
      if seg < 2 then aval ||| ((pcm >>> 1) &&& 0x0F).toUInt8
      else aval ||| ((pcm >>> UInt16.ofNat seg) &&& 0x0F).toUInt8
    aval ^^^ mask

/-- `g711a_decode`. The `int` it computes is cast to `int16_t` on return. -/
def g711aDecode (code : UInt8) : Int :=
  let code := code ^^^ 0x55
  -- the midpoint of the quantisation interval, shifted back up by the segment
  let t := (code &&& 0x0F).toNat * 16
  let magnitude :=
    match ((code &&& 0x70) >>> 4).toNat with
    | 0 => t + 8
    | 1 => t + 0x108
    | seg + 2 => (t + 0x108) <<< (seg + 1)
  let sample : Int := if code &&& 0x80 ≠ 0 then magnitude else -magnitude
  sample.bmod (2 ^ 16)

/-- The value returned as the `int16_t` that it is. -/
def g711aPcm (code : UInt8) : Int16 := Int16.ofInt (g711aDecode code)

end Esp32Ipc
