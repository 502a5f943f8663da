import Esp32Ipc.Core.G711
import Esp32Ipc.Framework.Quantiser

/-!
# The two halves of the A-law curve

`g711a_encode` looks for a segment and keeps four bits of the magnitude, `g711a_decode` starts from
the code word. One after the other they put the magnitude into the middle of its cell, where the
cells are 16 wide up to the second segment and twice as wide with each segment after it.
-/

namespace Esp32Ipc

open Framework

/-- The width of the cell of a magnitude. -/
def alawWidth (m : Nat) : Nat := octaveWidth 4 4 m

/-- The magnitude that `g711a_decode` rebuilds from a segment and its four bits. -/
def g711aLevel (seg t : Nat) : Nat :=
  if seg = 0 then 16 * t + 8 else (16 * t + 0x108) * 2 ^ (seg - 1)

section Segment

variable {pcm : UInt16}

private theorem segEnd_get : ∀ seg : Fin 8, (segEnd.get seg).toNat + 1 = 2 ^ (seg.val + 5) := by
  decide

theorem g711aSegment_eq (hpcm : pcm.toNat < 2 ^ 12) :
    g711aSegment pcm = Nat.log 2 pcm.toNat - 4 := by
  have hlog : Nat.log 2 pcm.toNat < 12 := Nat.log_lt_of_lt_pow' (by decide) hpcm
  have hseg : Nat.log 2 pcm.toNat - 4 < segEnd.length := by
    change _ < 8
    omega
  have hbelow (seg : Fin 8) : pcm ≤ segEnd.get seg ↔ pcm.toNat < 2 ^ (seg.val + 5) := by
    have hend := segEnd_get seg
    rw [UInt16.le_iff_toNat_le]
    omega
  apply (List.findIdx_eq hseg).mpr
  constructor
  · apply decide_eq_true
    apply (hbelow ⟨_,hseg⟩).mpr
    apply Nat.lt_pow_of_log_lt (by decide)
    change _ < Nat.log 2 pcm.toNat - 4 + 5
    omega
  · intro seg hless
    apply decide_eq_false
    intro hle
    have hlt := (hbelow ⟨seg,hless.trans hseg⟩).mp hle
    have hlog := Nat.log_lt_of_lt_pow' (by omega) hlt
    change _ < seg + 5 at hlog
    omega

theorem g711aSegment_lt (hpcm : pcm.toNat < 2 ^ 12) : g711aSegment pcm < 8 := by
  have hlog : Nat.log 2 pcm.toNat < 12 := Nat.log_lt_of_lt_pow' (by decide) hpcm
  rw [g711aSegment_eq hpcm]
  omega

end Segment

section Encode

variable {x : Int16}

theorem int16_neg_iff : x < 0 ↔ x.toInt < 0 := Int16.lt_iff_toInt_lt

theorem g711aInt_range (x : Int16) : 0 ≤ g711aInt x ∧ g711aInt x < 2 ^ 15 := by
  have hlow := x.le_toInt
  have hhigh := x.toInt_lt
  rw [g711aInt]
  split_ifs with hneg
  all_goals rw [int16_neg_iff] at hneg
  all_goals omega

/-- The magnitude that is quantised: a negative sample stands for the one above it. -/
def g711aMagnitude (x : Int16) : Nat := (g711aInt x).toNat

theorem g711aCast_toNat (x : Int16) : (UInt16.ofInt (g711aInt x)).toNat = g711aMagnitude x := by
  have hrange := g711aInt_range x
  rw [UInt16.ofInt,UInt16.toNat_ofNat',g711aMagnitude]
  omega

theorem g711aMagnitude_lt (x : Int16) : g711aMagnitude x < 2 ^ 15 := by
  have hrange := g711aInt_range x
  rw [g711aMagnitude]
  omega

/-- What is left of the magnitude after `>> 3`. -/
def g711aShifted (x : Int16) : UInt16 := UInt16.ofInt (g711aInt x) >>> 3

theorem g711aShifted_toNat (x : Int16) : (g711aShifted x).toNat = g711aMagnitude x / 2 ^ 3 := by
  rw [g711aShifted,UInt16.toNat_shiftRight,g711aCast_toNat,Nat.shiftRight_eq_div_pow]
  rfl

theorem g711aShifted_lt (x : Int16) : (g711aShifted x).toNat < 2 ^ 12 := by
  have hlt := g711aMagnitude_lt x
  rw [g711aShifted_toNat]
  omega

theorem g711aShifted_segment (x : Int16) :
    g711aSegment (g711aShifted x) = Nat.log 2 (g711aMagnitude x) - 7 := by
  rw [g711aSegment_eq (g711aShifted_lt x),g711aShifted_toNat,Nat.log_div_base_pow]
  omega

theorem alawWidth_eq (m : Nat) : alawWidth m = 2 ^ (3 + max 1 (Nat.log 2 m - 7)) := by
  rw [alawWidth,octaveWidth]
  congr 1
  omega

private theorem nibble_eq (pcm k : UInt16) (hk : k.toNat < 16) :
    ((pcm >>> k) &&& 0x0F).toUInt8 = UInt8.ofNat (pcm.toNat / 2 ^ k.toNat % 16) := by
  apply UInt8.toNat_inj.mp
  have hmask : (0x0F : UInt16).toNat = 2 ^ 4 - 1 := rfl
  rw [UInt16.toNat_toUInt8,UInt16.toNat_and,hmask,Nat.and_two_pow_sub_one_eq_mod,
    UInt16.toNat_shiftRight,Nat.mod_eq_of_lt hk,Nat.shiftRight_eq_div_pow,UInt8.toNat_ofNat']

private theorem nibble_width (x : Int16) {k : UInt16} (hk : k.toNat < 16)
    (hshift : k.toNat = max 1 (Nat.log 2 (g711aMagnitude x) - 7)) :
    ((g711aShifted x >>> k) &&& 0x0F).toUInt8 =
      UInt8.ofNat (g711aMagnitude x / alawWidth (g711aMagnitude x) % 16) := by
  rw [nibble_eq _ _ hk,g711aShifted_toNat,Nat.div_div_eq_div_mul,← pow_add,hshift,alawWidth_eq]

/-- The code word of a sample: the sign, the segment and the step within it. -/
theorem g711aEncode_eq (x : Int16) :
    g711aEncode x = (UInt8.ofNat ((Nat.log 2 (g711aMagnitude x) - 7) <<< 4) |||
      UInt8.ofNat (g711aMagnitude x / alawWidth (g711aMagnitude x) % 16)) ^^^
        (if x ≥ 0 then 0xD5 else 0x55) := by
  have hseg := g711aSegment_lt (g711aShifted_lt x)
  rw [← g711aShifted_segment]
  change (if g711aSegment (g711aShifted x) ≥ 8 then _ else _ ^^^ _) = _
  rw [if_neg (Nat.not_le.mpr hseg)]
  congr 1
  change (if g711aSegment (g711aShifted x) < 2 then
      UInt8.ofNat (g711aSegment (g711aShifted x) <<< 4) |||
        ((g711aShifted x >>> 1) &&& 0x0F).toUInt8
    else
      UInt8.ofNat (g711aSegment (g711aShifted x) <<< 4) |||
        ((g711aShifted x >>> UInt16.ofNat (g711aSegment (g711aShifted x))) &&& 0x0F).toUInt8) = _
  have hseg' := g711aShifted_segment x
  split_ifs with htwo
  · rw [nibble_width x (by decide) (by change 1 = _; omega)]
  · have hk : (UInt16.ofNat (g711aSegment (g711aShifted x))).toNat =
        g711aSegment (g711aShifted x) := by
      rw [UInt16.toNat_ofNat',Nat.mod_eq_of_lt (by omega)]
    rw [nibble_width x (by omega) (by omega)]

end Encode

section Decode

theorem g711aDecode_code : ∀ seg < 8, ∀ t < 16,
    g711aDecode ((UInt8.ofNat (seg <<< 4) ||| UInt8.ofNat t) ^^^ 0xD5) = g711aLevel seg t ∧
      g711aDecode ((UInt8.ofNat (seg <<< 4) ||| UInt8.ofNat t) ^^^ 0x55) = -g711aLevel seg t := by
  decide

theorem g711aLevel_eq (m : Nat) :
    g711aLevel (Nat.log 2 m - 7) (m / alawWidth m % 16) = cellMiddle alawWidth m := by
  rw [cellMiddle,cellStart]
  cases hseg : Nat.log 2 m - 7 with
  | zero =>
    have hm : m < 2 ^ 8 := Nat.lt_pow_of_log_lt (by decide) (by omega)
    have hwidth : alawWidth m = 16 := by rw [alawWidth_eq,hseg]; rfl
    rw [hwidth,g711aLevel,if_pos rfl]
    omega
  | succ r =>
    have hlog : Nat.log 2 m = r + 8 := by omega
    have hwidth : alawWidth m = 16 * 2 ^ r := by
      rw [alawWidth_eq,hseg,Nat.max_eq_right (by omega)]
      ring
    have hlow : 2 ^ (r + 8) ≤ m := by
      rw [← hlog]
      apply Nat.pow_log_le_self
      rintro rfl
      simp at hlog
    have hhigh : m < 2 ^ (r + 9) := Nat.lt_pow_of_log_lt (by decide) (by omega)
    have hpos : 0 < 2 ^ r := Nat.two_pow_pos r
    have hge : 16 ≤ m / (16 * 2 ^ r) := by
      rw [pow_add] at hlow
      rw [Nat.le_div_iff_mul_le (by omega)]
      omega
    have hlt : m / (16 * 2 ^ r) < 32 := by
      rw [pow_add] at hhigh
      rw [Nat.div_lt_iff_lt_mul (by omega)]
      omega
    obtain ⟨t,ht⟩ := Nat.exists_eq_add_of_le hge
    have hbits : (16 + t) % 16 = t := by omega
    have hhalf : 16 * 2 ^ r / 2 = 8 * 2 ^ r := by omega
    rw [hwidth,g711aLevel,if_neg (Nat.succ_ne_zero r),ht,hbits,hhalf,Nat.add_sub_cancel]
    ring

theorem g711aDecode_encode (x : Int16) : g711aDecode (g711aEncode x) =
    if x < 0 then -(cellMiddle alawWidth (g711aMagnitude x) : Int)
    else cellMiddle alawWidth (g711aMagnitude x) := by
  have hseg := g711aSegment_lt (g711aShifted_lt x)
  rw [g711aShifted_segment] at hseg
  have hcode := g711aDecode_code _ hseg
    (g711aMagnitude x / alawWidth (g711aMagnitude x) % 16) (Nat.mod_lt _ (by decide))
  rw [g711aLevel_eq] at hcode
  rw [g711aEncode_eq]
  by_cases hneg : x < 0
  · rw [if_neg (Int16.not_le.mpr hneg),if_pos hneg]
    exact hcode.2
  · rw [if_pos (Int16.not_lt.mp hneg),if_neg hneg]
    exact hcode.1

theorem g711aEncode_pcm : ∀ code, g711aEncode (g711aPcm code) = code := by
  have hcodes : ∀ k : Fin 256, g711aEncode (g711aPcm (UInt8.ofNat k)) = UInt8.ofNat k := by
    decide +kernel
  intro code
  have hcode := hcodes ⟨code.toNat,code.toNat_lt⟩
  rwa [UInt8.ofNat_toNat] at hcode

end Decode

section Curve

variable {x y : Int16}

theorem alawWidth_cells : Cells alawWidth := octaveWidth_cells 4 4

theorem sixteen_dvd_alawWidth (m : Nat) : 16 ∣ alawWidth m := by
  rw [alawWidth_eq]
  exact Nat.pow_dvd_pow 2 (m := 4) (by omega)

theorem alawWidth_le (m : Nat) : 16 * alawWidth m ≤ max 256 m := by
  rw [alawWidth,octaveWidth]
  rcases Nat.lt_or_ge 8 (Nat.log 2 m) with hhigh | hlow
  · have hm : m ≠ 0 := by
      rintro rfl
      simp at hhigh
    calc 16 * 2 ^ max 4 (Nat.log 2 m - 4) = 2 ^ (4 + (Nat.log 2 m - 4)) := by
          rw [Nat.max_eq_right (by omega),pow_add]
          rfl
      _ = 2 ^ Nat.log 2 m := by rw [Nat.add_sub_cancel' (by omega)]
      _ ≤ m := Nat.pow_log_le_self 2 hm
      _ ≤ max 256 m := le_max_right _ _
  · rw [Nat.max_eq_left (by omega)]
    exact le_max_left _ _

theorem cellMiddle_pos (m : Nat) : 0 < cellMiddle alawWidth m := by
  have hpos := alawWidth_cells.pos m
  have hdvd := sixteen_dvd_alawWidth m
  rw [cellMiddle]
  omega

theorem g711aMagnitude_neg (hneg : x < 0) : (g711aMagnitude x : Int) = -x.toInt - 1 := by
  have hrange := g711aInt_range x
  rw [g711aMagnitude,Int.toNat_of_nonneg hrange.1,g711aInt,if_pos hneg]

theorem g711aMagnitude_nonneg (hpos : ¬x < 0) : (g711aMagnitude x : Int) = x.toInt := by
  have hrange := g711aInt_range x
  rw [g711aMagnitude,Int.toNat_of_nonneg hrange.1,g711aInt,if_neg hpos]

theorem g711aDecode_encode_pos (x : Int16) : 0 < g711aDecode (g711aEncode x) ↔ 0 ≤ x.toInt := by
  have hpos := cellMiddle_pos (g711aMagnitude x)
  rw [g711aDecode_encode]
  split_ifs with hneg
  all_goals rw [int16_neg_iff] at hneg
  all_goals omega

/-- A decoded sample is off by half a cell at most, a negative one to either side by one less or
more than a positive one. -/
theorem g711aDecode_encode_error (x : Int16) :
    32 * |g711aDecode (g711aEncode x) - x.toInt| ≤ max 256 |x.toInt| := by
  have hwidth := alawWidth_le (g711aMagnitude x)
  have hdist := alawWidth_cells.dist_le (g711aMagnitude x)
  have hdvd := sixteen_dvd_alawWidth (g711aMagnitude x)
  have hcell := alawWidth_cells.pos (g711aMagnitude x)
  rw [g711aDecode_encode]
  split_ifs with hneg
  · have hm := g711aMagnitude_neg hneg
    rw [int16_neg_iff] at hneg
    have herror : |-(cellMiddle alawWidth (g711aMagnitude x) : Int) - x.toInt| ≤
        alawWidth (g711aMagnitude x) / 2 := abs_le.mpr ⟨by omega,by omega⟩
    rw [abs_of_neg hneg]
    omega
  · have hm := g711aMagnitude_nonneg hneg
    rw [int16_neg_iff] at hneg
    have herror : |(cellMiddle alawWidth (g711aMagnitude x) : Int) - x.toInt| ≤
        alawWidth (g711aMagnitude x) / 2 := abs_le.mpr ⟨by omega,by omega⟩
    have habs : |x.toInt| = x.toInt := abs_of_nonneg (by omega)
    rw [habs]
    omega

theorem g711aDecode_encode_mono (hxy : x ≤ y) :
    g711aDecode (g711aEncode x) ≤ g711aDecode (g711aEncode y) := by
  have hle := Int16.le_iff_toInt_le.mp hxy
  rw [g711aDecode_encode,g711aDecode_encode]
  by_cases hx : x < 0
  · by_cases hy : y < 0
    · have hmx := g711aMagnitude_neg hx
      have hmy := g711aMagnitude_neg hy
      have hmiddle := alawWidth_cells.cellMiddle_mono (m := g711aMagnitude y)
        (n := g711aMagnitude x) (by omega)
      rw [if_pos hx,if_pos hy]
      omega
    · rw [if_pos hx,if_neg hy]
      omega
  · have hy : ¬y < 0 := by
      rw [int16_neg_iff] at hx ⊢
      omega
    have hmx := g711aMagnitude_nonneg hx
    have hmy := g711aMagnitude_nonneg hy
    have hmiddle := alawWidth_cells.cellMiddle_mono (m := g711aMagnitude x)
      (n := g711aMagnitude y) (by omega)
    rw [if_neg hx,if_neg hy]
    omega

end Curve

section Range

/-- Encoding `x`, no value leaves the type it is computed in or cast to, and there is a segment. -/
structure EncodesInRange (x : Int16) : Prop where
  negation : -2 ^ 31 ≤ -x.toInt - 1 ∧ -x.toInt < 2 ^ 31
  cast : ((UInt16.ofInt (g711aInt x)).toNat : Int) = g711aInt x
  segment : g711aSegment (g711aShifted x) < 8
  shift : g711aSegment (g711aShifted x) <<< 4 < 2 ^ 8

/-- The level that `g711a_decode` rebuilds from `code`. -/
def g711aCodeLevel (code : UInt8) : Nat :=
  g711aLevel (((code ^^^ 0x55) &&& 0x70) >>> 4).toNat ((code ^^^ 0x55) &&& 0x0F).toNat

/-- Decoding `code`, the level fits an `int16_t` with either sign. -/
structure DecodesInRange (code : UInt8) : Prop where
  level : g711aCodeLevel code < 2 ^ 15
  sample : g711aDecode code =
    if (code ^^^ 0x55) &&& 0x80 ≠ 0 then (g711aCodeLevel code : Int) else -g711aCodeLevel code
  cast : (g711aPcm code).toInt = g711aDecode code

theorem encodesInRange (x : Int16) : EncodesInRange x := by
  have hlow := x.le_toInt
  have hhigh := x.toInt_lt
  have hrange := g711aInt_range x
  have hseg := g711aSegment_lt (g711aShifted_lt x)
  refine ⟨⟨by omega,by omega⟩,?_,hseg,?_⟩
  · rw [g711aCast_toNat,g711aMagnitude]
    omega
  · rw [Nat.shiftLeft_eq]
    omega

theorem decodesInRange (code : UInt8) : DecodesInRange code := by
  have hcodes : ∀ k : Fin 256, g711aCodeLevel (UInt8.ofNat k) < 2 ^ 15 ∧
      (g711aDecode (UInt8.ofNat k) = if (UInt8.ofNat k ^^^ 0x55) &&& 0x80 ≠ 0 then
        (g711aCodeLevel (UInt8.ofNat k) : Int) else -g711aCodeLevel (UInt8.ofNat k)) ∧
      (g711aPcm (UInt8.ofNat k)).toInt = g711aDecode (UInt8.ofNat k) := by
    decide +kernel
  have hcode := hcodes ⟨code.toNat,code.toNat_lt⟩
  rw [UInt8.ofNat_toNat] at hcode
  exact ⟨hcode.1,hcode.2.1,hcode.2.2⟩

end Range

end Esp32Ipc
