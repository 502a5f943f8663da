import Esp32Ipc.Core.Osd

/-!
# What the rasteriser paints

In the packed layout the offset of a byte tells its colour: the first byte of each group is the
chroma of its row's parity and the other two are luma. So a stroke is determined by the set of
pixels it covers.
-/

namespace Esp32Ipc

open Framework

/-- Offset of the chroma byte a pixel shares with its neighbour. -/
def chromaOffset (stride : Int) (p : Int × Int) : Int := p.2 * stride + p.1 / 2 * 3

/-- Offset of a pixel's own luma byte. -/
def lumaOffset (stride : Int) (p : Int × Int) : Int := p.2 * stride + p.1 / 2 * 3 + 1 + p.1 % 2

def pixelBytes (stride : Int) (S : Set (Int × Int)) : Set Int :=
  {o | ∃ p ∈ S, o = chromaOffset stride p ∨ o = lumaOffset stride p}

/-- The colour a marked byte gets. -/
def packedColour (stride : Int) (yc uc vc : UInt8) (o : Int) : UInt8 :=
  if o % stride % 3 = 0 then if o / stride % 2 = 1 then vc else uc else yc

/-- The pixels of `S` are drawn, and nothing else. -/
def Draws (stride : Int) (yc uc vc : UInt8) (S : Set (Int × Int)) (buf buf' : Frame) : Prop :=
  Paints (packedColour stride yc uc vc) (pixelBytes stride S) buf buf'

/-- The bytes of the pixels of `S` are stored to, each with a value that `R` allows. -/
def Traces (R : Int → UInt8 → Prop) (stride : Int) (S : Set (Int × Int)) (buf buf' : Frame) : Prop :=
  Writes R (pixelBytes stride S) buf buf'

/-- The values the strokes put are allowed: a chroma byte that of its row, a luma byte `yc`. -/
structure Allows (R : Int → UInt8 → Prop) (width : Int) (yc uc vc : UInt8) : Prop where
  chroma : ∀ x y, 0 ≤ x → x < width →
    R (y * (width + width / 2) + x / 2 * 3) (if y % 2 = 1 then vc else uc)
  luma : ∀ x y, 0 ≤ x → x < width → R (y * (width + width / 2) + x / 2 * 3 + (1 + x % 2)) yc

section Sets

variable {R : Int → UInt8 → Prop} {stride : Int} {yc uc vc : UInt8} {S T : Set (Int × Int)}
  {buf buf' buf'' : Frame}

theorem draws_iff : Draws stride yc uc vc S buf buf' ↔
    Traces (fun o b => b = packedColour stride yc uc vc o) stride S buf buf' := paints_iff

theorem pixelBytes_union : pixelBytes stride (S ∪ T) = pixelBytes stride S ∪ pixelBytes stride T := by
  ext o
  simp only [pixelBytes,Set.mem_union,Set.mem_ofPred_eq,or_and_right,exists_or]

theorem Traces.none : Traces R stride ∅ buf buf :=
  Writes.none.congr (by simp [pixelBytes])

theorem Traces.trans (h : Traces R stride S buf buf') (h' : Traces R stride T buf' buf'') :
    Traces R stride (S ∪ T) buf buf'' :=
  (Writes.trans h h').congr pixelBytes_union.symm

theorem Traces.congr (h : Traces R stride S buf buf') (hST : S = T) :
    Traces R stride T buf buf' := hST ▸ h

theorem Traces.foldl {ι : Type*} {f : Frame → ι → Frame} {S : ι → Set (Int × Int)} (l : List ι)
    (h : ∀ i ∈ l, ∀ buf, Traces R stride (S i) buf (f buf i)) (buf : Frame) :
    Traces R stride {p | ∃ i ∈ l, p ∈ S i} buf (l.foldl f buf) := by
  apply (Writes.foldl l h buf).congr
  ext o
  simp only [pixelBytes,Set.mem_ofPred_eq]
  constructor
  · intro ⟨i,hi,p,hp,ho⟩
    exact ⟨p,⟨i,hi,hp⟩,ho⟩
  · intro ⟨p,⟨i,hi,hp⟩,ho⟩
    exact ⟨i,hi,p,hp,ho⟩

theorem Draws.congr (h : Draws stride yc uc vc S buf buf') (hST : S = T) :
    Draws stride yc uc vc T buf buf' := hST ▸ h

end Sets

section Colours

variable {width : Int} (heven : width % 2 = 0) (yc uc vc : UInt8)

theorem rowOffset (stride y r : Int) (h₀ : 0 ≤ r) (h₁ : r < stride) :
    (y * stride + r) / stride = y ∧ (y * stride + r) % stride = r := by
  constructor
  · rw [add_comm,Int.add_mul_ediv_right _ _ (by omega),Int.ediv_eq_zero_of_lt h₀ h₁,zero_add]
  · rw [add_comm,Int.add_mul_emod_self_right,Int.emod_eq_of_lt h₀ h₁]

include heven

theorem packedColour_chroma {x : Int} (y : Int) (h₀ : 0 ≤ x) (h₁ : x < width) :
    packedColour (width + width / 2) yc uc vc (y * (width + width / 2) + x / 2 * 3) =
      if y % 2 = 1 then vc else uc := by
  obtain ⟨hrow,hplace⟩ := rowOffset (width + width / 2) y (x / 2 * 3) (by omega) (by omega)
  rw [packedColour,hrow,hplace,if_pos (by omega)]

theorem packedColour_luma {x k : Int} (y : Int) (h₀ : 0 ≤ x) (h₁ : x < width) (hk : k = 1 ∨ k = 2) :
    packedColour (width + width / 2) yc uc vc (y * (width + width / 2) + x / 2 * 3 + k) = yc := by
  have hplace := (rowOffset (width + width / 2) y (x / 2 * 3 + k) (by omega) (by omega)).2
  rw [packedColour,add_assoc,hplace,if_neg (by omega)]

/-- On a frame of even width a byte's offset tells its colour. -/
theorem allows_packedColour :
    Allows (fun o b => b = packedColour (width + width / 2) yc uc vc o) width yc uc vc where
  chroma _ y h₀ h₁ := (packedColour_chroma heven yc uc vc y h₀ h₁).symm
  luma _ y h₀ h₁ := (packedColour_luma heven yc uc vc y h₀ h₁ (by omega)).symm

end Colours

theorem allows_any (width : Int) (yc uc vc : UInt8) : Allows (fun _ _ => True) width yc uc vc :=
  ⟨fun _ _ _ _ => trivial,fun _ _ _ _ => trivial⟩

section Strokes

variable {R : Int → UInt8 → Prop} {width : Int} {yc uc vc : UInt8} (hR : Allows R width yc uc vc)
  (buf : Frame) {x x1 x2 y y1 y2 : Int}

/-- The pixels of one row from `x1` up to but not including `x2`. -/
def rowPixels (y x1 x2 : Int) : Set (Int × Int) := {p | p.2 = y ∧ x1 ≤ p.1 ∧ p.1 < x2}

/-- The pixels of one column from `y1` up to but not including `y2`. -/
def columnPixels (x y1 y2 : Int) : Set (Int × Int) := {p | p.1 = x ∧ y1 ≤ p.2 ∧ p.2 < y2}

theorem rowPixels_union (h₁ : x1 ≤ x) (h₂ : x ≤ x2) :
    rowPixels y x1 x ∪ rowPixels y x x2 = rowPixels y x1 x2 := by
  ext p
  simp only [rowPixels,Set.mem_union,Set.mem_ofPred_eq]
  omega

theorem rowPixels_empty (h : x2 ≤ x1) : rowPixels y x1 x2 = ∅ := by
  apply Set.eq_empty_of_forall_notMem
  intro p ⟨_,hlo,hhi⟩
  omega

theorem columnPixels_union (h₁ : y1 ≤ y) (h₂ : y ≤ y2) :
    columnPixels x y1 y ∪ columnPixels x y y2 = columnPixels x y1 y2 := by
  ext p
  simp only [columnPixels,Set.mem_union,Set.mem_ofPred_eq]
  omega

theorem columnPixels_empty (h : y2 ≤ y1) : columnPixels x y1 y2 = ∅ := by
  apply Set.eq_empty_of_forall_notMem
  intro p ⟨_,hlo,hhi⟩
  omega

theorem rowPixels_one : rowPixels y x (x + 1) = {(x,y)} := by
  ext ⟨a,b⟩
  simp only [rowPixels,Set.mem_ofPred_eq,Set.mem_singleton_iff,Prod.mk.injEq]
  omega

theorem columnPixels_one : columnPixels x y (y + 1) = {(x,y)} := by
  ext ⟨a,b⟩
  simp only [columnPixels,Set.mem_ofPred_eq,Set.mem_singleton_iff,Prod.mk.injEq]
  omega

theorem mem_pixelBytes_row {stride o : Int} : o ∈ pixelBytes stride (rowPixels y x1 x2) ↔
    ∃ a, x1 ≤ a ∧ a < x2 ∧ (o = y * stride + a / 2 * 3 ∨ o = y * stride + a / 2 * 3 + 1 + a % 2) := by
  constructor
  · intro ⟨p,⟨hy,hlo,hhi⟩,ho⟩
    subst hy
    exact ⟨p.1,hlo,hhi,ho⟩
  · intro ⟨a,hlo,hhi,ho⟩
    exact ⟨(a,y),⟨rfl,hlo,hhi⟩,ho⟩

include hR

theorem traces_pixel (h₀ : 0 ≤ x) (h₁ : x < width) :
    Traces R (width + width / 2) {(x,y)} buf
      ((buf.store (y * (width + width / 2) + x / 2 * 3) (if y % 2 = 1 then vc else uc)).store
        (y * (width + width / 2) + x / 2 * 3 + (1 + x % 2)) yc) := by
  have hc := Writes.store (c := buf) (hR.chroma x y h₀ h₁)
  apply (hc.trans (Writes.store (hR.luma x y h₀ h₁))).congr
  ext o
  simp only [Set.mem_union,Set.mem_singleton_iff,pixelBytes,Set.mem_ofPred_eq,exists_eq_left,
    chromaOffset,lumaOffset,add_assoc]

theorem traces_group (hx : x % 2 = 0) (h₀ : 0 ≤ x) (h₁ : x + 1 < width) :
    Traces R (width + width / 2) (rowPixels y x (x + 2)) buf
      (((buf.store (y * (width + width / 2) + x / 2 * 3) (if y % 2 = 1 then vc else uc)).store
        (y * (width + width / 2) + x / 2 * 3 + 1) yc).store
          (y * (width + width / 2) + x / 2 * 3 + 2) yc) := by
  have hc := Writes.store (c := buf) (hR.chroma x y h₀ (by omega))
  have hl := hR.luma x y h₀ (by omega)
  have hr := hR.luma (x + 1) y (by omega) h₁
  have hnext : (x + 1) / 2 * 3 = x / 2 * 3 := by omega
  have hodd : (x + 1) % 2 = 1 := by omega
  rw [hx,add_zero] at hl
  rw [hnext,hodd,one_add_one_eq_two] at hr
  apply ((hc.trans (Writes.store hl)).trans (Writes.store hr)).congr
  ext o
  rw [mem_pixelBytes_row]
  simp only [Set.mem_union,Set.mem_singleton_iff]
  constructor
  · rintro ((rfl | rfl) | rfl)
    · exact ⟨x,le_refl _,by omega,.inl rfl⟩
    · exact ⟨x,le_refl _,by omega,.inr (by omega)⟩
    · exact ⟨x + 1,by omega,by omega,.inr (by omega)⟩
  · intro ⟨a,hlo,hhi,ho⟩
    obtain rfl | rfl : a = x ∨ a = x + 1 := by omega
    · omega
    · omega

theorem traces_pixel_luma (h₀ : 0 ≤ x) (h₁ : x < width) :
    Traces R (width + width / 2) {(x,y)} buf
      ((buf.store (y * (width + width / 2) + x / 2 * 3 + (1 + x % 2)) yc).store
        (y * (width + width / 2) + x / 2 * 3) (if y % 2 = 1 then vc else uc)) := by
  have hl := Writes.store (c := buf) (hR.luma x y h₀ h₁)
  apply (hl.trans (Writes.store (hR.chroma x y h₀ h₁))).congr
  rw [Set.union_comm]
  ext o
  simp only [Set.mem_union,Set.mem_singleton_iff,pixelBytes,Set.mem_ofPred_eq,exists_eq_left,
    chromaOffset,lumaOffset,add_assoc]

/-- The loop of `draw_hrun` stops at the last column or just after it. -/
theorem drawGroups_traces (fuel : Nat) (hx : x % 2 = 0) (h₀ : 0 ≤ x) (h₂ : x2 < width)
    (hle : x ≤ x2 + 1) (hfuel : x2 - x + 1 ≤ fuel) :
    ∃ x' buf', drawGroups (y * (width + width / 2)) x2 yc (if y % 2 = 1 then vc else uc) fuel x buf =
        (x',buf') ∧ x ≤ x' ∧ x' % 2 = 0 ∧ (x' = x2 ∨ x' = x2 + 1) ∧
      Traces R (width + width / 2) (rowPixels y x x') buf buf' := by
  induction fuel generalizing x buf with
  | zero =>
    refine ⟨x,buf,rfl,le_refl _,hx,.inr (by omega),?_⟩
    exact Traces.none.congr (rowPixels_empty (le_refl _)).symm
  | succ fuel ih =>
    rw [drawGroups]
    by_cases hgroup : x + 1 ≤ x2
    · rw [if_pos hgroup]
      have hdraws := traces_group hR buf (y := y) hx h₀ (by omega)
      obtain ⟨x',buf',hloop,hxx',heven',hstop,hrest⟩ := ih
        (((buf.store (y * (width + width / 2) + x / 2 * 3) (if y % 2 = 1 then vc else uc)).store
          (y * (width + width / 2) + x / 2 * 3 + 1) yc).store
            (y * (width + width / 2) + x / 2 * 3 + 2) yc)
        (x := x + 2) (by omega) (by omega) (by omega) (by omega)
      refine ⟨x',buf',hloop,by omega,heven',hstop,(hdraws.trans hrest).congr ?_⟩
      exact rowPixels_union (by omega) hxx'
    · rw [if_neg hgroup]
      refine ⟨x,buf,rfl,le_refl _,hx,by omega,?_⟩
      exact Traces.none.congr (rowPixels_empty (le_refl _)).symm

theorem drawHrun_traces (h₀ : 0 ≤ x1) (hle : x1 ≤ x2) (h₂ : x2 < width) :
    Traces R (width + width / 2) (rowPixels y x1 (x2 + 1)) buf
      (drawHrun buf (width + width / 2) y x1 x2 yc uc vc) := by
  -- the odd leading pixel
  obtain ⟨x,buf₁,hlead,hx,hx1,hxle,hdraw₁⟩ : ∃ x buf₁, (if x1 % 2 = 1 then
      (x1 + 1,(buf.store (y * (width + width / 2) + x1 / 2 * 3) (if y % 2 = 1 then vc else uc)).store
        (y * (width + width / 2) + x1 / 2 * 3 + 2) yc) else (x1,buf)) = (x,buf₁) ∧ x % 2 = 0 ∧
      x1 ≤ x ∧ x ≤ x2 + 1 ∧ Traces R (width + width / 2) (rowPixels y x1 x) buf buf₁ := by
    by_cases hodd : x1 % 2 = 1
    · rw [if_pos hodd]
      refine ⟨x1 + 1,_,rfl,by omega,by omega,by omega,?_⟩
      have hpixel := traces_pixel hR buf (x := x1) (y := y) h₀ (by omega)
      rw [hodd] at hpixel
      exact hpixel.congr rowPixels_one.symm
    · rw [if_neg hodd]
      exact ⟨x1,buf,rfl,by omega,le_refl _,by omega,Traces.none.congr (rowPixels_empty (le_refl _)).symm⟩
  obtain ⟨x',buf₂,hloop,hxx',hx',hstop,hdraw₂⟩ := drawGroups_traces hR buf₁ (y := y)
    (x2 - x + 1).toNat hx (by omega) h₂ hxle (by omega)
  have hdraw := (hdraw₁.trans hdraw₂).congr (rowPixels_union hx1 hxx')
  simp only [drawHrun]
  rw [hlead]
  simp only
  rw [hloop]
  rcases hstop with rfl | rfl
  · -- the even trailing pixel
    rw [if_pos rfl]
    have hpixel := traces_pixel hR buf₂ (x := x') (y := y) (by omega) h₂
    rw [hx'] at hpixel
    apply (hdraw.trans (hpixel.congr rowPixels_one.symm)).congr
    exact rowPixels_union (by omega) (by omega)
  · rw [if_neg (by omega)]
    exact hdraw

theorem drawColumn_traces (fuel : Nat) (h₀ : 0 ≤ x) (h₁ : x < width) (hfuel : y2 - y + 1 ≤ fuel) :
    Traces R (width + width / 2) (columnPixels x y (y2 + 1)) buf
      (drawColumn (width + width / 2) (1 + x % 2) y2 yc uc vc fuel y
        (y * (width + width / 2) + x / 2 * 3) buf) := by
  induction fuel generalizing y buf with
  | zero => exact Traces.none.congr (columnPixels_empty (by omega)).symm
  | succ fuel ih =>
    rw [drawColumn]
    by_cases hy : y ≤ y2
    · rw [if_pos hy]
      have hpixel := traces_pixel_luma hR buf (x := x) (y := y) h₀ h₁
      have hrest := ih ((buf.store (y * (width + width / 2) + x / 2 * 3 + (1 + x % 2)) yc).store
        (y * (width + width / 2) + x / 2 * 3) (if y % 2 = 1 then vc else uc)) (y := y + 1) (by omega)
      have hnext : (y + 1) * (width + width / 2) + x / 2 * 3 =
          y * (width + width / 2) + x / 2 * 3 + (width + width / 2) := by ring
      rw [hnext] at hrest
      apply ((hpixel.congr columnPixels_one.symm).trans hrest).congr
      exact columnPixels_union (by omega) (by omega)
    · rw [if_neg hy]
      exact Traces.none.congr (columnPixels_empty (by omega)).symm

theorem drawVrun_traces (h₀ : 0 ≤ x) (h₁ : x < width) :
    Traces R (width + width / 2) (columnPixels x y1 (y2 + 1)) buf
      (drawVrun buf (width + width / 2) x y1 y2 yc uc vc) :=
  drawColumn_traces hR buf _ h₀ h₁ (by omega)

end Strokes

end Esp32Ipc
